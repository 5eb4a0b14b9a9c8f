import Faultloggerd.StackPrinter.Siblings

/-! # Insertion of a stack into the heap

Each step of `Insert` finds or makes the item of a pc among the siblings below the current item and moves it to its
place, as `locate` does with the trees (`insertBehind_spec`, `insertImpl_child`); all steps together insert the path
(`insertLoop_spec`).
-/
namespace Faultloggerd.StackPrinter
open List Nat Foundations PrefixForest Heap

/-! ## One step of the insertion -/

structure Extends (h h' : Heap) (owner : ℕ) (used used' : List ℕ) : Prop where
  next_le : h.next ≤ h'.next
  fresh : ∀ x ∈ used', x ∈ used ∨ h.next ≤ x
  frame : ∀ x < h.next, x ∉ used → x ≠ owner → h'.item x = h.item x
  owner : h'.item owner = {h.item owner with child := (h'.item owner).child}

theorem Extends.notMem {h h' : Heap} {owner x : ℕ} {used used' : List ℕ} (he : Extends h h' owner used used')
    (hx : x<h.next) (hn : x∉used) : x∉used' := by
  intro hm
  rcases he.fresh x hm with ho | hn1
  · exact hn ho
  · omega

theorem Extends.relinked {h h' h'' : Heap} {owner : ℕ} {used used' used'' xs : List ℕ}
    (he : Extends h h' owner used used')
    (hr : Relinked h' h'' owner xs) (hxs : ∀ x∈xs, x∈used') (hu : ∀ x∈used'', x∈used') :
    Extends h h'' owner used used'' where
  next_le := hr.next ▸ he.next_le
  fresh x hx := he.fresh x (hu x hx)
  frame x hx hn hne := by
    rw [hr.frame x (fun hm => he.notMem hx hn (hxs x hm)) hne, he.frame x hx hn hne]
  owner := by rw [hr.owner, he.owner]

structure Settled (h h' : Heap) (owner level : ℕ) (located : Place (BitVec 64)) (nodes before : List Node) (node : Node)
    (after : List Node) : Prop where
  spine : Spine h' level (h'.item owner).child (before++node::after)
  grows : Extends h h' owner (owned nodes) (owned (before++node::after))
  before_eq : trees before = located.before
  tree_eq : node.tree = located.tree
  after_eq : trees after = located.after

section Step

variable {h h' : Heap} {level owner n : ℕ} {pc : BitVec 64} {nodes before after : List Node} {last node : Node}

theorem trees_takeWhile (p : Tree → Bool) (nodes : List Node) :
    trees (nodes.takeWhile fun e => p e.tree)=(trees nodes).takeWhile p := by
  rw [trees, trees, takeWhile_map]
  rfl

theorem trees_dropWhile (p : Tree → Bool) (nodes : List Node) :
    trees (nodes.dropWhile fun e => p e.tree)=(trees nodes).dropWhile p := by
  rw [trees, trees, dropWhile_map]
  rfl

theorem owned_perm {left right : List Node} (hp : left.Perm right) : (owned left).Perm (owned right) :=
  hp.flatMap_right _

theorem settled_of_adjust (nodes : List Node) (hs : Spine h' level (h'.item owner).child (before++[last]++node::after))
    (ho1 : owner∉owned (before++[last]++node::after)) (hc : ∀ e∈before++[last]++node::after, e.tree.count<2^31)
    (hg : Extends h h' owner (owned nodes) (owned (before++[last]++node::after))) :
    ∃ h'' front rear, h'.adjustSiblings owner last.addr node.addr=some (h'', some node.addr) ∧
      Settled h h'' owner level (place node.tree (trees (before++[last])) (trees after)) nodes front node
        (rear++after) ∧ front++rear=before++[last] := by
  obtain ⟨h'', ha, hs2, hr⟩ := adjustSiblings_spec hs ho1 hc
  have hs1 := takeWhile_append_dropWhile (p := fun e => decide (node.tree.count≤e.tree.count))
    (l := before++[last])
  have hp : (settle node (before++[last]) after).Perm (before++[last]++node::after) := by
    refine perm_middle.trans (List.Perm.trans ?_ perm_middle.symm)
    rw [←append_assoc, hs1]
  have ho := owned_perm hp
  refine ⟨h'', _, _, ha, ⟨hs2, ?_, ?_, rfl, ?_⟩, hs1⟩
  · exact hg.relinked hr (fun x hx => mem_owned_of_mem_addrs hx) fun x hx => ho.mem_iff.mp hx
  · exact trees_takeWhile (fun t => node.tree.count≤t.count) _
  · rw [trees_append, trees_dropWhile (fun t => node.tree.count≤t.count)]
    rfl

def Node.grown (node : Node) (n : ℕ) : Node :=
  {node with tree := .node node.tree.label (node.tree.count+n) node.tree.children}

@[simp] theorem owned_grown (node : Node) (n : ℕ) : owned (node.grown n::after)=owned (node::after) := by
  rfl

theorem Spine.addCount {p : Option ℕ} (hs : Spine h level p (before++node::after)) (n : ℕ) :
    Spine (h.addCount node.addr (BitVec.ofNat 32 n)) level p (before++node.grown n::after) := by
  have hm : node∈before++node::after := by simp
  obtain ⟨ha, hr⟩ := nodup_cons.mp ((owned_middle_perm _ _ _).nodup_iff.mp hs.nodup)
  have hi : (h.addCount node.addr (BitVec.ofNat 32 n)).item node.addr =
      {h.item node.addr with pcCount := (h.item node.addr).pcCount+BitVec.ofNat 32 n} := h.modify_item_self _ _
  have ho : ∀ x, x≠node.addr → (h.addCount node.addr (BitVec.ofNat 32 n)).item x=h.item x := fun x hx =>
    h.modify_item_of_ne _ hx
  have ho1 : owned (before++node.grown n::after)=owned (before++node::after) := by
    rw [owned_append, owned_append, owned_grown]
  obtain ⟨hh, hc⟩ := hs.stands hm
  refine hs.replace rfl (fun x hx => ho x fun heq => ha (heq ▸ mem_append_right _ hx))
    (by unfold siblings; rw [hi]) ?_ (ho1 ▸ hs.nodup) (ho1 ▸ hs.bound)
  change Holds ((h.addCount node.addr (BitVec.ofNat 32 n)).item node.addr) _ _ ∧
    Linked _ _ ((h.addCount node.addr (BitVec.ofNat 32 n)).item node.addr).child _ _
  rw [hi]
  refine ⟨⟨hh.pc, ?_, hh.level⟩, hc.congr fun x hx => .of_eq (ho x fun heq => ha ?_)⟩
  · change (h.item node.addr).pcCount+BitVec.ofNat 32 n=BitVec.ofNat 32 (node.tree.count+n)
    rw [hh.pcCount, BitVec.ofNat_add]
  · exact heq ▸ mem_append_left _ hx

theorem extends_addCount (ho : owner≠node.addr) (hm : node∈nodes) :
    Extends h (h.addCount node.addr (BitVec.ofNat 32 n)) owner (owned nodes) (owned nodes) where
  next_le := le_refl _
  fresh _ hx := .inl hx
  frame x _ hn _ := h.modify_item_of_ne _ fun heq => hn (heq ▸ addr_mem_owned hm)
  owner := by rw [addCount, h.modify_item_of_ne _ ho]

variable {d fuel x : ℕ} {pcCount : BitVec 32}

theorem insertImpl_empty (hx : h.item x = {level := level}) :
    h.insertImpl pc pcCount level (fuel+1) (some x) d = some (h.fill x pc pcCount, some x) := by
  unfold insertImpl
  rw [hx]
  by_cases hpc : pc = 0
  · have hs : (h.modify x fun item => {item with pc := pc}) = h := by
      rw [Heap.modify, hx, hpc]
      exact congrArg (fun item => {h with item := item}) (Function.update_eq_self_iff.mpr hx.symm)
    rw [if_pos ⟨rfl, hpc.symm⟩, fill, hs]
  · rw [if_neg fun ha => hpc ha.2.symm, if_pos rfl]
    rfl

theorem insertImpl_pass (hl : (h.item x).level=level)
    (hne : (h.item x).pc≠pc) (hz : (h.item x).pc≠0) : h.insertImpl pc pcCount level (fuel+1) (some x) d =
      insertBehind (insertImpl pc pcCount level fuel) h pc pcCount x d := by
  have hlt : ¬(h.item x).level<level := by omega
  conv_lhs => unfold insertImpl
  rw [if_neg fun ha => hne ha.2, if_neg hz, if_neg hlt]

def Node.fresh (addr : ℕ) (pc : BitVec 64) (n : ℕ) : Node :=
  ⟨addr, .node pc n [], []⟩

theorem owned_fresh (nodes : List Node) (x : ℕ) (pc : BitVec 64) (n : ℕ) :
    owned (nodes++[.fresh x pc n])=owned nodes++[x] := owned_append nodes _

theorem stands_fresh (hx : h.item x={pc := pc, pcCount := BitVec.ofNat 32 n, level := level}) :
    Stands h level (.fresh x pc n) := by
  change Holds (h.item x) level (.node pc n []) ∧ Linked h (level+1) (h.item x).child [] []
  rw [hx]
  exact ⟨⟨rfl, rfl, rfl⟩, linked_nil h (level+1)⟩

theorem Spine.append {p : Option ℕ} (hs : Spine h level p (before++[last]))
    (hn2 : h'.next=h.next+1) (ho : ∀ x<h.next, x≠last.addr → h'.item x=h.item x)
    (hl1 : h'.item last.addr={h.item last.addr with siblings := some h.next})
    (hn1 : h'.item h.next={pc := pc, pcCount := BitVec.ofNat 32 n, level := level}) :
    Spine h' level p (before++[last]++[.fresh h.next pc n]) := by
  have hl : last∈before++[last] := by simp
  have hn := hs.addrs_nodup
  have hk : ∀ e∈before++[last], Stands h' level e := by
    intro e he
    have hi : ∀ x∈e.inner, SameShape (h.item x) (h'.item x) := by
      refine fun x hx => .of_eq (ho x (hs.bound x (inner_subset_owned he x hx)) fun heq => ?_)
      exact inner_notMem_addrs hs.nodup he x hx (heq ▸ mem_map_of_mem hl)
    by_cases hc1 : e.addr=last.addr
    · exact (hs.stands he).congr (hc1 ▸ hl1) hi
    · exact (hs.stands he).congr (ho e.addr (hs.bound _ (addr_mem_owned he)) hc1) hi
  refine .of_stands ?_ (forall_mem_append.mpr ⟨hk, forall_mem_singleton.mpr (stands_fresh hn1)⟩) ?_ ?_
  · have hc := hs.chain
    rw [addrs_append] at hc hn
    rw [addrs_append, addrs_append]
    refine chain_append.mpr ⟨some h.next, hc.relink (fun x hx => ?_) (congrArg StackItem.siblings hl1), rfl,
      congrArg StackItem.siblings hn1⟩
    have hm : x∈owned (before++[last]) := mem_owned_of_mem_addrs (addrs_append _ _ ▸ mem_append_left _ hx)
    refine congrArg StackItem.siblings (ho x (hs.bound x hm) fun heq => ?_)
    exact (nodup_append.mp hn).2.2 x hx last.addr mem_cons_self heq
  · rw [owned_fresh, ←concat_eq_append]
    exact hs.nodup.concat fun hx => (hs.bound _ hx).false
  · rw [owned_fresh, hn2]
    exact forall_mem_append.mpr ⟨fun x hx => (hs.bound x hx).trans (lt_succ_self _),
      forall_mem_singleton.mpr (lt_succ_self _)⟩

/-- The counts stay within 31 bits when the weight is added to the tree of the pc. -/
structure Fits (pc : BitVec 64) (n : ℕ) (ts : List Tree) : Prop where
  fresh : n < 2^31
  counts : ∀ t ∈ ts, t.count < 2^31
  grown : ∀ t ∈ ts, t.label = pc → t.count+n < 2^31

theorem Fits.children {ts : List Tree} (hf : Fits pc n ts)
    (hc : ∀ t∈ts, Capped t.count t.children) : ∃ m, Capped m (locate pc n ts).tree.children ∧ m+n<2^31 := by
  rcases locate_cases pc ts with hn | ⟨before, s, after, rfl, hb, hs⟩
  · rw [locate_of_notMem hn]
    exact ⟨0, .intro nofun nofun, (zero_add n).symm ▸ hf.fresh⟩
  · have hm : s∈before++s::after := by simp
    rw [locate_append hb hs]
    exact ⟨s.count, hc s hm, hf.grown s hm hs⟩

/-- The siblings that `InsertImpl` goes past on its way to a pc. -/
def passed (pc : BitVec 64) (ts : List Tree) : List Tree :=
  ts.takeWhile fun t => t.label ≠ pc

theorem passed_cons {t : Tree} (ht : t.label ≠ pc) (ts : List Tree) :
    passed pc (t :: ts) = t :: passed pc ts :=
  takeWhile_cons_of_pos (by simpa using ht)

theorem labels_of_nodes (hl : ∀ e∈nodes, e.tree.label≠pc) : ∀ t∈trees nodes, t.label≠pc := by
  intro t ht
  obtain ⟨e, he, rfl⟩ := mem_map.mp ht
  exact hl e he

theorem insertBehind_new (hs : Spine h level (h.item owner).child (before++[last]))
    (ho1 : owner∉owned (before++[last])) (hlt : owner<h.next)
    (hl4 : ∀ e∈before++[last], e.tree.label≠pc) (hf : Fits pc n (trees (before++[last]))) (fuel : ℕ) : ∃ h' front rear,
      insertBehind (insertImpl pc (BitVec.ofNat 32 n) level (fuel+1)) h pc (BitVec.ofNat 32 n) last.addr owner =
        some (h', some h.next) ∧ Settled h h' owner level (locate pc n (trees (before++[last]))) (before++[last]) front
        (.fresh h.next pc n) rear ∧ front++rear=before++[last] := by
  have hl1 : last∈before++[last] := by simp
  have hl : last.addr<h.next := hs.bound _ (addr_mem_owned hl1)
  have hl2 := (hs.items last hl1).level
  have he1 : (h.item last.addr).siblings=none := by
    rw [←append_nil (before++[last])] at hs
    exact hs.siblings_eq
  let made := (h.make {level := level}).setSiblings last.addr (some h.next)
  let filled := made.fill h.next pc (BitVec.ofNat 32 n)
  have hm : made.item h.next={level := level} := by
    rw [setSiblings_item_of_ne _ _ hl.ne', make_item_next]
  have hn : filled.item h.next={pc := pc, pcCount := BitVec.ofNat 32 n, level := level} := fill_item_self _ _ hm _ _
  have ho2 : ∀ x<h.next, x≠last.addr → filled.item x=h.item x := by
    intro x hx hne
    rw [fill_item_of_ne _ _ _ hx.ne, setSiblings_item_of_ne _ _ hne, make_item_of_ne _ _ hx.ne]
  have hl3 : filled.item last.addr={h.item last.addr with siblings := some h.next} := by
    rw [fill_item_of_ne _ _ _ hl.ne, setSiblings_item_self, make_item_of_ne _ _ hl.ne]
  have ho4 := owned_fresh (before++[last]) h.next pc n
  have ho3 : owner≠last.addr := fun heq => ho1 (heq ▸ addr_mem_owned hl1)
  have ho := ho2 owner hlt ho3
  have hs2 := hs.append rfl ho2 hl3 hn
  rw [←ho] at hs2
  have hg : Extends h filled owner (owned (before++[last])) (owned (before++[last]++[.fresh h.next pc n])) := by
    refine ⟨le_succ _, fun x hx => ?_, fun x hx hn1 _ => ho2 x hx fun heq => hn1 ?_, by rw [ho]⟩
    · rw [ho4] at hx
      exact (mem_append.mp hx).imp id fun hx => (mem_singleton.mp hx).ge
    · exact heq ▸ addr_mem_owned hl1
  have ho1' : owner ∉ owned (before++[last]++[.fresh h.next pc n]) := by grind
  have hc : ∀ e∈before++[last]++[.fresh h.next pc n], e.tree.count<2^31 :=
    forall_mem_append.mpr ⟨fun e he => hf.counts _ (mem_map_of_mem he), forall_mem_singleton.mpr hf.fresh⟩
  obtain ⟨h', front, rear, ha, hs1, hs3⟩ := settled_of_adjust _ hs2 ho1' hc hg
  refine ⟨h', front, rear, ?_, ?_, hs3⟩
  · unfold insertBehind
    rw [he1]
    dsimp only
    rw [hl2, insertImpl_empty hm]
    exact ha
  · rw [append_nil] at hs1
    rw [locate_of_notMem (labels_of_nodes hl4)]
    exact hs1

theorem insertBehind_found (hs : Spine h level (h.item owner).child (before++[last]++node::after))
    (ho : owner∉owned (before++[last]++node::after))
    (hl : ∀ e∈before++[last], e.tree.label≠pc) (hn : node.tree.label=pc)
    (hf : Fits pc n (trees (before++[last]++node::after))) (fuel : ℕ) : ∃ h' front rear,
      insertBehind (insertImpl pc (BitVec.ofNat 32 n) level fuel) h pc (BitVec.ofNat 32 n) last.addr owner =
        some (h', some node.addr) ∧ Settled h h' owner level (locate pc n (trees (before++[last]++node::after)))
        (before++[last]++node::after) front (node.grown n) (rear++after) ∧ front++rear=before++[last] := by
  have hm : node∈before++[last]++node::after := by simp
  have hn1 : (h.item last.addr).siblings=some node.addr := hs.siblings_eq
  have hpc : (h.item node.addr).pc=pc := (hs.items node hm).pc.trans hn
  have ho1 : owner≠node.addr := fun heq => ho (heq ▸ addr_mem_owned hm)
  have ho3 : owned (before++[last]++node.grown n::after)=owned (before++[last]++node::after) := by
    rw [owned_append, owned_grown, owned_append (before++[last])]
  have hs1 := hs.addCount n
  have ho2 : (h.addCount node.addr (BitVec.ofNat 32 n)).item owner=h.item owner := h.modify_item_of_ne _ ho1
  rw [←ho2] at hs1
  have hc : ∀ e∈before++[last]++node.grown n::after, e.tree.count<2^31 := by
    refine forall_mem_append.mpr ⟨fun e he => ?_, forall_mem_cons.mpr ⟨?_, fun e he => ?_⟩⟩
    · exact hf.counts _ (mem_map_of_mem (mem_append_left _ he))
    · exact hf.grown _ (mem_map_of_mem hm) hn
    · exact hf.counts _ (mem_map_of_mem (mem_append_right _ (mem_cons_of_mem _ he)))
  have hg : Extends h (h.addCount node.addr (BitVec.ofNat 32 n)) owner (owned (before++[last]++node::after))
      (owned (before++[last]++node.grown n::after)) := by
    rw [ho3]
    exact extends_addCount ho1 hm
  rw [←ho3] at ho
  obtain ⟨h', front, rear, ha, hs2, hs3⟩ := settled_of_adjust (before++[last]++node::after) hs1 ho hc hg
  refine ⟨h', front, rear, ?_, ?_, hs3⟩
  · unfold insertBehind
    rw [hn1]
    dsimp only
    rw [if_pos hpc]
    exact ha
  · rw [trees_append, trees_cons, locate_append (labels_of_nodes hl) hn, ←hn]
    exact hs2

theorem insertBehind_spec (hs : Spine h level (h.item owner).child (before++[last]++after))
    (ho : owner∉owned (before++[last]++after)) (hlt : owner<h.next)
    (hl : ∀ e∈before++[last], e.tree.label≠pc) (hf : Fits pc n (trees (before++[last]++after)))
    (hz : ∀ t ∈ passed pc (trees after), t.label ≠ 0) (hf1 : after.length<fuel) : ∃ h' front node rear,
      insertBehind (insertImpl pc (BitVec.ofNat 32 n) level fuel) h pc (BitVec.ofNat 32 n) last.addr owner =
        some (h', some node.addr) ∧
      Settled h h' owner level (locate pc n (trees (before++[last]++after))) (before++[last]++after) front node
        rear ∧ (front++rear).head?=(before++[last]++after).head? := by
  induction after generalizing before last fuel with
  | nil =>
    obtain ⟨fuel, rfl⟩ : ∃ k, fuel=k+1 := ⟨fuel-1, by omega⟩
    rw [append_nil] at hs ho hf ⊢
    obtain ⟨h', front, rear, hi, hs1, hs2⟩ := insertBehind_new hs ho hlt hl hf fuel
    exact ⟨h', front, _, rear, hi, hs1, by rw [hs2]⟩
  | cons e after ih =>
    by_cases he : e.tree.label=pc
    · obtain ⟨h', front, rear, hi, hs1, hs2⟩ := insertBehind_found hs ho hl he hf fuel
      have hne : before++[last]≠[] := by simp
      refine ⟨h', front, e.grown n, rear++after, hi, hs1, ?_⟩
      rw [←append_assoc, hs2, head?_append_of_ne_nil _ hne, head?_append_of_ne_nil _ hne]
    · -- one item further
      have hm : e∈before++[last]++e::after := by simp
      have hi1 := hs.items e hm
      have hn : (h.item last.addr).siblings=some e.addr := hs.siblings_eq
      obtain ⟨fuel, rfl⟩ : ∃ k, fuel=k+1 := ⟨fuel-1, by omega⟩
      have ha : before++[last]++e::after=(before++[last])++[e]++after := by simp
      rw [ha] at hs ho hf ⊢
      have hl' : ∀ e'∈before++[last]++[e], e'.tree.label≠pc := forall_mem_append.mpr ⟨hl, forall_mem_singleton.mpr he⟩
      have hf1' : after.length<fuel := by
        grind
      rw [trees_cons, passed_cons he] at hz
      obtain ⟨hz0, hz⟩ := forall_mem_cons.mp hz
      obtain ⟨h', front, node, rear, hi, hs1, hs3⟩ := ih hs ho hl' hf hz hf1'
      refine ⟨h', front, node, rear, ?_, hs1, hs3⟩
      rw [←hi]
      conv_lhs => unfold insertBehind
      rw [hn]
      dsimp only
      rw [if_neg (hi1.pc ▸ he)]
      exact insertImpl_pass hi1.level (hi1.pc ▸ he) (hi1.pc ▸ hz0)

theorem insertBehind_first (hs : Spine h level (h.item owner).child (last::after)) (ho : owner∉owned (last::after))
    (hlt : owner<h.next) (hl2 : last.tree.label≠pc) (hf : Fits pc n (trees (last::after)))
    (hz : ∀ t ∈ passed pc (trees after), t.label ≠ 0) : ∃ h' front node rear,
      insertBehind (insertImpl pc (BitVec.ofNat 32 n) level (h.next+1)) h pc (BitVec.ofNat 32 n) last.addr owner =
        some (h', some node.addr) ∧
      Settled h h' owner level (locate pc n (trees (last::after))) (last::after) front node rear ∧
        (front++rear).head?=some last := by
  have hl1 := hs.length_le
  rw [length_cons] at hl1
  have hl : ∀ e∈[]++[last], e.tree.label≠pc := forall_mem_singleton.mpr hl2
  exact insertBehind_spec hs ho hlt hl hf hz (by omega)

theorem settled_first (hs : Spine h level (h.item owner).child (node::after)) (ho2 : owner∉owned (node::after))
    (hn : node.tree.label=pc) (n : ℕ) :
    Settled h (h.addCount node.addr (BitVec.ofNat 32 n)) owner level (locate pc n (trees (node::after))) (node::after)
      [] (node.grown n) after := by
  have ho : owner≠node.addr := fun heq => ho2 (heq ▸ addr_mem_owned mem_cons_self)
  have ho1 : (h.addCount node.addr (BitVec.ofNat 32 n)).item owner=h.item owner := h.modify_item_of_ne _ ho
  have hl : locate pc n ([]++node.tree::trees after) =
      place (.node pc (node.tree.count+n) node.tree.children) [] (trees after) := locate_append nofun hn
  have hs1 : Spine h level (h.item owner).child ([]++node::after) := hs
  rw [trees_cons, ←nil_append (node.tree::trees after), hl]
  refine ⟨?_, ?_, rfl, ?_, rfl⟩
  · rw [ho1]
    exact hs1.addCount n
  · exact extends_addCount ho mem_cons_self
  · rw [←hn]
    rfl

theorem settled_only (hn : h'.next=h.next+1) (ho1 : ∀ x<h.next, x≠owner → h'.item x=h.item x)
    (ho : h'.item owner={h.item owner with child := some h.next})
    (hn1 : h'.item h.next={pc := pc, pcCount := BitVec.ofNat 32 n, level := level}) :
    Settled h h' owner level (locate pc n (trees [])) [] [] (.fresh h.next pc n) [] := by
  have hl : (h'.item owner).child=some h.next := by rw [ho]
  refine ⟨.of_stands ?_ (forall_mem_singleton.mpr (stands_fresh hn1)) (nodup_singleton h.next)
    (forall_mem_singleton.mpr (hn ▸ lt_succ_self _)),
    ⟨hn ▸ le_succ _, fun x hx => .inr (mem_singleton.mp hx).ge, fun x hx _ hne => ho1 x hx hne, by rw [ho]⟩,
      rfl, rfl, rfl⟩
  rw [hl]
  exact ⟨rfl, congrArg StackItem.siblings hn1⟩

theorem insertImpl_child (hs : Spine h (level+1) (h.item owner).child nodes) (ho : owner∉owned nodes)
    (hlt : owner<h.next) (hl : (h.item owner).level=level) (hz : (h.item owner).pc≠0)
    (hf : Fits pc n (trees nodes)) (hp : ∀ t ∈ (passed pc (trees nodes)).tail, t.label ≠ 0) (d : ℕ) :
    ∃ h' front node rear,
      h.insertImpl pc (BitVec.ofNat 32 n) (level+1) (h.next+2) (some owner) d=some (h', some node.addr) ∧
      Settled h h' owner (level+1) (locate pc n (trees nodes)) nodes front node rear := by
  have hd : ¬(level+1=(h.item owner).level ∧ (h.item owner).pc=pc) := by grind
  have hb : (h.item owner).level<level+1 := by grind
  unfold insertImpl
  rw [if_neg hd, if_neg hz, if_pos hb]
  cases nodes with
  | nil =>
    have hc : (h.item owner).child=none := hs.chain
    rw [hc]
    let made := (h.make {level := level+1}).setChild owner (some h.next)
    have hm : made.item h.next={level := level+1} := by
      rw [setChild_item_of_ne _ _ hlt.ne', make_item_next]
    refine ⟨made.fill h.next pc (BitVec.ofNat 32 n), [], .fresh h.next pc n, [], ?_, ?_⟩
    · rw [hl]
      exact insertImpl_empty hm
    · refine settled_only rfl (fun x hx hne => ?_) ?_ (fill_item_self _ _ hm _ _)
      · rw [fill_item_of_ne _ _ _ hx.ne, setChild_item_of_ne _ _ hne, make_item_of_ne _ _ hx.ne]
      · rw [fill_item_of_ne _ _ _ hlt.ne, setChild_item_self, make_item_of_ne _ _ hlt.ne]
  | cons first rest =>
    have hc : (h.item owner).child=some first.addr := hs.chain.1
    have hf1 := hs.items first mem_cons_self
    rw [hc]
    dsimp only
    by_cases hpc : first.tree.label=pc
    · rw [if_pos (hf1.pc.trans hpc)]
      exact ⟨_, [], first.grown n, rest, rfl, settled_first hs ho hpc n⟩
    · rw [if_neg (hf1.pc ▸ hpc)]
      rw [trees_cons, passed_cons hpc, tail_cons] at hp
      obtain ⟨h', front, node, rear, hi, hs1, -⟩ := insertBehind_first hs ho hlt hpc hf hp
      exact ⟨h', front, node, rear, hi, hs1⟩

end Step

/-! ## A whole path -/

section Path

variable {h h' h'' : Heap} {level owner n : ℕ} {nodes front rear : List Node} {node : Node} {inner : List ℕ}
  {children : List Tree} {located : Place (BitVec 64)}

theorem Extends.refl (h : Heap) (owner : ℕ) (used : List ℕ) : Extends h h owner used used :=
  ⟨le_refl _, fun _ hx => .inl hx, fun _ _ _ _ => rfl, rfl⟩

theorem Settled.descend (hs1 : Settled h h' owner level located nodes front node rear) (ho4 : owner∉owned nodes)
    (hlt : owner<h.next) (he : Extends h' h'' node.addr node.inner inner)
    (hl : Linked h'' (level+1) (h''.item node.addr).child children inner) (hn2 : inner.Nodup)
    (hb : ∀ x∈inner, x<h''.next) : Spine h'' level (h''.item owner).child
        (front++⟨node.addr, .node node.tree.label node.tree.count children, inner⟩::rear) ∧
      Extends h h'' owner (owned nodes)
        (owned (front++⟨node.addr, .node node.tree.label node.tree.count children, inner⟩::rear)) := by
  have hs := hs1.spine
  have hg := hs1.grows
  have hm : node∈front++node::rear := by simp
  have ho2 := owned_middle_perm front rear node
  have hn1 := owned_middle_perm front rear ⟨node.addr, .node node.tree.label node.tree.count children, inner⟩
  obtain ⟨ha, hr⟩ := nodup_cons.mp (ho2.nodup_iff.mp hs.nodup)
  obtain ⟨-, ho1, hd⟩ := nodup_append.mp hr
  have hin : ∀ x∈owned (front++rear), x∈owned (front++node::rear) := fun x hx =>
    ho2.mem_iff.mpr (mem_cons_of_mem _ (mem_append_right _ hx))
  have hi : ∀ x∈node.inner, x∈owned (front++node::rear) := inner_subset_owned hm
  have ha2 : node.addr<h'.next := hs.bound _ (addr_mem_owned hm)
  have ho3 : ∀ x<h.next, x ∉ owned nodes → x ∉ owned (front++node::rear) := fun x hx hn => hg.notMem hx hn
  have hk : ∀ x<h.next, x ∉ owned nodes → h''.item x=h'.item x := by
    intro x hx hn
    refine he.frame x (hx.trans_le hg.next_le) (fun hx' => ho3 x hx hn (hi x hx')) fun heq => ?_
    exact ho3 x hx hn (heq ▸ addr_mem_owned hm)
  have ho := hk owner hlt ho4
  have ha1 : ∀ x∈inner, x≠node.addr ∧ x ∉ owned (front++rear) := by
    intro x hx
    rcases he.fresh x hx with hx | hle
    · exact ⟨fun heq => ha (mem_append_left _ (heq ▸ hx)), fun hx' => hd x hx x hx' rfl⟩
    · refine ⟨by omega, fun hx' => ?_⟩
      have := hs.bound x (hin x hx')
      omega
  constructor
  · rw [ho]
    refine hs.replace rfl (fun x hx => ?_) ?_ ⟨?_, hl⟩ ?_ fun x hx => ?_
    · refine he.frame x (hs.bound x (hin x hx)) (fun hx' => hd x hx' x hx rfl) fun heq => ?_
      exact ha (mem_append_right _ (heq ▸ hx))
    · unfold siblings
      rw [he.owner]
    · rw [he.owner]
      have hh := hs.items node hm
      exact ⟨hh.pc, hh.pcCount, hh.level⟩
    · refine hn1.nodup_iff.mpr (nodup_cons.mpr ⟨fun hx => ?_, nodup_append.mpr ⟨hn2, ho1, ?_⟩⟩)
      · rcases mem_append.mp hx with hx | hx
        · exact (ha1 _ hx).1 rfl
        · exact ha (mem_append_right _ hx)
      · exact fun x hx y hy heq => (ha1 x hx).2 (heq ▸ hy)
    · rcases mem_cons.mp (hn1.mem_iff.mp hx) with rfl | hx
      · exact ha2.trans_le he.next_le
      · rcases mem_append.mp hx with hx | hx
        · exact hb x hx
        · exact (hs.bound x (hin x hx)).trans_le he.next_le
  · refine ⟨hg.next_le.trans he.next_le, fun x hx => ?_, fun x hx hn hne => ?_, ?_⟩
    · rcases mem_cons.mp (hn1.mem_iff.mp hx) with rfl | hx
      · exact hg.fresh node.addr (addr_mem_owned hm)
      · rcases mem_append.mp hx with hx | hx
        · rcases he.fresh x hx with hx | hle
          · exact hg.fresh x (hi x hx)
          · exact .inr (hg.next_le.trans hle)
        · exact hg.fresh x (hin x hx)
    · rw [hk x hx hn, hg.frame x hx hn hne]
    · rw [ho]
      exact hg.owner

structure Below (h : Heap) (owner level : ℕ) (ts : List Tree) (used : List ℕ) : Prop where
  linked : Linked h (level+1) (h.item owner).child ts used
  nodup : used.Nodup
  bound : ∀ x ∈ used, x < h.next
  apart : owner ∉ used
  lt : owner < h.next
  level : (h.item owner).level = level

theorem Settled.below (hs : Settled h h' owner level located nodes front node rear) :
    Below h' node.addr level located.tree.children node.inner := by
  have hm : node∈front++node::rear := by simp
  have hi := hs.spine.items node hm
  obtain ⟨ha, hr⟩ := nodup_cons.mp ((owned_middle_perm _ _ _).nodup_iff.mp hs.spine.nodup)
  rw [←hs.tree_eq]
  exact ⟨hs.spine.children node hm, (nodup_append.mp hr).1,
    fun x hx => hs.spine.bound x (inner_subset_owned hm x hx), fun hx => ha (mem_append_left _ hx),
    hs.spine.bound _ (addr_mem_owned hm), hi.level⟩

theorem Settled.pc_eq {pc : BitVec 64}
    (hs : Settled h h' owner level (locate pc n (trees nodes)) nodes front node rear) :
    (h'.item node.addr).pc = pc := by
  rw [(hs.spine.items node (by simp)).pc, hs.tree_eq, locate_label]

/-- No item of the pc 0 is looked at while the path is inserted: neither on the way along the siblings, of which the
first is only compared, nor for the next pc of the path. Such an item is taken for an empty one. -/
def ClearBelow (n : ℕ) : Path → List Tree → Prop
  | [], _ => True
  | pc :: path, ts => (∀ t ∈ (passed pc ts).tail, t.label ≠ 0) ∧ (path ≠ [] → pc ≠ 0) ∧
      ClearBelow n path (locate pc n ts).tree.children

theorem Settled.trees_insertPath {pc : BitVec 64}
    (hs : Settled h h' owner level (locate pc n (trees nodes)) nodes front node rear) (path : Path)
    (inner : List ℕ) : trees (front++⟨node.addr, .node node.tree.label node.tree.count
      (insertPath n path (locate pc n (trees nodes)).tree.children), inner⟩::rear) =
      insertPath n (pc::path) (trees nodes) := by
  rw [trees_append, trees_cons, hs.before_eq, hs.after_eq, hs.tree_eq, locate_label]
  rfl

theorem insertLoop_spec {path : Path} {ts : List Tree} (hp : ClearBelow n path ts)
    (hz : path ≠ [] → (h.item owner).pc ≠ 0) {used : List ℕ} (hb : Below h owner level ts used) {m : ℕ}
    (hc : Capped m ts) (hm : m+n<2^31) (d : ℕ) :
    ∃ h' used' z, h.insertLoop (BitVec.ofNat 32 n) d path (level+1) (some owner)=some (h', some z) ∧
      Linked h' (level+1) (h'.item owner).child (insertPath n path ts) used' ∧ used'.Nodup ∧
      (∀ x∈used', x<h'.next) ∧ Extends h h' owner used used' := by
  induction path generalizing h owner level ts used m with
  | nil => exact ⟨h, used, owner, rfl, hb.linked, hb.nodup, hb.bound, .refl h owner used⟩
  | cons pc path ih =>
    obtain ⟨hp1, hpc, hp⟩ := hp
    obtain ⟨nodes, rfl, rfl, hs1⟩ := hb.linked.spine hb.nodup hb.bound
    have hf1 : Fits pc n (trees nodes) := by
      refine ⟨by omega, fun t ht => ?_, fun t ht _ => ?_⟩
      · have := hc.count_le t ht
        omega
      · have := hc.count_le t ht
        omega
    obtain ⟨h1, front, node, rear, hi, hs⟩ := insertImpl_child hs1 hb.apart hb.lt hb.level (hz (cons_ne_nil _ _))
      hf1 hp1 d
    obtain ⟨m', hc', hm'⟩ := hf1.children hc.children
    obtain ⟨h2, inner, z, hl1, hl, hn, hb1, he⟩ := ih hp (hs.pc_eq.symm ▸ hpc) hs.below hc' hm'
    obtain ⟨hf, hg⟩ := hs.descend hb.apart hb.lt he hl hn hb1
    refine ⟨h2, _, z, ?_, hs.trees_insertPath path inner ▸ hf.linked, hf.nodup, hf.bound, hg⟩
    unfold insertLoop
    rw [hi]
    exact hl1

end Path

end Faultloggerd.StackPrinter
