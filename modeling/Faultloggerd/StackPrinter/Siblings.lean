import Faultloggerd.StackPrinter.Linked

/-! # Siblings in the heap

`AdjustSiblings` moves an item in front of the earlier siblings that count less, by three links
(`adjustSiblings_spec`).
-/
namespace Faultloggerd.StackPrinter
open List Function Foundations PrefixForest Heap

namespace Heap

variable (h : Heap) (x y : ℕ)

variable (item : StackItem)

@[simp] theorem make_next : (h.make item).next=h.next+1 := rfl

@[simp] theorem make_item_next : (h.make item).item h.next=item := update_self _ _ _

theorem make_item_of_ne {x : ℕ} (hx : x≠h.next) : (h.make item).item x=h.item x := update_of_ne hx _ _

variable (f : StackItem → StackItem)

@[simp] theorem modify_next : (h.modify x f).next=h.next := rfl

@[simp] theorem modify_item_self : (h.modify x f).item x=f (h.item x) := update_self _ _ _

theorem modify_item_of_ne {x y : ℕ} (hy : y≠x) : (h.modify x f).item y=h.item y := update_of_ne hy _ _

variable (s : Option ℕ)

theorem setSiblings_item_self : (h.setSiblings x s).item x={h.item x with siblings := s} := h.modify_item_self x _

variable (c : Option ℕ)

theorem setChild_item_self : (h.setChild x c).item x={h.item x with child := c} := h.modify_item_self x _

theorem setChild_item_of_ne {x y : ℕ} (hy : y≠x) : (h.setChild x c).item y=h.item y := h.modify_item_of_ne _ hy

theorem setSiblings_item_of_ne {x y : ℕ} (hy : y≠x) : (h.setSiblings x s).item y=h.item y := h.modify_item_of_ne _ hy

@[simp] theorem setSiblings_siblings : (h.setSiblings x s).siblings y=if y=x then s else h.siblings y := by
  unfold siblings setSiblings
  by_cases hy : y=x
  · rw [if_pos hy, hy, modify_item_self]
  · rw [if_neg hy, modify_item_of_ne _ _ hy]

@[simp] theorem setChild_siblings : (h.setChild x c).siblings y=h.siblings y := by
  unfold siblings setChild
  by_cases hy : y=x
  · rw [hy, modify_item_self]
  · rw [modify_item_of_ne _ _ hy]

/-- The end of `adjustSiblings`, where `none` is the dummy in front of the first child. -/
def pointTo (h : Heap) (owner : ℕ) (p : Option ℕ) (node : ℕ) : Heap :=
  match p with
  | none => h.setChild owner (some node)
  | some p => h.setSiblings p (some node)

theorem pointTo_siblings (owner node : ℕ) (p : Option ℕ) :
    (h.pointTo owner p node).siblings y=if p=some y then some node else h.siblings y := by
  cases p with
  | none => exact setChild_siblings h owner y _
  | some p => simp [pointTo, eq_comm]

def fill (h : Heap) (x : ℕ) (pc : BitVec 64) (pcCount : BitVec 32) : Heap :=
  (h.modify x fun item => {item with pc := pc}).addCount x pcCount

theorem fill_item_self {level : ℕ} (hx : h.item x={level := level}) (pc : BitVec 64) (pcCount : BitVec 32) :
    (h.fill x pc pcCount).item x={pc := pc, pcCount := pcCount, level := level} := by
  have hz : (0 : BitVec 32)+pcCount=pcCount := BitVec.zero_add pcCount
  rw [fill, addCount, modify_item_self, modify_item_self, hx]
  rw [hz]

theorem fill_item_of_ne (pc : BitVec 64) (pcCount : BitVec 32) {x y : ℕ} (hy : y≠x) :
    (h.fill x pc pcCount).item y=h.item y := by
  rw [fill, addCount, modify_item_of_ne _ _ hy, modify_item_of_ne _ _ hy]

end Heap

structure Relinked (h h' : Heap) (owner : ℕ) (xs : List ℕ) : Prop where
  next : h'.next = h.next
  frame : ∀ x, x ∉ xs → x ≠ owner → h'.item x = h.item x
  links : ∀ x, x ≠ owner → h'.item x = {h.item x with siblings := h'.siblings x}
  owner : h'.item owner = {h.item owner with child := (h'.item owner).child}

namespace Relinked

variable {h h' : Heap} {owner x : ℕ} {xs : List ℕ}

theorem refl (h : Heap) (owner : ℕ) (xs : List ℕ) : Relinked h h owner xs :=
  ⟨rfl, fun _ _ _ => rfl, fun _ _ => rfl, rfl⟩

section

variable (hr : Relinked h h' owner xs)
include hr

theorem setSiblings (hx : x∈xs) (hne : x≠owner) (s : Option ℕ) :
    Relinked h (h'.setSiblings x s) owner xs := by
  have ho : ∀ y, y≠x → (h'.setSiblings x s).item y=h'.item y := fun y hy => h'.modify_item_of_ne _ hy
  refine ⟨hr.next, fun y hy hy1 => ?_, fun y hy1 => ?_, ?_⟩
  · rw [ho y fun heq => hy (heq ▸ hx)]
    exact hr.frame y hy hy1
  · by_cases hy : y=x
    · rw [hy, Heap.setSiblings_siblings, if_pos rfl, Heap.setSiblings, Heap.modify_item_self, hr.links x hne]
    · rw [Heap.setSiblings_siblings, if_neg hy, ho y hy]
      exact hr.links y hy1
  · rw [ho owner hne.symm]
    exact hr.owner

theorem setChild (c : Option ℕ) : Relinked h (h'.setChild owner c) owner xs := by
  have ho : ∀ y, y≠owner → (h'.setChild owner c).item y=h'.item y := fun y hy => h'.modify_item_of_ne _ hy
  refine ⟨hr.next, fun y hy hy1 => ?_, fun y hy1 => ?_, ?_⟩
  · rw [ho y hy1]
    exact hr.frame y hy hy1
  · rw [ho y hy1, Heap.setChild_siblings]
    exact hr.links y hy1
  · rw [Heap.setChild, Heap.modify_item_self, hr.owner]

theorem pointTo {p : Option ℕ} (hp : ∀ z, p=some z → z∈xs ∧ z≠owner) (node : ℕ) :
    Relinked h (h'.pointTo owner p node) owner xs := by
  cases p with
  | none => exact hr.setChild _
  | some z => exact hr.setSiblings (hp z rfl).1 (hp z rfl).2 _

end

end Relinked

theorem Spine.relinked {h h' : Heap} {level owner : ℕ} {p p' : Option ℕ} {nodes nodes' : List Node}
    (hs : Spine h level p nodes) (hr : Relinked h h' owner (addrs nodes)) (ho1 : owner∉owned nodes)
    (hp : nodes'.Perm nodes) (hc : Chain h'.siblings p' (addrs nodes') none) : Spine h' level p' nodes' := by
  have hne : ∀ x∈owned nodes, x≠owner := fun x hx heq => ho1 (heq ▸ hx)
  have ho : (owned nodes').Perm (owned nodes) := hp.flatMap_right _
  refine .of_stands hc (fun node hn => ?_) (ho.nodup_iff.mpr hs.nodup) fun x hx => ?_
  · have hn := hp.mem_iff.mp hn
    refine (hs.stands hn).congr (hr.links node.addr (hne _ (addr_mem_owned hn))) fun x hx => .of_eq ?_
    exact hr.frame x (inner_notMem_addrs hs.nodup hn x hx) (hne x (inner_subset_owned hn x hx))
  · rw [hr.next]
    exact hs.bound x (ho.mem_iff.mp hx)

theorem sle_ofNat {m n : ℕ} (hm : m<2^31) (hn : n<2^31) :
    (BitVec.ofNat 32 m).sle (BitVec.ofNat 32 n)=decide (m≤n) := by
  rw [BitVec.sle_eq_decide, toInt_ofNat_of_lt hm, toInt_ofNat_of_lt hn]
  simp

section Adjust

variable {h : Heap} {level owner : ℕ} {before after : List Node} {last node : Node}

theorem placeLoop_eq {first p : Option ℕ}
    (hc : Chain h.siblings (h.siblingsOf first p) (addrs before) (some node.addr))
    (hn : node.addr∉addrs before) (hh : Holds (h.item node.addr) level node.tree)
    (hi : ∀ e∈before, Holds (h.item e.addr) level e.tree) (hc3 : node.tree.count<2^31)
    (hc1 : ∀ e∈before, e.tree.count<2^31) {fuel : ℕ} (hf : before.length<fuel) : h.placeLoop first node.addr fuel p =
      some (lastFrom p (addrs (before.takeWhile fun e => node.tree.count≤e.tree.count))) := by
  induction before generalizing p fuel with
  | nil =>
    obtain ⟨fuel, rfl⟩ := Nat.exists_eq_add_of_lt hf
    have hs : h.siblingsOf first p=some node.addr := hc
    unfold placeLoop
    rw [hs]
    exact if_neg fun hne => hne.1 rfl
  | cons e before ih =>
    obtain ⟨fuel, rfl⟩ : ∃ k, fuel=k+1 := ⟨fuel-1, by omega⟩
    obtain ⟨hs1, hc⟩ := hc
    obtain ⟨he, hi⟩ := forall_mem_cons.mp hi
    obtain ⟨he1, hc1⟩ := forall_mem_cons.mp hc1
    rw [addrs_cons, mem_cons, not_or] at hn
    have hle : (h.item node.addr).pcCount.sle (h.item e.addr).pcCount=decide (node.tree.count≤e.tree.count) := by
      rw [hh.pcCount, he.pcCount, sle_ofNat hc3 he1]
    unfold placeLoop
    rw [hs1]
    dsimp only
    by_cases hc2 : node.tree.count≤e.tree.count
    · rw [if_pos ⟨Ne.symm hn.1, by rw [hle]; exact decide_eq_true hc2⟩, takeWhile_cons_of_pos (by simpa using hc2)]
      exact ih (p := some e.addr) hc hn.2 hi hc1 (by grind)
    · have hs : ¬(e.addr≠node.addr ∧ (h.item node.addr).pcCount.sle (h.item e.addr).pcCount=true) := by grind
      rw [if_neg hs, takeWhile_cons_of_neg (by simpa using hc2)]
      rfl

def settle (node : Node) (before after : List Node) : List Node :=
  (before.takeWhile fun e => node.tree.count≤e.tree.count) ++
    node::((before.dropWhile fun e => node.tree.count≤e.tree.count)++after)

theorem move_spec {front rear : List Node}
    (hs : Spine h level (h.item owner).child (front++(rear++[last])++node::after))
    (ho : owner∉owned (front++(rear++[last])++node::after))
    (hl1 : h.placeLoop (h.item owner).child node.addr (h.next+1) none=some (lastFrom none (addrs front))) :
    ∃ h', h.adjustSiblings owner last.addr node.addr=some (h', some node.addr) ∧
      Chain h'.siblings (h'.item owner).child (addrs (front++node::(rear++[last]++after))) none ∧
      Relinked h h' owner (addrs (front++(rear++[last])++node::after)) := by
  have ha : addrs (front++(rear++[last])++node::after) =
      addrs front++(addrs rear++[last.addr])++node.addr::addrs after := by
    simp
  have haddrs' : addrs (front++node::(rear++[last]++after)) =
      addrs front++node.addr::(addrs rear++[last.addr]++addrs after) := by
    simp
  have hn1 := hs.addrs_nodup
  have hc := hs.chain
  have hne : ∀ x∈addrs (front++(rear++[last])++node::after), x≠owner := fun x hx heq =>
    ho (heq ▸ mem_owned_of_mem_addrs hx)
  rw [ha] at hn1 hc hne ⊢
  have hl : last.addr∈addrs front++(addrs rear++[last.addr])++node.addr::addrs after := by simp
  have hn : node.addr∈addrs front++(addrs rear++[last.addr])++node.addr::addrs after := by simp
  have hn2 : node.addr≠last.addr := by grind
  have hf : ∀ z∈addrs front, z≠last.addr ∧ z≠node.addr := by grind
  have hm : h.siblingsOf (h.item owner).child (lastFrom none (addrs front))≠some node.addr := hc.nextOf_ne hn1
  obtain ⟨p, hp⟩ : ∃ p, lastFrom none (addrs front)=p := ⟨_, rfl⟩
  have hp1 : ∀ z, p=some z → z∈addrs front := fun z hz => lastFrom_mem (hp.trans hz)
  have hp2 : ∀ z, p=some z → z∈addrs front++(addrs rear++[last.addr])++node.addr::addrs after ∧ z≠owner := by grind
  rw [hp] at hl1 hm
  -- the item in front of the node points behind it, the node to the rear, and then the place to the node
  let moved := (h.setSiblings last.addr (h.item node.addr).siblings).setSiblings node.addr
    (h.siblingsOf (h.item owner).child p)
  have hm1 : Relinked h moved owner (addrs front++(addrs rear++[last.addr])++node.addr::addrs after) :=
    ((Relinked.refl h owner _).setSiblings hl (hne _ hl) _).setSiblings hn (hne _ hn) _
  have hs1 : ∀ x, (moved.pointTo owner p node.addr).siblings x=if p=some x then some node.addr
      else if x=node.addr then h.siblingsOf (h.item owner).child p
      else if x=last.addr then h.siblings node.addr else h.siblings x := by
    intro x
    rw [pointTo_siblings, setSiblings_siblings, setSiblings_siblings]
    rfl
  refine ⟨moved.pointTo owner p node.addr, ?_, ?_, hm1.pointTo hp2 _⟩
  · have hp3 : (h.setSiblings last.addr (h.item node.addr).siblings).siblingsOf (h.item owner).child p =
        h.siblingsOf (h.item owner).child p := by
      cases p with
      | none => rfl
      | some z => exact (setSiblings_siblings ..).trans (if_neg (hf z (hp1 z rfl)).1)
    unfold adjustSiblings
    dsimp only
    rw [hl1, Option.map_some, if_neg hm, hp3]
    cases p <;> rfl
  · rw [haddrs']
    refine hc.move hn1 ?_ ?_ ?_ ?_ fun x hx1 hx2 hxp => ?_
    · rw [hs1, if_neg fun hz => (hf _ (hp1 _ hz)).1 rfl, if_neg hn2.symm, if_pos rfl]
    · rw [hs1, if_neg fun hz => (hf _ (hp1 _ hz)).2 rfl, if_pos rfl, hp]
      rfl
    · rw [hp]
      cases p with
      | none => exact congrArg StackItem.child (setChild_item_self ..)
      | some z => exact (hs1 z).trans (if_pos rfl)
    · rw [hp]
      cases p with
      | none => exact .inl rfl
      | some z =>
        rw [pointTo, setSiblings_item_of_ne _ _ (hp2 z rfl).2.symm, setSiblings_item_of_ne _ _ (hne _ hn).symm,
          setSiblings_item_of_ne _ _ (hne _ hl).symm]
        exact .inr rfl
    · rw [hp] at hxp
      rw [hs1, if_neg hxp, if_neg hx2, if_neg hx1]

theorem adjustSiblings_spec (hs : Spine h level (h.item owner).child (before++[last]++node::after))
    (ho : owner∉owned (before++[last]++node::after)) (hc : ∀ e∈before++[last]++node::after, e.tree.count<2^31) :
    ∃ h', h.adjustSiblings owner last.addr node.addr=some (h', some node.addr) ∧
      Spine h' level (h'.item owner).child (settle node (before++[last]) after) ∧
      Relinked h h' owner (addrs (before++[last]++node::after)) := by
  have hc1 := hs.chain
  rw [addrs_append] at hc1
  obtain ⟨_, hp, rfl, -⟩ := chain_append.mp hc1
  have hm : ∀ e∈before++[last], e∈before++[last]++node::after := fun e he => mem_append_left _ he
  have hn : node∈before++[last]++node::after := by simp
  have ha1 : node.addr ∉ addrs (before++[last]) := by
    have hn1 := hs.addrs_nodup
    rw [addrs_append, addrs_cons] at hn1
    grind
  have hl1 : (before++[last]).length<h.next+1 := by
    have := hs.length_le
    grind
  have hl := placeLoop_eq (p := none) hp ha1 (hs.items node hn) (fun e he => hs.items e (hm e he))
    (hc node hn) (fun e he => hc e (hm e he)) hl1
  have hs1 := takeWhile_append_dropWhile (p := fun e => decide (node.tree.count≤e.tree.count))
    (l := before++[last])
  unfold settle
  generalize (before++[last]).takeWhile (fun e => decide (node.tree.count≤e.tree.count))=front at *
  generalize (before++[last]).dropWhile (fun e => decide (node.tree.count≤e.tree.count))=rear at *
  rcases eq_nil_or_concat' rear with rfl | ⟨rear, z, rfl⟩
  · -- no earlier sibling counts less
    rw [append_nil] at hs1
    refine ⟨h, ?_, by rw [hs1]; exact hs, .refl h owner _⟩
    have hs2 : h.siblingsOf (h.item owner).child (lastFrom none (addrs front))=some node.addr := by
      rw [hs1]
      exact Chain.nextOf_lastFrom (p := none) hp
    unfold adjustSiblings
    dsimp only
    rw [hl, Option.map_some, if_pos hs2]
  · rw [←append_assoc] at hs1
    obtain ⟨rfl, hz⟩ := append_inj' hs1 rfl
    obtain rfl := singleton_inj.mp hz
    rw [append_assoc front] at hs ho ⊢
    obtain ⟨h', ha, hm1, hr⟩ := move_spec hs ho hl
    refine ⟨h', ha, hs.relinked hr ho ?_ hm1, hr⟩
    refine perm_middle.trans (List.Perm.trans ?_ perm_middle.symm)
    rw [←append_assoc]

end Adjust

end Faultloggerd.StackPrinter
