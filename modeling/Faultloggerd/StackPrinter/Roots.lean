import Faultloggerd.StackPrinter.Insertion

/-! # The roots of the tree

`Insert` starts from `root_`, which `AdjustSiblings` does not move: an item that overtakes it is linked in front of it,
and is gone with all that is below it (`insertRoots`). Apart from that the tree in the heap is the forest of the stacks
(`buildLoop_spec`).
-/
namespace Faultloggerd.StackPrinter
open List Heap Nat Foundations PrefixForest StackTable

def insertRoots (n : ℕ) : Path → List Tree → List Tree
  | pc :: path, root :: rest =>
    let located := locate pc n (root::rest)
    if root.label ≠ pc ∧ located.before.isEmpty then located.after else insertPath n (pc::path) (root::rest)
  | path, ts => insertPath n path ts

variable {pc : BitVec 64} {n : ℕ}

variable {root : Tree} {rest ts : List Tree}

theorem insertRoots_kept (path : Path) (h : root.label=pc ∨ (locate pc n (root::rest)).before≠[]) :
    insertRoots n (pc::path) (root::rest)=insertPath n (pc::path) (root::rest) := by
  refine if_neg fun hg => ?_
  rcases h with hpc | hb
  · exact hg.1 hpc
  · exact hb (isEmpty_iff.mp hg.2)

theorem insertRoots_overtaken (path : Path) (hpc : root.label≠pc)
    (hb : (locate pc n (root::rest)).before=[]) :
    insertRoots n (pc::path) (root::rest)=(locate pc n (root::rest)).after := if_pos ⟨hpc, isEmpty_iff.mpr hb⟩

/-- At level 0 the first item is looked at as well. -/
def ClearRoots (n : ℕ) : Path → List Tree → Prop
  | [], _ => True
  | pc :: path, ts => (∀ t ∈ passed pc ts, t.label ≠ 0) ∧ (path ≠ [] → pc ≠ 0) ∧
      ClearBelow n path (locate pc n ts).tree.children

structure Rooted (h : Heap) (root : Option ℕ) (ts : List Tree) : Prop where
  linked : ∃ used, Linked h 0 root ts used ∧ used.Nodup ∧ ∀ x ∈ used, x < h.next

section Insert

variable {h : Heap} {root : Option ℕ} {ts : List Tree}

theorem rooted_none (h : Heap) : Rooted h none [] := ⟨[], linked_nil h 0, nodup_nil, nofun⟩

theorem Rooted.setStackId (hr : Rooted h root ts) (x : ℕ) (stackId : StackId) :
    Rooted (h.modify x fun item => {item with stackId := stackId}) root ts := by
  obtain ⟨used, hl, hn, hb⟩ := hr.linked
  refine ⟨used, hl.congr fun y _ => ?_, hn, hb⟩
  by_cases hy : y=x
  · rw [hy, modify_item_self]
    exact ⟨rfl, rfl, rfl, rfl, rfl⟩
  · exact .of_eq (h.modify_item_of_ne _ hy)

variable {pc : BitVec 64} {path : Path}

theorem insertLoop_first {n : ℕ} (hp : ClearRoots n (pc :: path) []) (hn : n<2^31) {r : ℕ}
    (hr : r<h.next) (hi : h.item r={level := 0}) (d : ℕ) :
    ∃ h' z, h.insertLoop (BitVec.ofNat 32 n) d (pc::path) 0 (some r)=some (h', some z) ∧
      Rooted h' (some r) (insertPath n (pc::path) []) := by
  have hf : (h.fill r pc (BitVec.ofNat 32 n)).item r={pc := pc, pcCount := BitVec.ofNat 32 n, level := 0} :=
    fill_item_self _ _ hi _ _
  have hb : Below (h.fill r pc (BitVec.ofNat 32 n)) r 0 [] [] := by
    refine ⟨?_, nodup_nil, nofun, not_mem_nil, hr, ?_⟩ <;> rw [hf]
    exact linked_nil _ _
  have hc : Capped 0 ([] : List Tree) := .intro nofun nofun
  obtain ⟨h', used, z, hl, hl', hn1, hb1, he⟩ := insertLoop_spec hp.2.2 (by rw [hf]; exact hp.2.1) hb hc
    ((zero_add n).symm ▸ hn) d
  have hr1 := he.owner
  rw [hf] at hr1
  have hf1 : ∀ x∈used, h.next≤x := fun x hx => (he.fresh x hx).resolve_left not_mem_nil
  have ho : owned [⟨r, .node pc n (insertPath n path []), used⟩]=r::used := append_nil _
  refine ⟨h', z, ?_, ⟨_, .intro [⟨r, .node pc n (insertPath n path []), used⟩] ?_ ?_ ?_, ?_, ?_⟩⟩
  · unfold insertLoop
    rw [insertImpl_empty hi]
    exact hl
  · refine ⟨rfl, ?_⟩
    change (h'.item r).siblings=none
    rw [hr1]
  · refine forall_mem_singleton.mpr ?_
    rw [hr1]
    exact ⟨rfl, rfl, rfl⟩
  · exact forall_mem_singleton.mpr hl'
  · rw [ho]
    refine nodup_cons.mpr ⟨fun hx => ?_, hn1⟩
    have := hf1 r hx
    omega
  · rw [ho]
    exact forall_mem_cons.mpr ⟨hr.trans_le he.next_le, hb1⟩

variable {n : ℕ}

variable {rest : List Node}

theorem insertImpl_root {d : ℕ} {first : Node} (hs : Spine h 0 (h.item d).child (first::rest))
    (hd : d∉owned (first::rest)) (hlt : d<h.next) (hf1 : Fits pc n (trees (first::rest)))
    (hz : ∀ t ∈ passed pc (trees (first::rest)), t.label ≠ 0) : ∃ h' front node rear,
      h.insertImpl pc (BitVec.ofNat 32 n) 0 (h.next+2) (some first.addr) d=some (h', some node.addr) ∧
      Settled h h' d 0 (locate pc n (trees (first::rest))) (first::rest) front node rear ∧
      (first.tree.label=pc ∧ front=[] ∧ node.addr=first.addr ∨
        first.tree.label≠pc ∧ (front++rear).head?=some first) := by
  have hf := hs.items first mem_cons_self
  by_cases hpc : first.tree.label=pc
  · refine ⟨_, [], first.grown n, rest, ?_, settled_first hs hd hpc n, .inl ⟨hpc, rfl, rfl⟩⟩
    unfold insertImpl
    rw [if_pos ⟨hf.level.symm, hf.pc.trans hpc⟩]
    rfl
  · rw [trees_cons, passed_cons hpc] at hz
    obtain ⟨hz0, hz⟩ := forall_mem_cons.mp hz
    obtain ⟨h', front, node, rear, hi, hs1, hh⟩ := insertBehind_first hs hd hlt hpc hf1 hz
    refine ⟨h', front, node, rear, ?_, hs1, .inr ⟨hpc, hh⟩⟩
    rw [←hi]
    exact insertImpl_pass hf.level (hf.pc ▸ hpc) (hf.pc ▸ hz0)

theorem insertLoop_root {d : ℕ} {first : Node} (hp : ClearRoots n (pc :: path) (trees (first :: rest)))
    (hs : Spine h 0 (h.item d).child (first::rest))
    (hd : d∉owned (first::rest)) (hlt : d<h.next)
    (hf1 : Fits pc n (trees (first::rest))) (hc : ∀ t∈trees (first::rest), Capped t.count t.children) :
    ∃ h' z, h.insertLoop (BitVec.ofNat 32 n) d (pc::path) 0 (some first.addr)=some (h', some z) ∧
      Rooted h' (some first.addr) (insertRoots n (pc::path) (trees (first::rest))) := by
  obtain ⟨h1, front, node, rear, hi, hs1, hc2⟩ := insertImpl_root hs hd hlt hf1 hp.1
  obtain ⟨m, hc, hm⟩ := hf1.children hc
  obtain ⟨h2, inner, z, hl1, hl, hn, hb1, he⟩ := insertLoop_spec hp.2.2 (hs1.pc_eq.symm ▸ hp.2.1) hs1.below hc hm d
  obtain ⟨hf, -⟩ := hs1.descend hd hlt he hl hn hb1
  have ht1 := hs1.trees_insertPath path inner
  refine ⟨h2, z, ?_, ?_⟩
  · unfold insertLoop
    rw [hi]
    exact hl1
  -- where the first root is still in front, the whole forest hangs from it
  have hk : (h2.item d).child=some first.addr →
      Rooted h2 (some first.addr) (insertPath n (pc::path) (trees (first::rest))) := by
    intro hc1
    rw [hc1] at hf
    exact ⟨_, ht1 ▸ hf.linked, hf.nodup, hf.bound⟩
  have hb := hs1.before_eq
  rcases hc2 with ⟨hpc, rfl, ha⟩ | ⟨hpc, hh⟩
  · rw [trees_cons, insertRoots_kept path (.inl hpc)]
    exact hk (hf.chain.1.trans (congrArg some ha))
  · cases front with
    | cons f front =>
      obtain rfl : f=first := Option.some.inj hh
      rw [trees_cons, insertRoots_kept path (.inr fun hn1 => ?_)]
      · exact hk hf.chain.1
      · rw [trees_cons, trees_cons, hn1] at hb
        cases hb
    | nil =>
      -- the tree of the pc is in front of the first root
      have ht := hf.tail
      have hs2 : (addrs rear).head? = some first.addr := by
        rw [addrs, head?_map]
        exact congrArg (Option.map Node.addr) hh
      rw [hs2] at ht
      have hg : insertRoots n (pc::path) (trees (first::rest))=(locate pc n (trees (first::rest))).after :=
        insertRoots_overtaken path hpc hb.symm
      rw [hg, ←hs1.after_eq]
      exact ⟨_, ht.linked, ht.nodup, ht.bound⟩

theorem insert_spec {pcs : Path} (hr : Rooted h root ts) (hp1 : pcs.reverse=pc::path)
    (hp : ClearRoots n (pc :: path) ts) (hf : Fits pc n ts) (hc : ∀ t∈ts, Capped t.count t.children)
    (id : StackId) : ∃ h' root', h.insert root pcs (BitVec.ofNat 32 n) id=some (h', root') ∧
      Rooted h' root' (insertRoots n (pc::path) ts) := by
  obtain ⟨used, hl1, hn, hb⟩ := hr.linked
  obtain ⟨nodes, rfl, rfl, hs⟩ := hl1.spine hn hb
  cases nodes with
  | nil =>
    obtain rfl : root=none := hs.chain
    -- `root_` and then `dummyNode` are made
    have hi : ((h.make {}).make {child := some h.next}).item h.next={level := 0} := by
      rw [make_item_of_ne _ _ (lt_succ_self h.next).ne, make_item_next]
    obtain ⟨h', z, hl, hr1⟩ := insertLoop_first hp hf.fresh
      (h := (h.make {}).make {child := some h.next}) (by rw [make_next, make_next]; omega) hi (h.next+1)
    refine ⟨_, some h.next, ?_, hr1.setStackId z id⟩
    unfold Heap.insert Heap.makeRoot
    dsimp only
    rw [hp1, make_next, hl]
  | cons first rest =>
    obtain rfl : root=some first.addr := hs.chain.1
    have hs' : Spine (h.make {child := some first.addr}) 0
        ((h.make {child := some first.addr}).item h.next).child (first::rest) := by
      rw [make_item_next]
      exact hs.congr (fun x hx => h.make_item_of_ne _ (hs.bound x hx).ne) (le_succ _)
    have ho : h.next ∉ owned (first::rest) := fun hm => (hs.bound _ hm).false
    obtain ⟨h', z, hl, hr1⟩ := insertLoop_root hp hs' ho (lt_succ_self _) hf hc
    refine ⟨_, some first.addr, ?_, hr1.setStackId z id⟩
    unfold Heap.insert Heap.makeRoot
    dsimp only
    rw [hp1, hl]

end Insert

def rootsOf (words : Words) : List Tree :=
  words.foldl (fun ts word => insertRoots word.2 word.1 ts) []

theorem rootsOf_append (words : Words) (path : Path) (n : ℕ) :
    rootsOf (words++[(path, n)])=insertRoots n path (rootsOf words) := by
  rw [rootsOf, foldl_append]
  rfl

theorem counted_insertRoots {words : Words} (h : Counted words ts)
    (path : Path) (n : ℕ) : Counted (words++[(path, n)]) (insertRoots n path ts) := by
  have ha := h.insertPath path n
  cases path with
  | nil => exact ha
  | cons pc path =>
    cases ts with
    | nil => exact ha
    | cons root rest =>
      unfold insertRoots
      dsimp only
      split
      · exact fun t ht => ha t (mem_append_right _ (mem_cons_of_mem _ ht))
      · exact ha

theorem counted_rootsOf (words : Words) : Counted words (rootsOf words) := by
  induction words using reverseRecOn with
  | nil => exact nofun
  | append_singleton words word ih =>
    rw [rootsOf_append]
    exact counted_insertRoots ih word.1 word.2

theorem fits_of_counted {words later : Words} (h : Counted words ts) {path : Path}
    (hf : ∀ pc', weight (startingWith [pc'] (words++(pc::path, n)::later))<2^31) : Fits pc n ts := by
  have hs : ∀ pc', weight (startingWith [pc'] words)+weight (startingWith [pc'] [(pc::path, n)])<2^31 := by
    intro pc'
    have := hf pc'
    rw [append_cons, weight_startingWith_append, weight_startingWith_append] at this
    omega
  have ho := hs pc
  rw [weight_startingWith_word] at ho
  refine ⟨by omega, fun t ht => ?_, fun t ht hl => ?_⟩
  · have := (h t ht).1
    have := hs t.label
    omega
  · have := (h t ht).1
    grind

/-- The table has the stack of the record, and it is not empty. -/
structure Stored (table : UniqueStackTable) (record : StackRecord) : Prop where
  found : (table.getPcsByStackId record.stackId).1 = true
  nonempty : (table.getPcsByStackId record.stackId).2 ≠ []

def wordOf (table : UniqueStackTable) (record : StackRecord) : Path × ℕ :=
  ((table.getPcsByStackId record.stackId).2.reverse, record.snapshotTimes.length)

/-- While the stacks are inserted behind the trees, no item of the pc 0 is looked at. -/
def ClearFrom : List Tree → Words → Prop
  | _, [] => True
  | ts, word :: words => ClearRoots word.2 word.1 ts ∧ ClearFrom (insertRoots word.2 word.1 ts) words

theorem buildLoop_spec {table : UniqueStackTable} {recs : List StackRecord} (hs : ∀ record∈recs, Stored table record)
    {old : Words} (hz : ClearFrom (rootsOf old) (recs.map (wordOf table)))
    {h : Heap} {root : Option ℕ} (hr : Rooted h root (rootsOf old))
    (hf : ∀ pc, weight (startingWith [pc] (old++recs.map (wordOf table)))<2^31) :
    ∃ h' root', h.buildLoop (some table) recs root=some (h', root') ∧
      Rooted h' root' (rootsOf (old++recs.map (wordOf table))) := by
  induction recs generalizing old h root with
  | nil =>
    rw [map_nil, append_nil]
    exact ⟨h, root, rfl, hr⟩
  | cons record recs ih =>
    obtain ⟨hr1, hs⟩ := forall_mem_cons.mp hs
    rw [map_cons] at hf hz ⊢
    cases hw : (wordOf table record).1 with
    | nil => exact absurd (reverse_eq_nil_iff.mp hw) hr1.nonempty
    | cons pc path =>
      have hp1 : wordOf table record=(pc::path, record.snapshotTimes.length) := Prod.ext hw rfl
      rw [hp1] at hf hz ⊢
      obtain ⟨hp, hz⟩ := hz
      have hc := counted_rootsOf old
      obtain ⟨h1, root1, hi, hr2⟩ :=
        insert_spec hr hw hp (fits_of_counted hc hf) (fun t ht => (hc t ht).2) record.stackId
      rw [←rootsOf_append] at hr2 hz
      rw [append_cons] at hf ⊢
      obtain ⟨h', root', hl, hf1⟩ := ih hs hz hr2 hf
      refine ⟨h', root', ?_, hf1⟩
      unfold buildLoop
      dsimp only
      have hg : table.getPcsByStackId record.stackId=(true, (table.getPcsByStackId record.stackId).2) :=
        Prod.ext hr1.found rfl
      rw [hg]
      dsimp only
      rw [hi]
      exact hl

end Faultloggerd.StackPrinter
