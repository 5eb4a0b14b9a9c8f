import Faultloggerd.Foundations.PrefixListing
import Faultloggerd.StackPrinter.Printer

/-! # Forests in the heap

`Linked` says that a chain of items holds a forest and which addresses it uses. A forest in the heap keeps its shape
while the items at these addresses are the same up to their stack ids (`Linked.congr`), and the loop of
`GenerateTreeStackFrames` lists it in preorder (`Linked.framesLoop`).
-/
namespace Faultloggerd.StackPrinter
open List Foundations PrefixForest

abbrev Path := List (BitVec 64)

abbrev Tree := PrefixTree (BitVec 64)

/-- Paths with their weights. -/
abbrev Words := List (Path × ℕ)

structure Node where
  addr : ℕ
  tree : Tree
  inner : List ℕ

def addrs (nodes : List Node) : List ℕ :=
  nodes.map Node.addr

def trees (nodes : List Node) : List Tree :=
  nodes.map Node.tree

def owned (nodes : List Node) : List ℕ :=
  nodes.flatMap fun node => node.addr::node.inner

variable (left right : List Node)

@[simp] theorem addrs_append : addrs (left++right)=addrs left++addrs right := map_append

@[simp] theorem addrs_cons (node : Node) (nodes : List Node) : addrs (node::nodes)=node.addr::addrs nodes := rfl

@[simp] theorem addrs_nil : addrs []=[] := rfl

@[simp] theorem trees_append : trees (left++right)=trees left++trees right := map_append

@[simp] theorem trees_cons (node : Node) (nodes : List Node) : trees (node::nodes)=node.tree::trees nodes := rfl

@[simp] theorem trees_nil : trees []=[] := rfl

@[simp] theorem owned_append : owned (left++right)=owned left++owned right := flatMap_append

@[simp] theorem owned_cons (node : Node) (nodes : List Node) :
    owned (node::nodes)=node.addr::(node.inner++owned nodes) := by
  rfl

@[simp] theorem owned_nil : owned []=[] := rfl

variable {node : Node}

variable {after before nodes : List Node}

theorem addr_mem_owned (h : node∈nodes) : node.addr∈owned nodes := mem_flatMap.mpr ⟨node, h, mem_cons_self⟩

theorem inner_subset_owned (h : node∈nodes) : ∀ x∈node.inner, x∈owned nodes :=
  fun _ hx => mem_flatMap.mpr ⟨node, h, mem_cons_of_mem _ hx⟩

theorem mem_owned_of_mem_addrs {x : ℕ} (h : x∈addrs nodes) : x∈owned nodes := by
  obtain ⟨node, hn, rfl⟩ := mem_map.mp h
  exact addr_mem_owned hn

theorem owned_middle_perm (before after : List Node) (node : Node) :
    (owned (before++node::after)).Perm (node.addr::(node.inner++owned (before++after))) := by
  rw [owned_append, owned_cons, owned_append]
  refine perm_middle.trans (List.Perm.cons _ ?_)
  rw [←append_assoc, ←append_assoc]
  exact perm_append_comm.append_right _

theorem inner_notMem_addrs (h : (owned nodes).Nodup) (hn : node∈nodes) : ∀ x∈node.inner, x∉addrs nodes := by
  obtain ⟨before, after, rfl⟩ := append_of_mem hn
  obtain ⟨ha, hr⟩ := nodup_cons.mp ((owned_middle_perm _ _ _).nodup_iff.mp h)
  obtain ⟨-, -, hd⟩ := nodup_append.mp hr
  intro x hx hm
  rw [addrs_append, addrs_cons, mem_append, mem_cons, or_left_comm, ←mem_append, ←addrs_append] at hm
  rcases hm with rfl | hm
  · exact ha (mem_append_left _ hx)
  · exact hd x hx x (mem_owned_of_mem_addrs hm) rfl

structure Holds (item : StackItem) (level : ℕ) (tree : Tree) : Prop where
  pc : item.pc = tree.label
  pcCount : item.pcCount = BitVec.ofNat 32 tree.count
  level : item.level = level

inductive Linked (h : Heap) : ℕ → Option ℕ → List Tree → List ℕ → Prop
  | intro {level : ℕ} {p : Option ℕ} (nodes : List Node) (chain : Chain h.siblings p (addrs nodes) none)
      (items : ∀ node∈nodes, Holds (h.item node.addr) level node.tree)
      (children : ∀ node∈nodes, Linked h (level+1) (h.item node.addr).child node.tree.children node.inner) :
      Linked h level p (trees nodes) (owned nodes)

structure Spine (h : Heap) (level : ℕ) (p : Option ℕ) (nodes : List Node) : Prop where
  chain : Chain h.siblings p (addrs nodes) none
  items : ∀ node ∈ nodes, Holds (h.item node.addr) level node.tree
  children : ∀ node ∈ nodes, Linked h (level+1) (h.item node.addr).child node.tree.children node.inner
  nodup : (owned nodes).Nodup
  bound : ∀ x ∈ owned nodes, x < h.next

variable {h h' : Heap} {level : ℕ} {p : Option ℕ} {ts : List Tree} {used : List ℕ} {nodes : List Node}

theorem Spine.linked (hs : Spine h level p nodes) : Linked h level p (trees nodes) (owned nodes) :=
  .intro nodes hs.chain hs.items hs.children

theorem Spine.tail (hs : Spine h level p (node::nodes)) : Spine h level (addrs nodes).head? nodes := by
  have hn := hs.nodup
  have hb := hs.bound
  have hc := hs.chain.2
  have hs1 : h.siblings node.addr=(addrs nodes).head? := hc.start_eq_head
  rw [hs1] at hc
  exact ⟨hc, fun e he => hs.items e (mem_cons_of_mem _ he),
    fun e he => hs.children e (mem_cons_of_mem _ he), (nodup_append.mp (nodup_cons.mp hn).2).2.1,
    fun x hx => hb x (mem_cons_of_mem _ (mem_append_right _ hx))⟩

theorem Spine.siblings_eq {last : Node} (hs : Spine h level p (before++[last]++after)) :
    (h.item last.addr).siblings=(addrs after).head? := by
  have hc := hs.chain
  rw [addrs_append, addrs_append, append_assoc] at hc
  obtain ⟨_, -, -, ha⟩ := chain_append.mp hc
  exact ha.start_eq_head

theorem Linked.spine (hl : Linked h level p ts used) (hn : used.Nodup) (hb : ∀ x∈used, x<h.next) :
    ∃ nodes, trees nodes=ts ∧ owned nodes=used ∧ Spine h level p nodes := by
  cases hl with
  | intro nodes chain items children => exact ⟨nodes, rfl, rfl, chain, items, children, hn, hb⟩

theorem addrs_sublist_owned (nodes : List Node) : (addrs nodes).Sublist (owned nodes) := by
  induction nodes with
  | nil => exact List.Sublist.refl _
  | cons node nodes ih => exact (ih.trans (sublist_append_right _ _)).cons_cons _

theorem length_le_of_bound {xs : List ℕ} {n : ℕ} (hn : xs.Nodup) (hb : ∀ x∈xs, x<n) : xs.length≤n := by
  have hs : xs.Subperm (List.range n) := subperm_of_subset hn fun x hx => mem_range.mpr (hb x hx)
  have := hs.length_le
  rwa [length_range] at this

theorem Spine.length_le (hs : Spine h level p nodes) : nodes.length≤h.next := by
  have hl := length_le_of_bound hs.nodup hs.bound
  have := (addrs_sublist_owned nodes).length_le
  rw [addrs, length_map] at this
  omega

theorem Spine.addrs_nodup (hs : Spine h level p nodes) : (addrs nodes).Nodup :=
  hs.nodup.sublist (addrs_sublist_owned nodes)

/-- Two items that differ at most in their stack ids. -/
structure SameShape (item item' : StackItem) : Prop where
  pc : item'.pc = item.pc
  pcCount : item'.pcCount = item.pcCount
  level : item'.level = item.level
  child : item'.child = item.child
  siblings : item'.siblings = item.siblings

theorem SameShape.refl (item : StackItem) : SameShape item item := ⟨rfl, rfl, rfl, rfl, rfl⟩

variable {item : StackItem}

variable {item' : StackItem}

theorem SameShape.of_eq (heq : item'=item) : SameShape item item' := heq ▸ .refl item

variable {tree : Tree}

theorem Holds.congr (hh : Holds item level tree)
    (hpc : item'.pc=item.pc) (hc : item'.pcCount=item.pcCount) (hl : item'.level=item.level) :
    Holds item' level tree := ⟨hpc.trans hh.pc, hc.trans hh.pcCount, hl.trans hh.level⟩

theorem Linked.congr (hl : Linked h level p ts used) (hs : ∀ x∈used, SameShape (h.item x) (h'.item x)) :
    Linked h' level p ts used := by
  induction hl with
  | intro nodes chain items children ih =>
    have ha : ∀ node∈nodes, SameShape (h.item node.addr) (h'.item node.addr) := fun node hn =>
      hs _ (addr_mem_owned hn)
    refine .intro nodes (chain.congr fun x hx => ?_) (fun node hn => ?_) fun node hn => ?_
    · exact (hs x (mem_owned_of_mem_addrs hx)).siblings
    · have := ha node hn
      exact (items node hn).congr this.pc this.pcCount this.level
    · rw [(ha node hn).child]
      exact ih node hn fun x hx => hs x (inner_subset_owned hn x hx)

def Stands (h : Heap) (level : ℕ) (node : Node) : Prop :=
  Holds (h.item node.addr) level node.tree ∧ Linked h (level+1) (h.item node.addr).child node.tree.children node.inner

theorem Stands.congr (hst : Stands h level node) {s : Option ℕ} {id : StackTable.StackId}
    (hi1 : h'.item node.addr={h.item node.addr with siblings := s, stackId := id})
    (hi : ∀ x∈node.inner, SameShape (h.item x) (h'.item x)) : Stands h' level node := by
  unfold Stands
  rw [hi1]
  exact ⟨hst.1.congr rfl rfl rfl, hst.2.congr hi⟩

theorem Spine.stands (hs : Spine h level p nodes) (hn : node∈nodes) : Stands h level node :=
  ⟨hs.items node hn, hs.children node hn⟩

theorem Spine.of_stands (hc : Chain h.siblings p (addrs nodes) none) (hs : ∀ node∈nodes, Stands h level node)
    (hn1 : (owned nodes).Nodup) (hb : ∀ x∈owned nodes, x<h.next) : Spine h level p nodes :=
  ⟨hc, fun node hn => (hs node hn).1, fun node hn => (hs node hn).2, hn1, hb⟩

theorem Spine.congr (hs : Spine h level p nodes) (hs1 : ∀ x∈owned nodes, h'.item x=h.item x)
    (hn : h.next≤h'.next) : Spine h' level p nodes := by
  refine .of_stands (hs.chain.congr fun x hx => ?_) (fun e he => ?_) hs.nodup fun x hx => (hs.bound x hx).trans_le hn
  · exact congrArg StackItem.siblings (hs1 x (mem_owned_of_mem_addrs hx))
  · exact (hs.stands he).congr (hs1 _ (addr_mem_owned he)) fun x hx => .of_eq (hs1 x (inner_subset_owned he x hx))

theorem Spine.replace {node' : Node} (hs : Spine h level p (before++node::after))
    (ha : node'.addr=node.addr) (hs1 : ∀ x∈owned (before++after), h'.item x=h.item x)
    (hs2 : h'.siblings node.addr=h.siblings node.addr) (hn1 : Stands h' level node')
    (hn : (owned (before++node'::after)).Nodup) (hb : ∀ x∈owned (before++node'::after), x<h'.next) :
    Spine h' level p (before++node'::after) := by
  have hk : ∀ e∈before++after, e∈before++node::after → Stands h' level e := fun e he hm =>
    (hs.stands hm).congr (hs1 _ (addr_mem_owned he)) fun x hx => .of_eq (hs1 x (inner_subset_owned he x hx))
  have hl : ∀ x∈addrs (before++after), h'.siblings x=h.siblings x := fun x hx =>
    congrArg StackItem.siblings (hs1 x (mem_owned_of_mem_addrs hx))
  rw [addrs_append] at hl
  refine .of_stands ?_ (forall_mem_append.mpr ⟨fun e he => ?_, forall_mem_cons.mpr ⟨hn1, fun e he => ?_⟩⟩) hn hb
  · have hc := hs.chain
    rw [addrs_append, addrs_cons] at hc ⊢
    rw [ha]
    refine hc.congr (forall_mem_append.mpr ⟨fun x hx => ?_, forall_mem_cons.mpr ⟨hs2, fun x hx => ?_⟩⟩)
    · exact hl x (mem_append_left _ hx)
    · exact hl x (mem_append_right _ hx)
  · exact hk e (mem_append_left _ he) (mem_append_left _ he)
  · exact hk e (mem_append_right _ he) (mem_append_right _ (mem_cons_of_mem _ he))

theorem linked_nil (h : Heap) (level : ℕ) : Linked h level none [] [] := .intro [] rfl nofun nofun

def view (frame : SampledFrame) : ℕ × BitVec 64 × ℤ :=
  (frame.level, frame.pc, frame.count.toInt)

def castCount (e : ℕ×BitVec 64×ℕ) : ℕ × BitVec 64 × ℤ :=
  (e.1, e.2.1, e.2.2)

theorem toInt_ofNat_of_lt {n : ℕ} (hn : n<2^31) : (BitVec.ofNat 32 n).toInt=n := by
  have hn1 : (BitVec.ofNat 32 n).toNat=n := by
    exact Nat.mod_eq_of_lt (by omega)
  rw [BitVec.toInt_eq_toNat_of_lt (by omega), hn1]

theorem view_frameOf (recs : List StackRecord) (hh : Holds item level tree)
    (hc : tree.count<2^31) : view (Heap.frameOf recs item)=castCount (level, tree.label, tree.count) := by
  change (item.level, item.pc, item.pcCount.toInt)=(level, tree.label, (tree.count : ℤ))
  rw [hh.level, hh.pc, hh.pcCount, toInt_ofNat_of_lt hc]

theorem Linked.framesLoop {m : ℕ} (hl : Linked h level p ts used) (hc : Capped m ts) (hm : m<2^31)
    (recs : List StackRecord) : ∃ fs, fs.map view=(listing level ts).map castCount ∧ ∀ fuel rest acc,
      h.framesLoop recs (used.length+fuel) (p.toList++rest) acc=h.framesLoop recs fuel rest (acc++fs) := by
  induction hl generalizing m with
  | @intro level p nodes chain items children ih =>
    induction nodes generalizing p with
    | nil =>
      obtain rfl : p=none := chain
      refine ⟨[], by simp, fun fuel rest acc => ?_⟩
      rw [append_nil, owned_nil, length_nil, Nat.zero_add]
      rfl
    | cons node nodes ihnodes =>
      obtain ⟨rfl, hc2⟩ := chain
      obtain ⟨hi3, hi2⟩ := forall_mem_cons.mp items
      obtain ⟨hc3, hc1⟩ := forall_mem_cons.mp children
      obtain ⟨ihchild, ihrest⟩ := forall_mem_cons.mp ih
      have hle : node.tree.count≤ m := hc.count_le _ mem_cons_self
      have hr : Capped m (trees nodes) := .intro (fun t ht => hc.count_le t (mem_cons_of_mem _ ht))
          fun t ht => hc.children t (mem_cons_of_mem _ ht)
      obtain ⟨inner, hi1, hi⟩ := ihchild (hc.children _ mem_cons_self) (hle.trans_lt hm)
      obtain ⟨outer, ho1, ho⟩ := ihnodes hc2 hi2 hc1 ihrest hr
      refine ⟨Heap.frameOf recs (h.item node.addr)::(inner++outer), ?_, fun fuel rest acc => ?_⟩
      · rw [trees_cons, listing_cons, map_cons, map_cons, map_append, map_append, hi1, ho1,
          view_frameOf recs hi3 (hle.trans_lt hm)]
      · have hf : (owned (node::nodes)).length+fuel=node.inner.length+((owned nodes).length+fuel)+1 := by
          rw [owned_cons, length_cons, length_append]
          omega
        rw [hf]
        change h.framesLoop recs (node.inner.length+((owned nodes).length+fuel))
          ((h.item node.addr).child.toList++((h.siblings node.addr).toList++rest)) _=_
        rw [hi, ho, append_assoc, append_assoc, singleton_append]

end Faultloggerd.StackPrinter
