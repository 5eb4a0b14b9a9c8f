import Mathlib.Data.List.Nodup
import Mathlib.Data.List.Pairwise
import Mathlib.Order.Lattice

/-! # The interval tree (`IntervalTree` in `minidump_optimizer.cpp`)

An AVL tree of closed intervals keyed by their lower bound, every node caching its height and the
largest upper bound below it. An interval whose lower bound is already present is dropped, whatever
its upper bound. `searchNode` looks at one child only, chosen by the cached maximum of the left one.

The tree is read through its in-order list of entries: rotations leave that list alone
(`toList_rebalance`), an insertion acts on it as `insertEntry` (`toList_insertNode`), and with exact
maxima a search finds an entry containing the address whenever there is one. Several entries may
contain it; `Precedes` says, on the shape of the tree, which of two the search meets first
(`searchNode_iff`).
-/
namespace Faultloggerd.Minidump
open List

/-- A range with inclusive end, as all the indexes store it. -/
structure IndexEntry (α ε : Type) where
  start : α
  stop : α
  value : ε
deriving DecidableEq

/-- An interval contains both of its ends. -/
def IndexEntry.Contains {α ε : Type} [LE α] (e : IndexEntry α ε) (address : α) : Prop :=
  e.start ≤ address ∧ address ≤ e.stop

instance {α ε : Type} [LE α] [DecidableLE α] (e : IndexEntry α ε) (address : α) :
    Decidable (e.Contains address) := inferInstanceAs (Decidable (_ ∧ _))

inductive IntervalNode (α ε : Type) where
  | nil
  | node (low high max : α) (value : ε) (height : ℕ) (left right : IntervalNode α ε)

namespace IntervalNode
variable {α ε : Type} [LinearOrder α]

def getHeight : IntervalNode α ε → ℕ
  | nil => 0
  | node _ _ _ _ height _ _ => height

def getMax (high : α) (left right : IntervalNode α ε) : α :=
  let m := match left with
    | nil => high
    | node _ _ lmax _ _ _ _ => max high lmax
  match right with
  | nil => m
  | node _ _ rmax _ _ _ _ => max m rmax

def getBalance : IntervalNode α ε → ℤ
  | nil => 0
  | node _ _ _ _ _ left right => (getHeight left : ℤ)-getHeight right

def refresh (low high : α) (value : ε) (left right : IntervalNode α ε) : IntervalNode α ε :=
  node low high (getMax high left right) value (max (getHeight left) (getHeight right)+1) left right

def rotateRight : IntervalNode α ε → IntervalNode α ε
  | node yl yh _ yv _ (node xl xh _ xv _ t1 t2) t3 => refresh xl xh xv t1 (refresh yl yh yv t2 t3)
  | t => t

def rotateLeft : IntervalNode α ε → IntervalNode α ε
  | node xl xh _ xv _ t1 (node yl yh _ yv _ t2 t3) => refresh yl yh yv (refresh xl xh xv t1 t2) t3
  | t => t

def lowBelow (low : α) : IntervalNode α ε → Bool
  | nil => false
  | node l _ _ _ _ _ _ => low < l

def lowAbove (low : α) : IntervalNode α ε → Bool
  | nil => false
  | node l _ _ _ _ _ _ => l < low

def rebalance (low : α) : IntervalNode α ε → IntervalNode α ε
  | nil => nil
  | t@(node nl nh nm nv ht l r) =>
    if getBalance t > 1 ∧ lowBelow low l then rotateRight t
    else if getBalance t < -1 ∧ lowAbove low r then rotateLeft t
    else if getBalance t > 1 ∧ lowAbove low l then rotateRight (node nl nh nm nv ht (rotateLeft l) r)
    else if getBalance t < -1 ∧ lowBelow low r then rotateLeft (node nl nh nm nv ht l (rotateRight r))
    else t

/-- `InsertNode`, with the counter `size_` it increments when it allocates. -/
def insertNode (size : ℕ) (low high : α) (value : ε) : IntervalNode α ε → ℕ × IntervalNode α ε
  | nil => (size+1, node low high high value 1 nil nil)
  | node nl nh nm nv ht l r =>
    if low < nl then
      let (size, l) := insertNode size low high value l
      (size, rebalance low (refresh nl nh nv l r))
    else if low > nl then
      let (size, r) := insertNode size low high value r
      (size, rebalance low (refresh nl nh nv l r))
    else (size, node nl nh nm nv ht l r)

def searchNode (address : α) : IntervalNode α ε → Option ε
  | nil => none
  | node low high _ value _ l r =>
    if low ≤ address ∧ address ≤ high then some value
    else match l with
      | nil => searchNode address r
      | node ll lh lmax lv lht l1 l2 =>
        if address ≤ lmax then searchNode address (node ll lh lmax lv lht l1 l2)
        else searchNode address r

def maxReaches (low : α) : IntervalNode α ε → Bool
  | nil => false
  | node _ _ m _ _ _ _ => low ≤ m

/-- `SearchRangeNode`: the values in the order in which they are pushed. -/
def searchRangeNode (low high : α) : IntervalNode α ε → List ε
  | nil => []
  | node nl nh _ value _ l r =>
    (if low≤nh ∧ nl≤high then [value] else []) ++
      (if maxReaches low l then searchRangeNode low high l else []) ++
      if nl ≤ high then searchRangeNode low high r else []

end IntervalNode

structure IntervalTree (α ε : Type) where
  root : IntervalNode α ε
  size : ℕ

namespace IntervalTree
variable {α ε : Type} [LinearOrder α]

def empty : IntervalTree α ε := ⟨.nil, 0⟩

def insert (t : IntervalTree α ε) (low high : α) (value : ε) : Bool × IntervalTree α ε :=
  if low > high then (false, t)
  else
    let (size, root) := t.root.insertNode t.size low high value
    (decide (size > t.size), ⟨root, size⟩)

def search (t : IntervalTree α ε) (address : α) : Option ε := t.root.searchNode address

def searchRange (t : IntervalTree α ε) (low high : α) : List ε := t.root.searchRangeNode low high

end IntervalTree

/-! ## Entries in order -/

namespace IntervalNode
variable {α ε : Type}

def toList : IntervalNode α ε → List (IndexEntry α ε)
  | nil => []
  | node low high _ value _ l r => toList l ++ ⟨low, high, value⟩ :: toList r

@[simp] theorem toList_nil : toList (nil : IntervalNode α ε)=[] := rfl

@[simp] theorem toList_node (low high m : α) (value : ε) (ht : ℕ) (l r : IntervalNode α ε) :
    toList (node low high m value ht l r)=toList l++⟨low, high, value⟩::toList r := rfl

variable {m low high : α} {e : IndexEntry α ε} {value : ε} {ht : ℕ} {l r : IntervalNode α ε}

theorem mem_node : e∈toList (node low high m value ht l r) ↔ e∈toList l ∨ e=⟨low, high, value⟩ ∨ e∈toList r := by
  rw [toList_node, mem_append, mem_cons]

variable [LinearOrder α]

@[simp] theorem toList_refresh (low high : α) (value : ε) (l r : IntervalNode α ε) :
    toList (refresh low high value l r)=toList l++⟨low, high, value⟩::toList r := rfl

@[simp] theorem toList_rotateRight (t : IntervalNode α ε) : toList (rotateRight t)=toList t := by
  rcases t with _ | ⟨_, _, _, _, _, (_ | ⟨_, _, _, _, _, _, _⟩), _⟩ <;> simp [rotateRight]

@[simp] theorem toList_rotateLeft (t : IntervalNode α ε) : toList (rotateLeft t)=toList t := by
  rcases t with _ | ⟨_, _, _, _, _, _, (_ | ⟨_, _, _, _, _, _, _⟩)⟩ <;> simp [rotateLeft]

@[simp] theorem toList_rebalance (low : α) (t : IntervalNode α ε) : toList (rebalance low t)=toList t := by
  cases t with
  | nil => rfl
  | node nl nh nm nv ht l r =>
    simp only [rebalance]
    split_ifs <;> simp

def Ordered (t : IntervalNode α ε) : Prop := (toList t).Pairwise fun e f => e.start < f.start

theorem ordered_node : Ordered (node low high m value ht l r) ↔
      Ordered l ∧ Ordered r ∧ (∀ e∈toList l, e.start<low) ∧ ∀ e∈toList r, low<e.start := by
  unfold Ordered
  rw [toList_node, pairwise_append, pairwise_cons]
  constructor
  · intro h
    obtain ⟨hl, ⟨hr1, hr⟩, hlr⟩ := h
    exact ⟨hl, hr, fun e he => hlr e he _ mem_cons_self, hr1⟩
  · intro h
    obtain ⟨hl, hr, hl1, hr1⟩ := h
    refine ⟨hl, ⟨hr1, hr⟩, ?_⟩
    intro e he f hf
    obtain rfl | hf := mem_cons.mp hf
    · exact hl1 e he
    · exact lt_trans (hl1 e he) (hr1 f hf)

def insertEntry (e : IndexEntry α ε) : List (IndexEntry α ε) → List (IndexEntry α ε)
  | [] => [e]
  | x :: xs =>
    if e.start < x.start then e::x::xs
    else if e.start > x.start then x::insertEntry e xs
    else x::xs

theorem insertEntry_append_left (e x : IndexEntry α ε) (L R : List (IndexEntry α ε))
    (hx : e.start<x.start) : insertEntry e (L++x::R)=insertEntry e L++x::R := by
  induction L with
  | nil => simp [insertEntry, hx]
  | cons y L ih =>
    simp only [cons_append, insertEntry]
    split_ifs <;> simp [ih]

theorem insertEntry_append_right (e : IndexEntry α ε) {L : List (IndexEntry α ε)} (R : List (IndexEntry α ε))
    (hL : ∀ y∈L, y.start<e.start) : insertEntry e (L++R)=L++insertEntry e R := by
  induction L with
  | nil => rfl
  | cons y L ih =>
    obtain ⟨hy, hL⟩ := forall_mem_cons.mp hL
    rw [cons_append, insertEntry, if_neg (not_lt_of_gt hy), if_pos hy, ih hL, cons_append]

variable {xs : List (IndexEntry α ε)}

theorem insertEntry_spec (e : IndexEntry α ε) (hs : xs.Pairwise fun a b => a.start<b.start) :
    (∃ x∈xs, x.start=e.start) ∧ insertEntry e xs=xs ∨ (∀ x∈xs, x.start≠e.start) ∧ (insertEntry e xs).Perm (e::xs) := by
  induction xs with
  | nil => exact .inr ⟨nofun, .refl _⟩
  | cons x xs ih =>
    obtain ⟨hx, hxs⟩ := pairwise_cons.mp hs
    rw [insertEntry]
    split_ifs with h1 h2
    · exact .inr ⟨forall_mem_cons.mpr ⟨h1.ne', fun y hy => (h1.trans (hx y hy)).ne'⟩, .refl _⟩
    · obtain ⟨⟨y, hy, hye⟩, hs1⟩ | ⟨hf, hp⟩ := ih hxs
      · exact .inl ⟨⟨y, mem_cons_of_mem x hy, hye⟩, by rw [hs1]⟩
      · exact .inr ⟨forall_mem_cons.mpr ⟨h2.ne, hf⟩, (hp.cons x).trans (.swap e x xs)⟩
    · exact .inl ⟨⟨x, mem_cons_self, le_antisymm (not_lt.mp h1) (not_lt.mp h2)⟩, rfl⟩

theorem mem_insertEntry {m : IndexEntry α ε} (hs : xs.Pairwise fun a b => a.start<b.start) :
    m∈insertEntry e xs ↔ m∈xs ∨ (m=e ∧ ∀ x∈xs, x.start≠e.start) := by
  obtain ⟨⟨x, hx, hxe⟩, hs1⟩ | ⟨hf, hp⟩ := insertEntry_spec e hs
  · rw [hs1]
    exact (or_iff_left fun h => h.2 x hx hxe).symm
  · rw [hp.mem_iff, mem_cons, or_comm, and_iff_left hf]

theorem insertEntry_pairwise (hs : xs.Pairwise fun a b => a.start<b.start) :
    (insertEntry e xs).Pairwise fun a b => a.start<b.start := by
  induction xs with
  | nil => simp [insertEntry]
  | cons x xs ih =>
    obtain ⟨hx, hxs⟩ := pairwise_cons.mp hs
    simp only [insertEntry]
    split_ifs with h1 h2
    · refine pairwise_cons.mpr ⟨fun y hy => ?_, hs⟩
      obtain rfl | hy := mem_cons.mp hy
      · exact h1
      · exact lt_trans h1 (hx y hy)
    · refine pairwise_cons.mpr ⟨fun y hy => ?_, ih hxs⟩
      obtain hy | ⟨rfl, -⟩ := (mem_insertEntry hxs).mp hy
      · exact hx y hy
      · exact h2
    · exact hs

variable (size : ℕ)

theorem toList_insertNode (low high : α) (value : ε) (t : IntervalNode α ε) (ht : Ordered t) :
    toList (insertNode size low high value t).2=insertEntry ⟨low, high, value⟩ (toList t) := by
  induction t with
  | nil => rfl
  | node nl nh nm nv nht l r ihl ihr =>
    obtain ⟨hl, hr, hl1, hr1⟩ := ordered_node.mp ht
    simp only [insertNode]
    split_ifs with h1 h2
    · simp only [toList_rebalance, toList_refresh, toList_node, ihl hl]
      rw [insertEntry_append_left _ _ _ _ h1]
    · simp only [toList_rebalance, toList_refresh, toList_node, ihr hr]
      rw [insertEntry_append_right _ _ fun y hy => lt_trans (hl1 y hy) h2, insertEntry, if_neg h1, if_pos h2]
    · have he : nl=low := le_antisymm (not_lt.mp h1) (not_lt.mp h2)
      rw [toList_node, insertEntry_append_right _ _ fun y hy => he ▸ hl1 y hy, insertEntry, if_neg h1, if_neg h2]

variable {t : IntervalNode α ε}

theorem ordered_insertNode (low high : α) (value : ε) (ht : Ordered t)
    : Ordered (insertNode size low high value t).2 := by
  unfold Ordered
  rw [toList_insertNode size low high value t ht]
  exact insertEntry_pairwise ht

/-! ## Exact maxima -/

def WellMax : IntervalNode α ε → Prop
  | nil => True
  | node _ high m _ _ l r => m = getMax high l r ∧ WellMax l ∧ WellMax r

/-- The caches are exact and the heights of the children differ by one at most. -/
def Avl : IntervalNode α ε → Prop
  | nil => True
  | node _ high m _ ht l r => m = getMax high l r ∧ ht = max (getHeight l) (getHeight r)+1 ∧
      getHeight l ≤ getHeight r+1 ∧ getHeight r ≤ getHeight l+1 ∧ Avl l ∧ Avl r

theorem avl_refresh (hl : Avl l) (hr : Avl r) (hlr : getHeight l≤getHeight r+1) (hrl : getHeight r≤getHeight l+1) :
    Avl (refresh low high value l r) := ⟨rfl, rfl, hlr, hrl, hl, hr⟩

theorem Avl.wellMax (h : Avl t) : WellMax t := by
  induction t with
  | nil => trivial
  | node low high m value ht l r ihl ihr => exact ⟨h.1, ihl h.2.2.2.2.1, ihr h.2.2.2.2.2⟩

/-- The higher child is the one `low` belongs to. -/
def Leans (low : α) : IntervalNode α ε → Prop
  | nil => False
  | node nl _ _ _ _ l r => low < nl ∧ getHeight l = getHeight r+1 ∨ nl < low ∧ getHeight r = getHeight l+1

theorem getHeight_refresh : getHeight (refresh low high value l r)=max (getHeight l) (getHeight r)+1 := rfl

theorem rebalance_level (hlr : getHeight l≤getHeight r+1) (hrl : getHeight r≤getHeight l+1) (nl : α) :
    rebalance low (refresh nl high value l r)=refresh nl high value l r := by
  have hb : getBalance (refresh nl high value l r)=(getHeight l : ℤ)-getHeight r := rfl
  simp only [refresh, rebalance] at hb ⊢
  rw [if_neg (by omega), if_neg (by omega), if_neg (by omega), if_neg (by omega)]

section

variable {n : ℕ} {a b c d : IntervalNode α ε} {x xh y yh z zh : α} {xv yv zv : ε}

theorem avl_double (ha : Avl a) (hb : Avl b) (hc : Avl c) (hd : Avl d) (han : getHeight a=n) (hdn : getHeight d=n)
    (hm : max (getHeight b) (getHeight c)=n) (hbc : getHeight b≤getHeight c+1)
    (hcb : getHeight c≤getHeight b+1) : Avl (refresh x xh xv (refresh y yh yv a b) (refresh z zh zv c d)) ∧
      getHeight (refresh x xh xv (refresh y yh yv a b) (refresh z zh zv c d))=n+2 := by
  have hl : getHeight (refresh y yh yv a b)=n+1 := by rw [getHeight_refresh]; omega
  have hr : getHeight (refresh z zh zv c d)=n+1 := by rw [getHeight_refresh]; omega
  refine ⟨avl_refresh (avl_refresh ha hb ?_ ?_) (avl_refresh hc hd ?_ ?_) ?_ ?_, by rw [getHeight_refresh]; omega⟩ <;>
    omega

theorem avl_single (ha : Avl a) (hb : Avl b) (hc : Avl c) (hbn : getHeight b=n) : (getHeight a=n+1 → getHeight c=n →
    Avl (refresh x xh xv a (refresh y yh yv b c)) ∧ getHeight (refresh x xh xv a (refresh y yh yv b c))=n+2) ∧
    (getHeight c=n+1 → getHeight a=n →
      Avl (refresh x xh xv (refresh y yh yv a b) c) ∧ getHeight (refresh x xh xv (refresh y yh yv a b) c)=n+2) := by
  refine ⟨fun han hcn => ?_, fun hcn han => ?_⟩
  · have hr : getHeight (refresh y yh yv b c)=n+1 := by rw [getHeight_refresh]; omega
    refine ⟨avl_refresh ha (avl_refresh hb hc ?_ ?_) ?_ ?_, by rw [getHeight_refresh]; omega⟩ <;> omega
  · have hl : getHeight (refresh y yh yv a b)=n+1 := by rw [getHeight_refresh]; omega
    refine ⟨avl_refresh (avl_refresh ha hb ?_ ?_) hc ?_ ?_, by rw [getHeight_refresh]; omega⟩ <;> omega

end

theorem rebalance_left (hl : Avl l) (hr : Avl r) (h : getHeight l=getHeight r+2) (hl1 : Leans low l) (nl nh : α)
    (nv : ε) : Avl (rebalance low (refresh nl nh nv l r)) ∧ getHeight
    (rebalance low (refresh nl nh nv l r))=getHeight r+2 := by
  have hh : getBalance (refresh nl nh nv l r) > 1 := by
    change (getHeight l : ℤ)-getHeight r > 1
    omega
  rcases l with _ | ⟨ll, lh, lm, lv, lht, a, b⟩
  · cases hl1
  obtain ⟨-, hht, -, -, ha, hb⟩ := hl
  rw [getHeight] at h
  obtain ⟨hl2, hl1⟩ | ⟨hl2, hl1⟩ := hl1
  · have hr1 : rebalance low (refresh nl nh nv (node ll lh lm lv lht a b) r) =
        refresh ll lh lv a (refresh nl nh nv b r) := if_pos ⟨hh, decide_eq_true hl2⟩
    rw [hr1]
    exact (avl_single ha hb hr (by omega)).1 (by omega) rfl
  · rcases b with _ | ⟨bl, bh, bm, bv, bht, b1, b2⟩
    · cases hl1
    obtain ⟨-, hb3, h12, h21, hb1, hb2⟩ := hb
    have hr1 : rebalance low (refresh nl nh nv (node ll lh lm lv lht a (node bl bh bm bv bht b1 b2)) r) =
        refresh bl bh bv (refresh ll lh lv a b1) (refresh nl nh nv b2 r) :=
      (if_neg fun h => hl2.not_gt (of_decide_eq_true h.2)).trans
        ((if_neg fun h => absurd (hh.trans h.1) (by decide)).trans (if_pos ⟨hh, decide_eq_true hl2⟩))
    rw [getHeight] at hl1 hht
    rw [hr1]
    exact avl_double ha hb1 hb2 hr (by omega) rfl (by omega) h12 h21

theorem rebalance_right (hl : Avl l) (hr : Avl r) (h : getHeight r=getHeight l+2) (hl1 : Leans low r) (nl nh : α)
    (nv : ε) : Avl (rebalance low (refresh nl nh nv l r)) ∧ getHeight
    (rebalance low (refresh nl nh nv l r))=getHeight l+2 := by
  have hd : getBalance (refresh nl nh nv l r) < -1 := by
    change (getHeight l : ℤ)-getHeight r < -1
    omega
  have hs : ∀ b, ¬(getBalance (refresh nl nh nv l r) > 1 ∧ b) := fun b h => absurd (h.1.trans hd) (by decide)
  rcases r with _ | ⟨rl, rh, rm, rv, rht, a, b⟩
  · cases hl1
  obtain ⟨-, hht, -, -, ha, hb⟩ := hr
  rw [getHeight] at h
  obtain ⟨hl2, hl1⟩ | ⟨hl2, hl1⟩ := hl1
  · rcases a with _ | ⟨al, ah, am, av, aht, a1, a2⟩
    · cases hl1
    obtain ⟨-, ha3, h12, h21, ha1, ha2⟩ := ha
    have hr1 : rebalance low (refresh nl nh nv l (node rl rh rm rv rht (node al ah am av aht a1 a2) b)) =
        refresh al ah av (refresh nl nh nv l a1) (refresh rl rh rv a2 b) :=
      (if_neg (hs _)).trans ((if_neg fun h => hl2.not_gt (of_decide_eq_true h.2)).trans
        ((if_neg (hs _)).trans (if_pos ⟨hd, decide_eq_true hl2⟩)))
    rw [getHeight] at hl1 hht
    rw [hr1]
    exact avl_double hl ha1 ha2 hb rfl (by omega) (by omega) h12 h21
  · have hr1 : rebalance low (refresh nl nh nv l (node rl rh rm rv rht a b)) =
        refresh rl rh rv (refresh nl nh nv l a) b := (if_neg (hs _)).trans (if_pos ⟨hd, decide_eq_true hl2⟩)
    rw [hr1]
    exact (avl_single hl ha hb (by omega)).2 (by omega) rfl

/-- An insertion lets a tree grow by one level at most, and then on the side of the new node. -/
theorem avl_insertNode (size : ℕ) (low high : α) (value : ε) (h : Avl t) : Avl (insertNode size low high value t).2 ∧
      (getHeight (insertNode size low high value t).2=getHeight t ∨
        getHeight (insertNode size low high value t).2=getHeight t+1 ∧
          (t=nil ∨ Leans low (insertNode size low high value t).2)) := by
  induction t with
  | nil => exact ⟨⟨rfl, rfl, Nat.zero_le _, Nat.zero_le _, trivial, trivial⟩, .inr ⟨rfl, .inl rfl⟩⟩
  | node nl nh nm nv nht l r ihl ihr =>
    obtain ⟨hm, hht, hlr, hrl, hl, hr⟩ := h
    have ho : getHeight (node nl nh nm nv nht l r)=max (getHeight l) (getHeight r)+1 := hht
    rw [ho]
    simp only [insertNode]
    split_ifs with hl2 hl2'
    · obtain ⟨hi, hg⟩ := ihl hl
      generalize (insertNode size low high value l).2=l' at hi hg ⊢
      dsimp only
      by_cases ht1 : getHeight l'=getHeight r+2
      · obtain hs | ⟨hs1, rfl | hl1⟩ := hg
        · omega
        · rw [getHeight] at hs1
          omega
        · obtain ⟨hr1, hh⟩ := rebalance_left hi hr ht1 hl1 nl nh nv
          exact ⟨hr1, .inl (by omega)⟩
      · rw [rebalance_level (by omega) (by omega), getHeight_refresh]
        refine ⟨avl_refresh hi hr (by omega) (by omega), ?_⟩
        by_cases hs : max (getHeight l') (getHeight r)=max (getHeight l) (getHeight r)
        · exact .inl (by omega)
        · exact .inr ⟨by omega, .inr (.inl ⟨hl2, by omega⟩)⟩
    · obtain ⟨hi, hg⟩ := ihr hr
      generalize (insertNode size low high value r).2=r' at hi hg ⊢
      dsimp only
      by_cases ht1 : getHeight r'=getHeight l+2
      · obtain hs | ⟨hs1, rfl | hl1⟩ := hg
        · omega
        · rw [getHeight] at hs1
          omega
        · obtain ⟨hr1, hh⟩ := rebalance_right hl hi ht1 hl1 nl nh nv
          exact ⟨hr1, .inl (by omega)⟩
      · rw [rebalance_level (by omega) (by omega), getHeight_refresh]
        refine ⟨avl_refresh hl hi (by omega) (by omega), ?_⟩
        by_cases hs : max (getHeight l) (getHeight r')=max (getHeight l) (getHeight r)
        · exact .inl (by omega)
        · exact .inr ⟨by omega, .inr (.inr ⟨hl2', by omega⟩)⟩
    · exact ⟨⟨hm, hht, hlr, hrl, hl, hr⟩, .inl hht⟩

theorem le_getMax {x : α} : x≤getMax high l r ↔ x≤high ∨ maxReaches x l=true ∨ maxReaches x r=true := by
  cases l <;> cases r <;> simp [getMax, maxReaches, or_assoc]

theorem maxReaches_iff (x : α) (h : WellMax t) : maxReaches x t=true ↔ ∃ e∈toList t, x≤e.stop := by
  induction t with
  | nil => simp [maxReaches]
  | node low high m value ht l r ihl ihr =>
    obtain ⟨rfl, hl, hr⟩ := h
    rw [maxReaches, decide_eq_true_iff, le_getMax, ihl hl, ihr hr]
    simp only [mem_node]
    constructor
    · rintro (hx | ⟨e, he, hx⟩ | ⟨e, he, hx⟩)
      · exact ⟨_, .inr (.inl rfl), hx⟩
      · exact ⟨e, .inl he, hx⟩
      · exact ⟨e, .inr (.inr he), hx⟩
    · rintro ⟨e, he | rfl | he, hx⟩
      · exact .inr (.inl ⟨e, he, hx⟩)
      · exact .inl hx
      · exact .inr (.inr ⟨e, he, hx⟩)

/-! ## What a search finds -/

def HasLow (k : α) (t : IntervalNode α ε) : Prop := ∃ e ∈ toList t, e.start = k

/-- The node with lower bound `k` is an ancestor of the one with lower bound `j`, or the two hang
below a common node, `k` on its left and `j` on its right. When both contain the address, this is
the order in which a search meets them. -/
def Precedes (k j : α) : IntervalNode α ε → Prop
  | nil => False
  | node low _ _ _ _ l r =>
    low = k ∨ (low≠j ∧ HasLow k l ∧ (HasLow j l → Precedes k j l)) ∨ (low≠j ∧ HasLow k r ∧ HasLow j r ∧ Precedes k j r)

/-- The search fails only when nothing contains the address; otherwise it returns a containing
entry that precedes every other one. -/
theorem searchNode_spec (addr : α) (ho : Ordered t) (hm : WellMax t) :
    (searchNode addr t=none ∧ ∀ e∈toList t, ¬e.Contains addr) ∨
      ∃ e∈toList t, searchNode addr t=some e.value ∧ e.Contains addr ∧
        ∀ f∈toList t, f.Contains addr → f.start≠e.start → Precedes e.start f.start t := by
  induction t with
  | nil => exact .inl ⟨rfl, by simp⟩
  | node low high m value ht l r ihl ihr =>
    obtain ⟨hol, hor, hl1, hr1⟩ := ordered_node.mp ho
    by_cases hh : low≤addr ∧ addr≤high
    · refine .inr ⟨⟨low, high, value⟩, by simp, by cases l <;> simp [searchNode, hh], hh, ?_⟩
      exact fun f _ _ _ => .inl rfl
    -- the search descends left exactly when some entry there reaches up to the address
    have hgo : searchNode addr (node low high m value ht l r) = if ∃ e∈toList l, addr≤e.stop then searchNode addr l
        else searchNode addr r := by
      cases l with
      | nil => simp [searchNode, hh]
      | node _ _ lmax _ _ _ _ =>
        simp only [searchNode, if_neg hh]
        simp only [←maxReaches_iff addr hm.2.1, maxReaches, decide_eq_true_iff]
    by_cases hl : ∃ e∈toList l, addr≤e.stop
    · rw [hgo, if_pos hl]
      obtain ⟨hs, hno⟩ | ⟨e, he, hs, hc, hp⟩ := ihl hol hm.2.1
      · refine .inl ⟨hs, ?_⟩
        obtain ⟨e, he, hae⟩ := hl
        have ha : addr<low := lt_trans (not_le.mp fun hle => hno e he ⟨hle, hae⟩) (hl1 e he)
        intro f hf hcf
        obtain hf | rfl | hf := mem_node.mp hf
        · exact hno f hf hcf
        · exact hh hcf
        · exact absurd hcf.1 (not_le.mpr (lt_trans ha (hr1 f hf)))
      · refine .inr ⟨e, by simp [he], hs, hc, fun f hf hcf hne => .inr (.inl ?_)⟩
        refine ⟨?_, ⟨e, he, rfl⟩, ?_⟩
        · intro hl2
          obtain hf | rfl | hf := mem_node.mp hf
          · exact ne_of_gt (hl1 f hf) hl2
          · exact hh hcf
          · exact ne_of_lt (hr1 f hf) hl2
        · intro h
          obtain ⟨g, hg, hgf⟩ := h
          have hfl : f∈toList l := by
            obtain hf | rfl | hf := mem_node.mp hf
            · exact hf
            · exact absurd (hgf ▸ hl1 g hg) (lt_irrefl _)
            · exact absurd (lt_trans (hgf ▸ hl1 g hg) (hr1 f hf)) (lt_irrefl _)
          exact hp f hfl hcf hne
    · rw [hgo, if_neg hl]
      have hnl : ∀ f∈toList l, ¬f.Contains addr := fun f hf hcf => hl ⟨f, hf, hcf.2⟩
      obtain ⟨hs, hno⟩ | ⟨e, he, hs, hc, hp⟩ := ihr hor hm.2.2
      · refine .inl ⟨hs, fun f hf hcf => ?_⟩
        obtain hf | rfl | hf := mem_node.mp hf
        · exact hnl f hf hcf
        · exact hh hcf
        · exact hno f hf hcf
      · refine .inr ⟨e, by simp [he], hs, hc, fun f hf hcf hne => .inr (.inr ?_)⟩
        obtain hf | rfl | hf := mem_node.mp hf
        · exact absurd hcf (hnl f hf)
        · exact absurd hcf hh
        · exact ⟨ne_of_lt (hr1 f hf), ⟨e, he, rfl⟩, ⟨f, hf, rfl⟩, hp f hf hcf hne⟩

theorem not_hasLow_both {k : α} (ho : Ordered (node low high m value ht l r)) : ¬(HasLow k l ∧ HasLow k r) := by
  obtain ⟨_, _, hl1, hr1⟩ := ordered_node.mp ho
  intro h
  obtain ⟨⟨e, he, rfl⟩, ⟨f, hf, hfe⟩⟩ := h
  exact lt_irrefl _ (lt_trans (hl1 e he) (hfe ▸ hr1 f hf))

theorem precedes_asymm (ho : Ordered t) {k j : α} (hkj : k≠j) (h1 : Precedes k j t) (h2 : Precedes j k t) : False := by
  induction t with
  | nil => exact h1
  | node low high m value ht l r ihl ihr =>
    obtain ⟨hol, hor, -, -⟩ := ordered_node.mp ho
    obtain rfl | ⟨hj, hkl, h1⟩ | ⟨hj, hkr, hjr, h1⟩ := h1
    · obtain h2 | ⟨h2, -⟩ | ⟨h2, -⟩ := h2
      · exact hkj h2
      · exact h2 rfl
      · exact h2 rfl
    · obtain h2 | ⟨-, hjl, h2⟩ | ⟨-, hjr, hkr, -⟩ := h2
      · exact hj h2
      · exact ihl hol (h1 hjl) (h2 hkl)
      · exact not_hasLow_both ho ⟨hkl, hkr⟩
    · obtain h2 | ⟨-, hjl, -⟩ | ⟨-, -, -, h2⟩ := h2
      · exact hj h2
      · exact not_hasLow_both ho ⟨hjl, hjr⟩
      · exact ihr hor h1 h2

theorem eq_of_start (ho : Ordered t) {f : IndexEntry α ε} (he : e∈toList t) (hf : f∈toList t)
    (h : e.start=f.start) : e=f := by
  have hn : ((toList t).map (·.start)).Nodup := pairwise_map.mpr (ho.imp ne_of_lt)
  exact inj_on_of_nodup_map hn he hf h

theorem searchNode_iff (addr : α) (v : ε) (ho : Ordered t) (hm : WellMax t) :
    searchNode addr t=some v ↔ ∃ e∈toList t, e.value=v ∧ e.Contains addr ∧
      ∀ f∈toList t, f.Contains addr → f.start≠e.start → Precedes e.start f.start t := by
  obtain ⟨hs, hno⟩ | ⟨e, he, hs, hc, hp⟩ := searchNode_spec addr ho hm
  · rw [hs]
    refine ⟨nofun, ?_⟩
    intro hx
    obtain ⟨e, he, -, hc, -⟩ := hx
    exact absurd hc (hno e he)
  · rw [hs]
    constructor
    · intro h
      exact ⟨e, he, Option.some.inj h, hc, hp⟩
    · intro hx
      obtain ⟨f, hf, rfl, hcf, hpf⟩ := hx
      by_cases hef : e.start=f.start
      · rw [eq_of_start ho he hf hef]
      · exact (precedes_asymm ho hef (hp f hf hcf (Ne.symm hef)) (hpf e he hc hef)).elim

/-! ## Accepted intervals -/

theorem searchRangeNode_perm (low high : α) (ho : Ordered t) (hm : WellMax t) : (searchRangeNode low high t).Perm
    (((toList t).filter fun e => low≤e.stop ∧ e.start≤high).map IndexEntry.value) := by
  induction t with
  | nil => exact .nil
  | node nl nh m value ht l r ihl ihr =>
    obtain ⟨hol, hor, -, hr1⟩ := ordered_node.mp ho
    have hs : ∀ t : IntervalNode α ε, (∀ e∈toList t, ¬(low≤e.stop ∧ e.start≤high)) →
        ([] : List ε).Perm (((toList t).filter fun e => low≤e.stop ∧ e.start≤high).map IndexEntry.value) := by
      intro t hn
      rw [filter_eq_nil_iff.mpr (by simpa using hn)]
      rfl
    have hl : (if maxReaches low l then searchRangeNode low high l else []).Perm
        (((toList l).filter fun e => low≤e.stop ∧ e.start≤high).map IndexEntry.value) := by
      split_ifs with hr
      · exact ihl hol hm.2.1
      · exact hs l fun e he h => hr ((maxReaches_iff low hm.2.1).mpr ⟨e, he, h.1⟩)
    have hr2 : (if nl≤high then searchRangeNode low high r else []).Perm
        (((toList r).filter fun e => low≤e.stop ∧ e.start≤high).map IndexEntry.value) := by
      split_ifs with hr
      · exact ihr hor hm.2.2
      · exact hs r fun e he h => hr ((hr1 e he).le.trans h.2)
    rw [searchRangeNode, toList_node, filter_append, map_append, filter_cons]
    by_cases hm1 : low≤nh ∧ nl≤high
    · rw [if_pos hm1, if_pos (decide_eq_true hm1)]
      exact ((hl.append hr2).cons value).trans perm_middle.symm
    · rw [if_neg hm1, if_neg fun h => hm1 (of_decide_eq_true h)]
      exact hl.append hr2

theorem length_insertNode (size : ℕ) (low high : α) (value : ε) (t : IntervalNode α ε) :
    (insertNode size low high value t).1+(toList t).length =
      size+(toList (insertNode size low high value t).2).length := by
  induction t with
  | nil => rfl
  | node nl nh nm nv nht l r ihl ihr =>
    simp only [insertNode]
    split_ifs
    · simp
      omega
    · simp
      omega
    · rfl

end IntervalNode

namespace IntervalTree
variable {α ε : Type} [LinearOrder α]

open IntervalNode

variable {t : IntervalTree α ε}

theorem insert_cases (ho : Ordered t.root) (e : IndexEntry α ε) :
    ((t.insert e.start e.stop e.value).1=false ∧ toList (t.insert e.start e.stop e.value).2.root=toList t.root ∧
        (e.stop<e.start ∨ ∃ x∈toList t.root, x.start=e.start)) ∨ ((t.insert e.start e.stop e.value).1=true ∧
        (toList (t.insert e.start e.stop e.value).2.root).Perm (e::toList t.root)) := by
  rw [insert]
  split_ifs with he
  · exact .inl ⟨rfl, rfl, .inl he⟩
  have hl := length_insertNode t.size e.start e.stop e.value t.root
  rw [toList_insertNode t.size e.start e.stop e.value t.root ho] at hl ⊢
  obtain ⟨ht1, hs⟩ | ⟨-, hp⟩ := insertEntry_spec e ho
  · refine .inl ⟨decide_eq_false ?_, hs, .inr ht1⟩
    rw [hs] at hl
    omega
  · refine .inr ⟨decide_eq_true ?_, hp⟩
    rw [hp.length_eq, length_cons] at hl
    omega

def insertAll (es : List (IndexEntry α ε)) : IntervalTree α ε × List (IndexEntry α ε) :=
  es.foldl (fun s e => ((s.1.insert e.start e.stop e.value).2,
    if (s.1.insert e.start e.stop e.value).1 then e::s.2 else s.2)) (empty, [])

/-- A balanced search tree of the accepted entries. -/
structure Holds (t : IntervalTree α ε) (accepted : List (IndexEntry α ε)) : Prop where
  ordered : Ordered t.root
  avl : Avl t.root
  entries : (toList t.root).Perm accepted

theorem Holds.insert {accepted : List (IndexEntry α ε)} (h : Holds t accepted)
    (e : IndexEntry α ε) : Holds (t.insert e.start e.stop e.value).2
      (if (t.insert e.start e.stop e.value).1 then e::accepted else accepted) := by
  have hr : Ordered (t.insert e.start e.stop e.value).2.root ∧ Avl (t.insert e.start e.stop e.value).2.root := by
    rw [IntervalTree.insert]
    split_ifs
    · exact ⟨h.ordered, h.avl⟩
    · exact ⟨ordered_insertNode _ _ _ _ h.ordered, (avl_insertNode _ _ _ _ h.avl).1⟩
  refine ⟨hr.1, hr.2, ?_⟩
  obtain ⟨hno, hs, -⟩ | ⟨hy, hp⟩ := insert_cases h.ordered e
  · rw [hno, hs]
    exact h.entries
  · rw [hy]
    exact hp.trans (h.entries.cons e)

theorem holds_insertAll (es : List (IndexEntry α ε)) : Holds (insertAll es).1 (insertAll es).2 :=
  foldlRecOn es _ (motive := fun s : IntervalTree α ε×List (IndexEntry α ε) => Holds s.1 s.2) ⟨.nil, trivial, .nil⟩
    fun _ h e _ => h.insert e

/-- However intervals overlap: the tree is a balanced search tree with exact caches of what was accepted; an insertion
is refused only for a low end that lies above the high end or is stored; a search finds an interval whenever one
contains the address, and a range search finds all that meet the range, each once. -/
theorem interval_tree_law (es : List (IndexEntry α ε)) : Holds (insertAll es).1 (insertAll es).2 ∧
      (∀ e : IndexEntry α ε, ((insertAll es).1.insert e.start e.stop e.value).1 = false →
        e.stop < e.start ∨ ∃ x ∈ (insertAll es).2, x.start = e.start) ∧
      (∀ address, ((insertAll es).1.search address = none ↔ ∀ e ∈ (insertAll es).2, ¬e.Contains address) ∧
        ∀ v, (insertAll es).1.search address = some v → ∃ e ∈ (insertAll es).2, e.Contains address ∧ e.value = v) ∧
      ∀ low high, ((insertAll es).1.searchRange low high).Perm
        (((insertAll es).2.filter fun e => low ≤ e.stop ∧ e.start ≤ high).map IndexEntry.value) := by
  have h := holds_insertAll es
  refine ⟨h, fun e hno => ?_, fun address => ?_, fun low high => ?_⟩
  · obtain ⟨-, -, hw⟩ | ⟨hy, -⟩ := insert_cases h.ordered e
    · simpa only [← h.entries.mem_iff] using hw
    · exact absurd (hy.symm.trans hno) nofun
  · simp only [← h.entries.mem_iff]
    obtain ⟨hs, hno⟩ | ⟨e, he, hs, hc, -⟩ := searchNode_spec address h.ordered h.avl.wellMax
    · exact ⟨iff_of_true hs hno, fun v hv => absurd (hs.symm.trans hv) nofun⟩
    · refine ⟨iff_of_false (fun hn => absurd (hs.symm.trans hn) nofun) fun hno => hno e he hc, fun v hv => ?_⟩
      exact ⟨e, he, hc, Option.some.inj (hs.symm.trans hv)⟩
  · exact (searchRangeNode_perm low high h.ordered h.avl.wellMax).trans ((h.entries.filter _).map _)

/-- Nested intervals are stored side by side; the start that is taken is refused. -/
theorem interval_tree_nested :
    (insertAll [⟨1, 9, 0⟩, ⟨2, 3, 1⟩, ⟨1, 4, 2⟩]).2 = [⟨2, 3, 1⟩, (⟨1, 9, 0⟩ : IndexEntry ℕ ℕ)] ∧
    ((insertAll [⟨1, 9, 0⟩, ⟨2, 3, 1⟩, ⟨1, 4, 2⟩]).1.searchRange 3 5).Perm [1, 0] :=
  ⟨by decide, (interval_tree_law [⟨1, 9, 0⟩, ⟨2, 3, 1⟩, ⟨1, 4, 2⟩]).2.2.2 3 5⟩

end IntervalTree
end Faultloggerd.Minidump
