import Mathlib.Data.List.Basic

/-! # Singly linked chains

The cells that a chain of `next` pointers visits between two pointers, and what is left of a chain when pointers change.
-/
namespace Faultloggerd.Foundations
open List Option

variable {β : Type}

/-- From the pointer `p` the chain visits the cells `xs` and then points to `q`. -/
def Chain (next : β → Option β) : Option β → List β → Option β → Prop
  | p, [], q => p = q
  | p, x :: xs, q => p = some x ∧ Chain next (next x) xs q

def nextOf (next : β → Option β) (first : Option β) : Option β → Option β
  | none => first
  | some x => next x

def lastFrom (p : Option β) : List β → Option β
  | [] => p
  | x :: xs => lastFrom (some x) xs

variable {next next' : β → Option β} {p q q' first : Option β} {xs ys : List β} {x z : β}

theorem chain_append : Chain next p (xs++ys) q ↔ ∃ m, Chain next p xs m ∧ Chain next m ys q := by
  induction xs generalizing p with
  | nil =>
    constructor
    · exact fun h => ⟨p, rfl, h⟩
    · rintro ⟨m, rfl, h⟩
      exact h
  | cons x xs ih =>
    constructor
    · rintro ⟨hp, h⟩
      obtain ⟨m, hxs, hys⟩ := ih.mp h
      exact ⟨m, ⟨hp, hxs⟩, hys⟩
    · rintro ⟨m, ⟨hp, hxs⟩, hys⟩
      exact ⟨hp, ih.mpr ⟨m, hxs, hys⟩⟩

namespace Chain

theorem congr (h : Chain next p xs q) (hs : ∀ x∈xs, next' x=next x) : Chain next' p xs q := by
  induction xs generalizing p with
  | nil => exact h
  | cons x xs ih =>
    refine ⟨h.1, ?_⟩
    rw [hs x mem_cons_self]
    exact ih h.2 fun y hy => hs y (mem_cons_of_mem x hy)

theorem relink (h : Chain next p (xs++[z]) q) (hs : ∀ x∈xs, next' x=next x) (hz : next' z=q') :
    Chain next' p (xs++[z]) q' := by
  obtain ⟨m, hxs, hm, -⟩ := chain_append.mp h
  exact chain_append.mpr ⟨m, hxs.congr hs, hm, hz⟩

theorem advance {m : Option β} {y c : β} (hp : Chain next m (xs++[c]) (some y)) (hr : Chain next (next y) ys q)
    (hy : next' y=m) (hc : next' c=next y) (hs : ∀ x∈xs++ys, next' x=next x) :
    Chain next' (some y) (y::(xs++[c]++ys)) q := by
  refine ⟨rfl, ?_⟩
  rw [hy]
  refine chain_append.mpr ⟨next y, hp.relink (fun x hx => hs x (mem_append_left ys hx)) hc, ?_⟩
  exact hr.congr fun x hx => hs x (mem_append_right xs hx)

theorem nextOf_lastFrom (h : Chain next (nextOf next first p) xs q) : nextOf next first (lastFrom p xs)=q := by
  induction xs generalizing p with
  | nil => exact h
  | cons x xs ih => exact ih h.2

theorem start_eq_head (h : Chain next p xs none) : p=xs.head? := by
  cases xs with
  | nil => exact h
  | cons x xs => exact h.1

end Chain

theorem lastFrom_append (p : Option β) (xs : List β) (z : β) : lastFrom p (xs++[z])=some z := by
  induction xs generalizing p with
  | nil => rfl
  | cons x xs ih => exact ih (some x)

theorem lastFrom_mem (h : lastFrom none xs=some z) : z∈xs := by
  rcases eq_nil_or_concat' xs with rfl | ⟨xs, y, rfl⟩
  · cases h
  · rw [lastFrom_append] at h
    obtain rfl := some.inj h
    exact mem_append_right xs mem_cons_self

section Move

variable {front rear after : List β} {last node : β}

theorem Chain.nextOf_ne (h : Chain next first (front++(rear++[last])++node::after) none)
    (hn1 : (front++(rear++[last])++node::after).Nodup) : nextOf next first (lastFrom none front)≠some node := by
  obtain ⟨_, hp, rfl, -⟩ := chain_append.mp h
  obtain ⟨m, hf, hr⟩ := chain_append.mp hp
  have hm : nextOf next first (lastFrom none front)=m := Chain.nextOf_lastFrom (p := none) hf
  have hn : node ∉ rear++[last] := by grind
  rw [hm]
  rintro rfl
  cases rear with
  | nil | cons x rear => exact hn (some.inj hr.1 ▸ mem_cons_self)

theorem Chain.move (h : Chain next first (front++(rear++[last])++node::after) none)
    (hn : (front++(rear++[last])++node::after).Nodup) {start : Option β}
    (hl : next' last=next node) (hn1 : next' node=nextOf next first (lastFrom none front))
    (hp : nextOf next' start (lastFrom none front)=some node) (hs1 : lastFrom none front=none ∨ start=first)
    (hs : ∀ x, x≠last → x≠node → lastFrom none front≠some x → next' x=next x) :
    Chain next' start (front++node::(rear++[last]++after)) none := by
  obtain ⟨_, hp1, rfl, ha⟩ := chain_append.mp h
  obtain ⟨m, hf, hr⟩ := chain_append.mp hp1
  have hm : nextOf next first (lastFrom none front)=m := Chain.nextOf_lastFrom (p := none) hf
  obtain ⟨ho, hf1⟩ : (∀ x∈rear++after, x≠last ∧ x≠node ∧ x ∉ front) ∧ ∀ x∈front, x≠last ∧ x≠node := by
    grind
  have ht : Chain next' (some node) (node::(rear++[last]++after)) none := by
    refine hr.advance ha (hn1.trans hm) hl fun x hx => ?_
    obtain ⟨hx1, hx2, hx3⟩ := ho x hx
    exact hs x hx1 hx2 fun heq => hx3 (lastFrom_mem heq)
  rcases eq_nil_or_concat' front with rfl | ⟨front, z, rfl⟩
  · rw [show start=some node from hp]
    exact ht
  · rw [lastFrom_append] at hp hs1 hs
    obtain rfl := hs1.resolve_left nofun
    refine chain_append.mpr ⟨some node, hf.relink (fun x hx => ?_) hp, ht⟩
    obtain ⟨hx1, hx2⟩ := hf1 x (mem_append_left [z] hx)
    refine hs x hx1 hx2 fun heq => ?_
    obtain rfl := some.inj heq
    have hz := (nodup_append.mp (nodup_append.mp hn).1).1
    exact (nodup_append.mp hz).2.2 _ hx _ mem_cons_self rfl

end Move

end Faultloggerd.Foundations
