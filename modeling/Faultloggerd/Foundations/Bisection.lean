import Mathlib.Order.Lattice

/-! # Bisection

A search in an increasing table for the last key that is not above a given one. What is known of the keys outside the
window that is still searched is an invariant that each comparison narrows.
-/
namespace Faultloggerd.Foundations.Bisection

variable {α : Type} [LinearOrder α]

def Increasing (keys : ℕ → α) (n : ℕ) : Prop := ∀ i j, i < j → j < n → keys i < keys j

/-- Keys before the window are smaller than the one that is searched, keys behind it are greater. -/
structure Window (keys : ℕ → α) (key : α) (n low high : ℕ) : Prop where
  le : low ≤ high
  bound : high ≤ n
  before : ∀ i < low, keys i < key
  behind : ∀ i, high ≤ i → i < n → key < keys i

structure IsLast (keys : ℕ → α) (key : α) (n i : ℕ) : Prop where
  lt : i < n
  le : keys i ≤ key
  last : ∀ j < n, keys j ≤ key → j ≤ i

variable {keys : ℕ → α} {key : α} {n low high cur i j : ℕ}

theorem Window.start : Window keys key n 0 n where
  le := Nat.zero_le n
  bound := Nat.le_refl n
  before := nofun
  behind _ hle hlt := absurd hlt (Nat.not_lt.mpr hle)

section

variable (h : Window keys key n low high)
include h

theorem Window.lower (hi : Increasing keys n) (hl : low≤ cur) (hc : cur<high)
    (hk : key<keys cur) : Window keys key n low cur where
  le := hl
  bound := Nat.le_of_lt (Nat.lt_of_lt_of_le hc h.bound)
  before := h.before
  behind i hle hlt := by
    rcases Nat.eq_or_lt_of_le hle with rfl | hgt
    · exact hk
    · exact hk.trans (hi cur i hgt hlt)

theorem Window.upper (hi1 : Increasing keys n) (hc : cur<high)
    (hk : keys cur<key) : Window keys key n (cur+1) high where
  le := hc
  bound := h.bound
  before i hi := by
    rcases Nat.eq_or_lt_of_le (Nat.le_of_lt_succ hi) with rfl | hlt
    · exact hk
    · exact (hi1 i cur hlt (Nat.lt_of_lt_of_le hc h.bound)).trans hk
  behind := h.behind

theorem Window.isLast (he : ¬low<high) (hp : high≠0) : IsLast keys key n (high-1) := by
  have hb := h.bound
  refine ⟨by omega, (h.before _ (by omega)).le, fun j hj hle => ?_⟩
  by_contra hgt
  exact absurd hle (not_le.mpr (h.behind j (by omega) hj))

theorem Window.none_of_empty (hh : high=0) : ∀ i<n, key<keys i := fun i hi => h.behind i (by omega) hi

end

theorem isLast_of_eq (hi : Increasing keys n) (hc : cur<n) (heq : keys cur=key) : IsLast keys key n cur := by
  refine ⟨hc, heq.le, fun j hj hle => ?_⟩
  by_contra hgt
  have hlt := hi cur j (by omega) hj
  rw [heq] at hlt
  exact absurd hle (not_le.mpr hlt)

theorem IsLast.unique (hi : IsLast keys key n i) (hj : IsLast keys key n j) : i=j :=
  Nat.le_antisymm (hj.last i hi.lt hi.le) (hi.last j hj.lt hj.le)

end Faultloggerd.Foundations.Bisection
