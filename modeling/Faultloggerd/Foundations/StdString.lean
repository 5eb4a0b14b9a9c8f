import Mathlib.Data.List.Basic

/-! # Searching in strings

`search` gives the first place at which a string occurs in another one.
-/
namespace Faultloggerd.Foundations.StdString
open List Option

def search (needle : List Char) : List Char → Option ℕ
  | [] => if needle = [] then some 0 else none
  | x :: s => if needle.isPrefixOf (x :: s) then some 0 else (search needle s).map (· + 1)

variable {needle s : List Char} {pos : ℕ}

theorem search_append (s t : List Char) : (search needle (s++(needle++t))).isSome := by
  induction s with
  | nil =>
    cases h : needle++t with
    | nil =>
      rw [append_eq_nil_iff] at h
      simp [search, h.1]
    | cons x u =>
      have hp : needle.isPrefixOf (x::u)=true := by grind
      simp [search, hp]
  | cons x s ih =>
    rw [cons_append, search]
    split
    · rfl
    · rwa [isSome_map]

theorem search_eq_some_iff (hn : needle≠[]) : search needle s=some pos ↔
    needle <+: s.drop pos ∧ ∀ i<pos, ¬needle <+: s.drop i := by
  induction s generalizing pos with
  | nil => simp [search, hn]
  | cons x s ih =>
    rw [search]
    split_ifs with hp
    · rw [ isPrefixOf_iff_prefix] at hp
      refine ⟨fun h => ?_, fun h => ?_⟩
      · cases h
        exact ⟨hp, nofun⟩
      · cases pos with
        | zero => rfl
        | succ pos => exact absurd hp (h.2 0 pos.succ_pos)
    · rw [ isPrefixOf_iff_prefix] at hp
      cases pos with
      | zero => simpa using hp
      | succ pos =>
        rw [map_eq_some_iff]
        simp only [Nat.add_right_cancel_iff, exists_eq_right, ih, drop_succ_cons]
        refine and_congr_right fun _ => ⟨fun h i hi => ?_, fun h i hi => h (i+1) (by omega)⟩
        cases i with
        | zero => exact hp
        | succ i => exact h i (by omega)

theorem search_isSome_iff (hn : needle≠[]) : (search needle s).isSome ↔ needle <:+: s := by
  constructor
  · intro h
    obtain ⟨pos, hp⟩ := isSome_iff_exists.mp h
    exact ((search_eq_some_iff hn).mp hp).1.isInfix.trans (drop_suffix _ _).isInfix
  · rintro ⟨u, v, rfl⟩
    rw [append_assoc]
    exact search_append u v

theorem eq_of_search (hn : needle≠[]) (h : search needle s=some pos) :
    s=s.take pos++needle++s.drop (pos+needle.length) := by
  obtain ⟨t, ht⟩ := ((search_eq_some_iff hn).mp h).1
  rw [←drop_drop, ←ht, drop_left, append_assoc, ht, take_append_drop]

end Faultloggerd.Foundations.StdString
