import Mathlib.Data.Nat.Notation

/-! # Memory with holes

A memory answers for the cells that can be read. What a copy got is compared with it cell by cell.
-/
namespace Faultloggerd.Foundations.PartialMemory
open List Option

variable {α : Type} {mem : ℕ → Option α} {a n k : ℕ} {l r : List α}

def Readable (mem : ℕ → Option α) (a n : ℕ) : Prop := ∀ i < n, (mem (a+i)).isSome

instance (mem : ℕ → Option α) (a n : ℕ) : Decidable (Readable mem a n) :=
  inferInstanceAs (Decidable (∀ i<n, _))

def Agrees (mem : ℕ → Option α) (a : ℕ) (l : List α) : Prop := ∀ i b, l[i]? = some b → mem (a+i) = some b

theorem readable_add_iff : Readable mem a (n+k) ↔ Readable mem a n ∧ Readable mem (a+n) k := by
  constructor
  · intro h
    refine ⟨fun i hi => h i (by omega), fun i hi => ?_⟩
    have hc := h (n+i) (by omega)
    rwa [←Nat.add_assoc] at hc
  · rintro ⟨hn, hk⟩ i hi
    by_cases hl : i<n
    · exact hn i hl
    · have hc := hk (i-n) (by omega)
      rwa [show a+n+(i-n)=a+i by omega] at hc

theorem Readable.inside {b : ℕ} (h : Readable mem a n) (hs : a≤b) (he : b+k≤a+n) : Readable mem b k := by
  intro i hi
  have hc := h (b-a+i) (by omega)
  rwa [show a+(b-a+i)=b+i by omega] at hc

theorem agrees_nil : Agrees mem a [] := nofun

theorem Agrees.readable (h : Agrees mem a l) : Readable mem a l.length := by
  intro i hi
  rw [h i l[i] (getElem?_eq_getElem hi)]
  rfl

theorem Agrees.append (hl : Agrees mem a l) (hr : Agrees mem (a+l.length) r) : Agrees mem a (l++r) := by
  intro i b hi
  by_cases hl1 : i<l.length
  · rw [getElem?_append_left hl1] at hi
    exact hl i b hi
  · rw [getElem?_append_right (by omega)] at hi
    have hc := hr (i-l.length) b hi
    rwa [show a+l.length+(i-l.length)=a+i by omega] at hc

theorem Agrees.take (h : Agrees mem a l) (k : ℕ) : Agrees mem a (l.take k) := by
  intro i b hi
  rw [getElem?_take] at hi
  split at hi
  · exact h i b hi
  · cases hi

theorem Agrees.drop (h : Agrees mem a l) (k : ℕ) : Agrees mem (a+k) (l.drop k) := by
  intro i b hi
  rw [getElem?_drop] at hi
  have hc := h (k+i) b hi
  rwa [←Nat.add_assoc] at hc

theorem Agrees.unique (hl : Agrees mem a l) (hr : Agrees mem a r) (hl1 : l.length=r.length) : l=r := by
  apply ext_getElem hl1
  intro i hi hi'
  have hc := hl i l[i] (getElem?_eq_getElem hi)
  rw [hr i r[i] (getElem?_eq_getElem hi')] at hc
  exact (some.inj hc).symm

def cells (mem : ℕ → Option α) (d : α) (a n : ℕ) : List α := (List.range n).map fun i => (mem (a+i)).getD d

theorem length_cells (d : α) : (cells mem d a n).length=n := by
  rw [cells, length_map, length_range]

theorem Readable.agrees_cells (h : Readable mem a n) (d : α) : Agrees mem a (cells mem d a n) := by
  intro i b hi
  rw [cells, List.getElem?_map] at hi
  obtain ⟨k, hk, rfl⟩ := map_eq_some_iff.mp hi
  obtain ⟨hlt, rfl⟩ := List.getElem?_eq_some_iff.mp hk
  rw [length_range] at hlt
  obtain ⟨c, hc⟩ := isSome_iff_exists.mp (h i hlt)
  rw [getElem_range, hc, getD_some]

end Faultloggerd.Foundations.PartialMemory
