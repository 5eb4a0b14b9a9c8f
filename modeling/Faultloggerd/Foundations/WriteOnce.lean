import Mathlib.Data.List.Basic

/-! # Write-once slots

A memory of slots that start empty and are only written by a compare-exchange against the empty
value, so a filled slot never changes. A value is inserted by trying the slots of a probe sequence
in order until one is empty or holds the value already.

Everything here is stable when other writers fill further slots (`Extends`), which is what an
argument about interleaved insertions needs: two insertions of one value along one probe sequence
settle in the same slot, whoever writes in between (`Settled.unique`).
-/
namespace Faultloggerd.Foundations.WriteOnce
open List

variable {ι α : Type} {empty : α} {m m' m'' : ι → α}

def Extends (empty : α) (m m' : ι → α) : Prop := ∀ i, m i ≠ empty → m' i = m i

theorem Extends.refl (m : ι → α) : Extends empty m m := fun _ _ => rfl

theorem Extends.trans (h : Extends empty m m') (h' : Extends empty m' m'') : Extends empty m m'' := by
  intro i hi
  rw [h' i (by rwa [h i hi]), h i hi]

theorem extends_update [DecidableEq ι] {i : ι} (v : α) (hi : m i=empty) : Extends empty m (Function.update m i v) := by
  intro j hj
  refine Function.update_of_ne ?_ _ _
  rintro rfl
  exact hj hi

/-- The insertion of `v` has tried these slots and found each of them taken by another value. -/
def Passed (empty : α) (m : ι → α) (v : α) (slots : List ι) : Prop :=
  ∀ i ∈ slots, m i ≠ empty ∧ m i ≠ v

variable {v : α} {probes slots : List ι}

theorem Passed.mono (h : Passed empty m v slots) (hm : Extends empty m m') : Passed empty m' v slots := by
  intro i hi
  obtain ⟨hne, hv⟩ := h i hi
  rw [hm i hne]
  exact ⟨hne, hv⟩

theorem Passed.concat {i : ι} (h : Passed empty m v slots)
    (hne : m i≠empty) (hv : m i≠v) : Passed empty m v (slots++[i]) := by
  intro j hj
  obtain hj | hj := mem_append.mp hj
  · exact h j hj
  · rw [mem_singleton.mp hj]
    exact ⟨hne, hv⟩

def Settled (empty : α) (m : ι → α) (v : α) (probes : List ι) (i : ι) : Prop :=
  m i = v ∧ ∃ pre post, probes = pre++i::post ∧ Passed empty m v pre

theorem Settled.mono (hv : v≠empty) {i : ι}
    (h : Settled empty m v probes i) (hm : Extends empty m m') : Settled empty m' v probes i := by
  obtain ⟨hi, pre, post, hs, hp⟩ := h
  exact ⟨(hm i (by rwa [hi])).trans hi, pre, post, hs, hp.mono hm⟩

theorem Settled.unique {i j : ι} (hi : Settled empty m v probes i) (hj : Settled empty m v probes j) : i=j := by
  obtain ⟨hiv, pre, post, hs, hp⟩ := hi
  obtain ⟨hjv, pre', post', hs', hp'⟩ := hj
  rw [hs] at hs'
  obtain ⟨l, rfl, hl⟩ | ⟨l, rfl, hl⟩ := append_eq_append_iff.mp hs'
  · -- the second insertion passed beyond `i`, unless both stopped there
    cases l with
    | nil => simpa using (cons.inj hl).1
    | cons a l =>
      have ha : i=a := (cons.inj hl).1
      exact absurd hiv (hp' i (by simp [ha])).2
  · cases l with
    | nil => simpa using (cons.inj hl).1.symm
    | cons a l =>
      have ha : j=a := (cons.inj hl).1
      exact absurd hjv (hp j (by simp [ha])).2

end Faultloggerd.Foundations.WriteOnce
