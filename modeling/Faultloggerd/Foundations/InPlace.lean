import Mathlib.Data.List.Pairwise

/-! # Assignments carried out in place

A list of assignments is run on one store, each reading what the earlier ones left. `wanted` is the
value an assignment is meant to give its target, as it was fixed before the run (`none` where nothing
is required). The run delivers all wanted values exactly when no assignment is disturbed by the
earlier ones: on the store in which these have their wanted values it still gives its own
(`delivers_iff_undisturbed`).
-/
namespace Faultloggerd.Foundations.InPlace
open List Function Option

variable {ι α : Type}

/-- An effect without a value is a run that does not come back. -/
structure Assignment (ι α : Type) where
  target : ι
  effect : (ι → α) → Option α
  wanted : Option α

theorem getD_of_wanted (a : Assignment ι α) (v : α) (h : ∀ w, a.wanted=some w → v=w) : a.wanted.getD v=v := by
  cases hw : a.wanted with
  | none => rfl
  | some w => exact (h w hw).symm

section Runs

variable [DecidableEq ι]

def run : List (Assignment ι α) → (ι → α) → Option (ι → α)
  | [], σ => some σ
  | a :: as, σ => (a.effect σ).bind fun v => run as (Function.update σ a.target v)

def Delivers (as : List (Assignment ι α)) (σ : ι → α) : Prop :=
  ∃ σ', run as σ = some σ' ∧ ∀ a ∈ as, ∀ w, a.wanted = some w → σ' a.target = w

/-- On a store where the earlier targets have their wanted values, each effect is the wanted one. -/
def Undisturbed : List (Assignment ι α) → (ι → α) → Prop
  | [], _ => True
  | a :: as, σ => ∃ v, a.effect σ = some v ∧ (∀ w, a.wanted=some w → v=w) ∧
      Undisturbed as (Function.update σ a.target (a.wanted.getD v))

def LastWanted (as : List (Assignment ι α)) : Prop :=
  as.Pairwise fun a b => a.wanted.isSome → b.target ≠ a.target

variable (as : List (Assignment ι α))

theorem run_of_not_target (σ σ' : ι → α) (i : ι) (h : run as σ=some σ') (hi : ∀ a∈as, a.target≠i) : σ' i=σ i := by
  induction as generalizing σ with
  | nil =>
    simp only [run, some.injEq] at h
    rw [h]
  | cons a as ih =>
    simp only [run, bind_eq_some_iff] at h
    obtain ⟨v, -, hrun⟩ := h
    have hr := ih _ hrun fun b hb => hi b (mem_cons_of_mem a hb)
    rw [hr, update_of_ne (hi a mem_cons_self).symm]

theorem run_head (a : Assignment ι α) (as : List (Assignment ι α)) (σ σ' : ι → α) (v : α)
    (hl : LastWanted (a::as)) (hw : a.wanted.isSome)
    (h : run as (Function.update σ a.target v)=some σ') : σ' a.target=v := by
  have ho : ∀ b∈as, b.target≠a.target := fun b hb => (pairwise_cons.mp hl).1 b hb hw
  rw [run_of_not_target as _ σ' a.target h ho, update_self]

theorem delivers_iff_undisturbed (σ : ι → α) (hl : LastWanted as) : Delivers as σ ↔ Undisturbed as σ := by
  induction as generalizing σ with
  | nil => simp [Delivers, Undisturbed, run]
  | cons a as ih =>
    have ht : LastWanted as := (pairwise_cons.mp hl).2
    constructor
    · intro h
      obtain ⟨σ', hrun, ha⟩ := h
      simp only [run, bind_eq_some_iff] at hrun
      obtain ⟨v, hv, hr⟩ := hrun
      have hw1 : ∀ w, a.wanted=some w → v=w := fun w hw => by
        rw [←ha a mem_cons_self w hw, run_head a as σ σ' v hl (by simp [hw]) hr]
      refine ⟨v, hv, hw1, (ih _ ht).mp ?_⟩
      rw [getD_of_wanted a v hw1]
      exact ⟨σ', hr, fun b hb => ha b (mem_cons_of_mem a hb)⟩
    · intro h
      obtain ⟨v, hv, hw1, hr⟩ := h
      rw [getD_of_wanted a v hw1] at hr
      obtain ⟨σ', hrun, ha⟩ := (ih _ ht).mpr hr
      refine ⟨σ', by simp [run, hv, hrun], fun b hb w hw => ?_⟩
      cases mem_cons.mp hb with
      | inl hba =>
        subst hba
        rw [run_head b as σ σ' v hl (by simp [hw]) hrun]
        exact hw1 w hw
      | inr hb => exact ha b hb w hw

theorem undisturbed_of_local (σ0 σ : ι → α) (hf : as.Pairwise fun a b => b.wanted.isSome → a.target≠b.target)
    (hσ : ∀ a∈as, a.wanted.isSome → σ a.target=σ0 a.target)
    (h : ∀ a∈as, ∀ τ : ι → α, (a.wanted.isSome → τ a.target=σ0 a.target) →
      ∃ v, a.effect τ=some v ∧ ∀ w, a.wanted=some w → v=w) :
    Undisturbed as σ := by
  induction as generalizing σ with
  | nil => trivial
  | cons a as ih =>
    obtain ⟨hh, ht⟩ := pairwise_cons.mp hf
    obtain ⟨v, hv, hw⟩ := h a mem_cons_self σ (hσ a mem_cons_self)
    refine ⟨v, hv, hw, ih _ ht ?_ fun b hb => h b (mem_cons_of_mem a hb)⟩
    intro b hb hbw
    rw [update_of_ne (hh b hb hbw).symm]
    exact hσ b (mem_cons_of_mem a hb) hbw

theorem run_append (bs : List (Assignment ι α)) (σ : ι → α) : run (as++bs) σ=(run as σ).bind (run bs) := by
  induction as generalizing σ with
  | nil => rfl
  | cons a as ih =>
    simp only [cons_append, run, bind_assoc]
    congr
    funext v
    exact ih _

end Runs

end Faultloggerd.Foundations.InPlace
