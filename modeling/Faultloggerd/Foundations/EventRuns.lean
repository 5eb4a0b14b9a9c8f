import Mathlib.Algebra.Group.Nat.Defs

/-! # Runs of an event-driven machine

A machine takes events one after another. `Every` says of a run that each event meets a condition in the
state it finds.
-/
namespace Faultloggerd.Foundations.EventRuns

variable {σ ε : Type}

def run (step : ε → σ → σ) (events : List ε) (s : σ) : σ :=
  events.foldl (fun s e => step e s) s

def Every (step : ε → σ → σ) (P : σ → ε → Prop) : List ε → σ → Prop
  | [], _ => True
  | e :: events, s => P s e ∧ Every step P events (step e s)

variable {step : ε → σ → σ} {P : σ → ε → Prop} {events : List ε} {s : σ}

def decidableEvery [∀ s e, Decidable (P s e)] : ∀ (events : List ε) (s : σ), Decidable (Every step P events s)
  | [], _ => .isTrue trivial
  | _ :: events, _ => @instDecidableAnd _ _ _ (decidableEvery events _)

instance [∀ s e, Decidable (P s e)] : Decidable (Every step P events s) :=
  decidableEvery events s

@[simp] theorem run_nil : run step [] s=s := rfl

@[simp] theorem run_cons (e : ε) : run step (e::events) s=run step events (step e s) := rfl

@[simp] theorem run_append (before after : List ε) : run step (before++after) s=run step after (run step before s) :=
  List.foldl_append

theorem every_append (before after : List ε) : Every step P (before++after) s ↔
    Every step P before s ∧ Every step P after (run step before s) := by
  induction before generalizing s with
  | nil => simp [Every]
  | cons e before ih => simp [Every, ih, and_assoc]

theorem every_iff : Every step P events s ↔ ∀ before e after, events=before++e::after → P (run step before s) e := by
  induction events generalizing s with
  | nil => simp [Every]
  | cons e events ih =>
    rw [Every, ih]
    refine ⟨fun h before d after hs => ?_, fun h => ⟨h [] e events rfl, ?_⟩⟩
    · cases before with
      | nil =>
        cases hs
        exact h.1
      | cons c before =>
        cases hs
        exact h.2 before d after rfl
    · intro before d after hs
      exact h (e::before) d after (by rw [hs]; rfl)

variable (Inv : σ → Prop)

theorem run_invariant_of_every (hs : ∀ s e, Inv s → P s e → Inv (step e s)) (hi : Inv s)
    (h : Every step P events s) : Inv (run step events s) := by
  induction events generalizing s with
  | nil => exact hi
  | cons e events ih => exact ih (hs s e hi h.1) h.2

theorem run_invariant (hs : ∀ s e, Inv s → Inv (step e s)) (hi : Inv s) (events : List ε)
    : Inv (run step events s) := by
  induction events generalizing s with
  | nil => exact hi
  | cons e events ih => exact ih (hs s e hi)

theorem every_imp {Q : σ → ε → Prop} (hs : ∀ s e, Inv s → P s e → Inv (step e s)) (hi : Inv s)
    (hi1 : ∀ s e, Inv s → P s e → Q s e) (h : Every step P events s) : Every step Q events s := by
  induction events generalizing s with
  | nil => trivial
  | cons e events ih => exact ⟨hi1 s e hi h.1, ih (hs s e hi h.1) h.2⟩

theorem every_congr {Q : σ → ε → Prop} (hs1 : ∀ s e, Inv s → P s e → Inv (step e s)) (hi : Inv s)
    (h : ∀ s e, Inv s → (P s e ↔ Q s e)) : Every step P events s ↔ Every step Q events s := by
  refine ⟨every_imp Inv hs1 hi fun s e hs => (h s e hs).mp, every_imp Inv ?_ hi fun s e hs => (h s e hs).mpr⟩
  exact fun s e hs hq => hs1 s e hs ((h s e hs).mpr hq)

end Faultloggerd.Foundations.EventRuns
