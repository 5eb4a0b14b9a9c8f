import Mathlib.Data.Nat.Notation
import Mathlib.Data.Sum.Basic

/-! # Loops with fuel

A loop body goes on with a new state or ends with a result; a body without a value is stuck, and so is
a loop that is out of fuel.
-/
namespace Faultloggerd.Foundations.FuelLoop

variable {σ τ ρ ω : Type}

def loop (body : σ → Option (σ ⊕ ρ)) : ℕ → σ → Option ρ
  | 0, _ => none
  | fuel+1, s => (body s).bind fun next => next.elim (loop body fuel) some

section Rules

variable {body : σ → Option (σ ⊕ ρ)} {fuel : ℕ} {s s' : σ} {r r' : ρ}

theorem loop_of_inl (h : body s=some (.inl s')) : loop body (fuel+1) s=loop body fuel s' := by
  rw [loop, h]
  rfl

theorem loop_of_inr (h : body s=some (.inr r)) : loop body (fuel+1) s=some r := by
  rw [loop, h]
  rfl

theorem loop_cases (h : loop body fuel s=some r) : ∃ fuel', fuel=fuel'+1 ∧
    (body s=some (.inr r) ∨ ∃ s', body s=some (.inl s') ∧ loop body fuel' s'=some r) := by
  cases fuel with
  | zero => exact nomatch h
  | succ fuel =>
    obtain ⟨next, hb, hn⟩ := Option.bind_eq_some_iff.mp h
    cases next with
    | inl s' => exact ⟨fuel, rfl, .inr ⟨s', hb, hn⟩⟩
    | inr r' =>
      cases hn
      exact ⟨fuel, rfl, .inl hb⟩

theorem loop_unique {fuel' : ℕ} (h : loop body fuel s=some r) (h' : loop body fuel' s=some r') : r=r' := by
  induction fuel generalizing s fuel' with
  | zero => exact nomatch h
  | succ fuel ih =>
    obtain ⟨_, hf, hb | ⟨next, hb, hr⟩⟩ := loop_cases h
    · obtain ⟨_, rfl, hb' | ⟨next', hb', -⟩⟩ := loop_cases h'
      · rw [hb] at hb'
        cases hb'
        rfl
      · rw [hb] at hb'
        cases hb'
    · obtain ⟨_, rfl, hb' | ⟨next', hb', hr'⟩⟩ := loop_cases h'
      · rw [hb] at hb'
        cases hb'
      · cases hf
        rw [hb] at hb'
        cases hb'
        exact ih hr hr'

theorem map_loop_unique {fuel' : ℕ} {f : ρ → ω} {out out' : ω} (h : (loop body fuel s).map f=some out)
    (h' : (loop body fuel' s).map f=some out') : out=out' := by
  obtain ⟨r, hrun, rfl⟩ := Option.map_eq_some_iff.mp h
  obtain ⟨r', hr', rfl⟩ := Option.map_eq_some_iff.mp h'
  rw [loop_unique hrun hr']

theorem loop_invariant (P : σ → Prop) (Q : ρ → Prop) (hn : ∀ s s', P s → body s=some (.inl s') → P s')
    (he : ∀ s r, P s → body s=some (.inr r) → Q r) (hs : P s) (h : loop body fuel s=some r) : Q r := by
  induction fuel generalizing s with
  | zero => exact nomatch h
  | succ fuel ih =>
    obtain ⟨_, hf, hb | ⟨s', hb, hr⟩⟩ := loop_cases h
    · exact he s r hs hb
    · cases hf
      exact ih (hn s s' hs hb) hr

theorem loop_congr {body' : σ → Option (σ ⊕ ρ)} (P : σ → Prop)
    (hn : ∀ s s', P s → body s=some (.inl s') → P s') (ha : ∀ s, P s → body s=body' s)
    (hs : P s) : loop body fuel s=loop body' fuel s := by
  induction fuel generalizing s with
  | zero => rfl
  | succ fuel ih =>
    rw [loop, loop, ←ha s hs]
    cases hb : body s with
    | none => rfl
    | some next =>
      cases next with
      | inl s' => exact ih (hn s s' hs hb)
      | inr r => rfl

end Rules

inductive Visits (body : σ → Option (σ ⊕ ρ)) (s : σ) : σ → Prop where
  | start : Visits body s s
  | next {s' s'' : σ} (h : Visits body s s') (hbody : body s'=some (.inl s'')) : Visits body s s''

section Relations

variable {body : σ → Option (σ ⊕ ρ)} {body' : τ → Option (τ ⊕ ω)} {fuel : ℕ} {s s' : σ} {t : τ}

theorem Visits.of_next {s'' : σ} (hb : body s=some (.inl s')) (h : Visits body s' s'') : Visits body s s'' := by
  induction h with
  | start => exact .next .start hb
  | next _ hn ih => exact .next ih hn

theorem rel_bind {α β γ δ : Type} {R : α → β → Prop} {S : γ → δ → Prop} {x : Option α} {y : Option β}
    {f : α → Option γ} {g : β → Option δ} (h : Option.Rel R x y)
    (hfg : ∀ v w, R v w → Option.Rel S (f v) (g w)) : Option.Rel S (x.bind f) (y.bind g) := by
  cases h with
  | none => exact .none
  | some hvw => exact hfg _ _ hvw

theorem rel_map {α β γ δ : Type} {R : α → β → Prop} {S : γ → δ → Prop} {x : Option α} {y : Option β}
    {f : α → γ} {g : β → δ} (h : Option.Rel R x y) (hfg : ∀ v w, R v w → S (f v) (g w)) :
    Option.Rel S (x.map f) (y.map g) := by
  cases h with
  | none => exact .none
  | some hvw => exact .some (hfg _ _ hvw)

theorem loop_rel (R : σ → τ → Prop) (Q : ρ → ω → Prop) (P : σ → Prop)
    (hr2 : ∀ s t, R s t → P s → Option.Rel (Sum.LiftRel R Q) (body s) (body' t)) (hs : R s t)
    (hP : ∀ s', Visits body s s' → P s') : Option.Rel Q (loop body fuel s) (loop body' fuel t) := by
  induction fuel generalizing s t with
  | zero => exact .none
  | succ fuel ih =>
    have hr1 := hr2 s t hs (hP s .start)
    rw [loop, loop]
    generalize body' t=next' at hr1 ⊢
    cases hb : body s with
    | none =>
      rw [hb] at hr1
      cases hr1
      exact .none
    | some next =>
      rw [hb] at hr1
      obtain ⟨hn⟩ := hr1
      cases hn with
      | inl hs' => exact ih hs' fun s'' hv => hP s'' (hv.of_next hb)
      | inr hr => exact .some hr

end Relations

end Faultloggerd.Foundations.FuelLoop
