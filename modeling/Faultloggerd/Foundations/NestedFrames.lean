import Mathlib.Data.List.Basic

/-! # Threads whose handlers nest

Every thread has a stack of frames, the running one on top. `HeldBy` says which thread has the only frame inside a
section: none, or one frame of one thread, wherever it stands in that thread's stack. Each way of changing the top
frame has a lemma.
-/
namespace Faultloggerd.Foundations.NestedFrames
open Function List

variable {τ φ : Type} [DecidableEq τ] {inside : φ → Bool} {fs : τ → List φ} {owner : Option τ} {t : τ}
  {f g : φ} {rest : List φ}

def HeldBy (inside : φ → Bool) (frames : τ → List φ) : Option τ → Prop
  | none => ∀ t, (frames t).countP inside = 0
  | some t => (frames t).countP inside = 1 ∧ ∀ u, u ≠ t → (frames u).countP inside = 0

section

variable (h : HeldBy inside fs owner)
include h

theorem heldBy_count_le (t : τ) : (fs t).countP inside≤1 := by
  cases owner with
  | none => rw [h t]; omega
  | some u =>
    by_cases ht : t=u
    · have := h.1
      grind
    · rw [h.2 t ht]
      omega

theorem heldBy_owner (hf : f∈fs t) (hin : inside f=true) : owner=some t := by
  have hp : 0<(fs t).countP inside := countP_pos_iff.mpr ⟨f, hf, hin⟩
  cases owner with
  | none =>
    have := h t
    omega
  | some u =>
    by_contra hne
    have := h.2 t fun e => hne (by rw [e])
    omega

theorem heldBy_others (ht : fs t=f::rest) (hin : inside f=true) {u : τ}
    (hg : g∈update fs t rest u) : inside g=false := by
  have ho := heldBy_owner h (ht ▸ mem_cons_self : f∈fs t) hin
  subst ho
  by_cases hu : u=t
  · subst hu
    have hc := h.1
    rw [ht, countP_cons_of_pos hin] at hc
    rw [update_self] at hg
    by_contra hne
    have : 0< rest.countP inside := countP_pos_iff.mpr ⟨g, hg, by simpa using hne⟩
    omega
  · rw [update_of_ne hu] at hg
    by_contra hne
    have : 0<(fs u).countP inside := countP_pos_iff.mpr ⟨g, hg, by simpa using hne⟩
    have := h.2 u hu
    omega

theorem heldBy_update {l : List φ}
    (hc : l.countP inside=(fs t).countP inside) : HeldBy inside (update fs t l) owner := by
  have ha : ∀ u, (update fs t l u).countP inside=(fs u).countP inside := by grind
  cases owner with
  | none =>
    intro u
    rw [ha, h u]
  | some v =>
    refine ⟨by rw [ha, h.1], fun u hu => ?_⟩
    rw [ha, h.2 u hu]

theorem heldBy_push (hf : inside f=false) : HeldBy inside (update fs t (f::fs t)) owner :=
  heldBy_update h (countP_cons_of_neg (by simp [hf]))

theorem heldBy_replace (ht : fs t=f::rest) (hg : inside g=inside f) : HeldBy inside (update fs t (g::rest)) owner := by
  apply heldBy_update h
  rw [ht, countP_cons, countP_cons, hg]

theorem heldBy_pop (ht : fs t=f::rest) (hf : inside f=false) : HeldBy inside (update fs t rest) owner := by
  apply heldBy_update h
  rw [ht, countP_cons_of_neg (by simp [hf])]

end

theorem heldBy_enter (h : HeldBy inside fs none) (ht : fs t=f::rest) (hg : inside g=true) :
    HeldBy inside (update fs t (g::rest)) (some t) := by
  have hr : rest.countP inside=0 := by
    have := h t
    grind
  refine ⟨?_, fun u hu => ?_⟩
  · rw [update_self, countP_cons_of_pos hg, hr]
  · rw [update_of_ne hu]
    exact h u

theorem heldBy_leave (h : HeldBy inside fs owner) (ht : fs t=f::rest) (hf : inside f=true) :
    HeldBy inside (update fs t rest) none := by
  intro u
  rw [countP_eq_zero]
  intro g hg
  simp [heldBy_others h ht hf hg]

end Faultloggerd.Foundations.NestedFrames
