import Mathlib.Logic.Function.Basic

/-! # Tables of remembered results

A table remembers results of a function `f` that may fail. It agrees with `f` as long as every entry
is the result for its key; storing or forgetting a result keeps that, whatever was looked up before.
-/
namespace Faultloggerd.Foundations.MemoTable
open Function

variable {κ β : Type} {f : κ → Option β} {table : κ → Option β}

def Agrees (f table : κ → Option β) : Prop := ∀ k v, table k = some v → f k = some v

theorem Agrees.empty (f : κ → Option β) : Agrees f fun _ => none := by
  intro k v h
  simp at h

section Updates

variable [DecidableEq κ]

theorem Agrees.store (h : Agrees f table) (k : κ) (r : Option β) (hr : ∀ v, r=some v → f k=some v) :
    Agrees f (update table k r) := by
  intro k' v hv
  by_cases hk : k'=k
  · subst hk
    rw [update_self] at hv
    exact hr v hv
  · rw [update_of_ne hk] at hv
    exact h k' v hv

end Updates

end Faultloggerd.Foundations.MemoTable
