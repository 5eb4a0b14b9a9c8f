import Faultloggerd.AsyncStack.ContextPool

/-! # The stacks of the threads

What an operation on threads can do: it changes the stack of one thread in one of three ways, or nothing, and it
leaves the slots alone.
-/
namespace Faultloggerd.AsyncStack
open Pool Function Op

structure SameSlots (s s' : Pool) : Prop where
  pool : s'.pool = s.pool
  poolSize : s'.poolSize = s.poolSize
  freeListHead : s'.freeListHead = s.freeListHead
  freeListTail : s'.freeListTail = s.freeListTail
  initialized : s'.initialized = s.initialized

theorem SameSlots.refl (s : Pool) : SameSlots s s := ⟨rfl, rfl, rfl, rfl, rfl⟩

inductive StackChange where
  | push (i : ℕ)
  | pop
  | empty

def StackChange.Applies (change : StackChange) (c c' : ThreadAsyncContext) : Prop :=
  match change with
  | .push i => c.curAsyncContextsCnt < maxThreadAsyncCtxDepth ∧
      c'.contexts = Function.update c.contexts c.curAsyncContextsCnt (.slot i) ∧
      c'.curAsyncContextsCnt = c.curAsyncContextsCnt+1
  | .pop => c'.contexts = c.contexts ∧ c.curAsyncContextsCnt = c'.curAsyncContextsCnt+1
  | .empty => c'.curAsyncContextsCnt = 0

/-- The stack of thread `t` changes, and no other; what is pushed is valid. -/
structure StackChanges (t : ℕ) (change : StackChange) (s s' : Pool) : Prop where
  slots : SameSlots s s'
  others : ∀ u, u ≠ t → s'.threadCtxPool u = s.threadCtxPool u
  stack : change.Applies (s.threadCtxPool t) (s'.threadCtxPool t)
  pushed : ∀ i, change = .push i → s.validAsyncContext (.slot i) = some i

theorem stackChanges_modifyThread {t : ℕ} {change : StackChange} {s : Pool}
    {f : ThreadAsyncContext → ThreadAsyncContext} (hs : change.Applies (s.threadCtxPool t) (f (s.threadCtxPool t)))
    (hp : ∀ i, change=.push i → s.validAsyncContext (.slot i)=some i) :
    StackChanges t change s (s.modifyThread t f) where
  slots := ⟨rfl, rfl, rfl, rfl, rfl⟩
  others _ hu := update_of_ne hu _ _
  stack := by simpa [modifyThread] using hs
  pushed := hp

def Op.stackChange (op : Op) (s : Pool) : Option (ℕ×StackChange) :=
  match op with
  | .acquireThread => s.acquireThreadContext.1.map (·, .empty)
  | .releaseThread threadCtx => (s.validThreadContext threadCtx).map (·, .empty)
  | .push threadCtx ctx =>
    match (s.pushContextToThread threadCtx ctx).1, s.validThreadContext threadCtx, s.validAsyncContext ctx with
    | true, some t, some i => some (t, .push i)
    | _, _, _ => none
  | .pop threadCtx =>
    if (s.popContextFromThread threadCtx).1 then (s.validThreadContext threadCtx).map (·, .pop) else none
  | .popIfMatch threadCtx ctx =>
    if (s.popContextFromThreadIfMatch threadCtx ctx).1 then (s.validThreadContext threadCtx).map (·, .pop) else none
  | .clear threadCtx =>
    if (s.clearThreadContext threadCtx).1 then (s.validThreadContext threadCtx).map (·, .empty) else none
  | _ => none

def Op.Conforms (op : Op) (s : Pool) : Prop :=
  match op.stackChange s with
  | none => op.run s = s
  | some (t, change) => StackChanges t change s (op.run s)

variable {op : Op} {s : Pool}

theorem validAsyncContext_eq_some {ctx : Pointer} {i : ℕ} (h : s.validAsyncContext ctx=some i) :
    ctx=.slot i ∧ s.initialized=true ∧ i<s.poolSize ∧ (s.pool i).valid=true := by
  cases ctx with
  | slot j =>
    rw [validAsyncContext, Option.ite_none_right_eq_some] at h
    obtain ⟨hv, hj⟩ := h
    cases hj
    simpa [isValidAsyncContextAddressLocked, and_assoc] using hv
  | null | outside => cases h

theorem conforms_acquireThread (s : Pool) : Op.Conforms .acquireThread s := by
  simp only [Op.Conforms, stackChange, run, acquireThreadContext]
  cases hi : s.initialized with
  | false => rfl
  | true =>
    cases hf : s.freeThreadList with
    | none => rfl
    | some t =>
      refine ⟨⟨rfl, rfl, rfl, rfl, hi.symm⟩, fun u hu => update_of_ne hu _ _, ?_, nofun⟩
      simp [StackChange.Applies, modifyThread]

variable (threadCtx : Pointer)

theorem conforms_releaseThread (s : Pool) : Op.Conforms (.releaseThread threadCtx) s := by
  simp only [Op.Conforms, stackChange, run, releaseThreadContext]
  cases ht : s.validThreadContext threadCtx with
  | none => rfl
  | some t =>
    refine ⟨⟨rfl, rfl, rfl, rfl, rfl⟩, fun u hu => update_of_ne hu _ _, ?_, nofun⟩
    simp [StackChange.Applies, modifyThread]

theorem conforms_push (ctx : Pointer) (s : Pool) : Op.Conforms (.push threadCtx ctx) s := by
  simp only [Op.Conforms, stackChange, run, pushContextToThread]
  cases ht : s.validThreadContext threadCtx with
  | none => rfl
  | some t =>
    by_cases hf : maxThreadAsyncCtxDepth≤(s.threadCtxPool t).curAsyncContextsCnt
    · simp [hf]
    · cases hc : s.validAsyncContext ctx with
      | none => simp only [hf, ↓reduceIte]
      | some i =>
        obtain ⟨rfl, -⟩ := validAsyncContext_eq_some hc
        simp only [hf, ↓reduceIte]
        refine stackChanges_modifyThread ⟨by omega, rfl, rfl⟩ ?_
        rintro j ⟨⟩
        exact hc

theorem conforms_pop (s : Pool) : Op.Conforms (.pop threadCtx) s := by
  rw [Op.Conforms, stackChange, run, popContextFromThread]
  cases ht : s.validThreadContext threadCtx with
  | none => rfl
  | some t =>
    by_cases he : (s.threadCtxPool t).curAsyncContextsCnt=0
    · simp [he]
    · simp only [he, ↓reduceIte]
      exact stackChanges_modifyThread ⟨rfl, (Nat.succ_pred_eq_of_ne_zero he).symm⟩ nofun

theorem conforms_popIfMatch (ctx : Pointer) (s : Pool) : Op.Conforms (.popIfMatch threadCtx ctx) s := by
  rw [Op.Conforms, stackChange, run, popContextFromThreadIfMatch]
  cases ht : s.validThreadContext threadCtx with
  | none => rfl
  | some t =>
    by_cases hc : (s.threadCtxPool t).curAsyncContextsCnt=0 ∨
        maxThreadAsyncCtxDepth<(s.threadCtxPool t).curAsyncContextsCnt
    · simp [hc]
    by_cases ho : ctx≠(s.threadCtxPool t).contexts ((s.threadCtxPool t).curAsyncContextsCnt-1)
    · simp [ho]
    · simp only [hc, ho, ↓reduceIte]
      exact stackChanges_modifyThread ⟨rfl, (Nat.succ_pred_eq_of_ne_zero (not_or.mp hc).1).symm⟩ nofun

theorem conforms_clear (s : Pool) : Op.Conforms (.clear threadCtx) s := by
  rw [Op.Conforms, stackChange, run, clearThreadContext]
  cases ht : s.validThreadContext threadCtx with
  | none => rfl
  | some t =>
    by_cases hc : maxThreadAsyncCtxDepth<(s.threadCtxPool t).curAsyncContextsCnt
    · simp [hc]
    · simp only [hc, ↓reduceIte]
      exact stackChanges_modifyThread rfl nofun

def Op.onSlots : Op → Bool
  | .acquire _ _ _ _ => true
  | .release _ => true
  | _ => false

theorem conforms (h : op.onSlots=false) (s : Pool) : op.Conforms s := by
  cases op with
  | acquire | release => cases h
  | acquireThread => exact conforms_acquireThread s
  | releaseThread threadCtx => exact conforms_releaseThread threadCtx s
  | push threadCtx ctx => exact conforms_push threadCtx ctx s
  | pop threadCtx => exact conforms_pop threadCtx s
  | popIfMatch threadCtx ctx => exact conforms_popIfMatch threadCtx ctx s
  | clear threadCtx => exact conforms_clear threadCtx s
  | read => rfl

theorem sameSlots_run (h : op.onSlots=false) (s : Pool) : SameSlots s (op.run s) := by
  have hc := conforms h s
  unfold Op.Conforms at hc
  split at hc
  · rw [hc]
    exact .refl s
  · exact hc.slots

end Faultloggerd.AsyncStack
