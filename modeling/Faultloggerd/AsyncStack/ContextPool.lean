import Mathlib.Data.Nat.Notation
import Mathlib.Logic.Function.Basic

/-! # The pool of asynchronous contexts

A context keeps the chain of stacks that led to an asynchronous task. Contexts live in the slots of a pool; the free
ones form a queue threaded through the slots. Every thread has a stack of pointers to contexts, and its chain is the
one found in the context on top. Each operation holds the lock of the pool, so it is a single step.
-/
namespace Faultloggerd.AsyncStack

def maxAsyncChainLayersLimit : ℕ := 17
def maxThreadAsyncCtxDepth : ℕ := 64
def threadPoolSize : ℕ := 1024

def Layers : Type := {layers : ℕ // 1≤layers ∧ layers≤ maxAsyncChainLayersLimit}

structure AsyncCtx where
  type : BitVec 64
  id : BitVec 64
deriving DecidableEq

def noCtxs : ℕ → AsyncCtx := fun _ => ⟨0, 0⟩

/-- Null, the address of a slot of the pool in question (in it or behind it), or any address outside. -/
inductive Pointer where
  | null
  | slot (i : ℕ)
  | outside
deriving DecidableEq

structure AsyncContext where
  next : Option ℕ
  valid : Bool
  ctxs : ℕ → AsyncCtx

structure ThreadAsyncContext where
  contexts : ℕ → Pointer
  next : Option ℕ
  valid : Bool
  curAsyncContextsCnt : ℕ

structure Pool where
  pool : ℕ → AsyncContext
  poolSize : ℕ
  threadCtxPool : ℕ → ThreadAsyncContext
  freeListHead : Option ℕ
  freeListTail : Option ℕ
  freeThreadList : Option ℕ
  initialized : Bool

namespace Pool

def fresh : Pool where
  pool _ := ⟨none, false, noCtxs⟩
  poolSize := 0
  threadCtxPool _ := ⟨fun _ => .null, none, false, 0⟩
  freeListHead := none
  freeListTail := none
  freeThreadList := none
  initialized := false

/-- `mapped` says whether the pages could be mapped; they come filled with zeros. -/
def init (chainPoolSize : ℕ) (mapped : Bool) (s : Pool) : Bool × Pool :=
  if s.initialized then (true, s)
  else if chainPoolSize = 0 then (false, {s with poolSize := chainPoolSize})
  else if !mapped then (false, {s with poolSize := chainPoolSize})
  else (true, {
      pool := fun i => ⟨if i+1<chainPoolSize then some (i+1) else none, false, noCtxs⟩
      poolSize := chainPoolSize
      threadCtxPool := fun i => ⟨fun _ => .null, if i+1<threadPoolSize then some (i+1) else none, false, 0⟩
      freeListHead := some 0
      freeListTail := some (chainPoolSize-1)
      freeThreadList := some 0
      initialized := true})

def modify (i : ℕ) (f : AsyncContext → AsyncContext) (s : Pool) : Pool :=
  {s with pool := Function.update s.pool i (f (s.pool i))}

def modifyThread (i : ℕ) (f : ThreadAsyncContext → ThreadAsyncContext) (s : Pool) : Pool :=
  {s with threadCtxPool := Function.update s.threadCtxPool i (f (s.threadCtxPool i))}

def isValidAsyncContextAddressLocked (ctx : Pointer) (s : Pool) : Bool :=
  match ctx with
  | .slot i => s.initialized && i < s.poolSize
  | _ => false

/-- `IsValidAsyncContextLocked`: the slot, if the pointer passes. -/
def validAsyncContext (ctx : Pointer) (s : Pool) : Option ℕ :=
  match ctx with
  | .slot i => if isValidAsyncContextAddressLocked ctx s && (s.pool i).valid then some i else none
  | _ => none

def isValidThreadContextAddressLocked (threadCtx : Pointer) (s : Pool) : Bool :=
  match threadCtx with
  | .slot i => s.initialized && i < threadPoolSize
  | _ => false

/-- `IsValidThreadContextLocked`: the thread's place, if the pointer passes. -/
def validThreadContext (threadCtx : Pointer) (s : Pool) : Option ℕ :=
  match threadCtx with
  | .slot i => if isValidThreadContextAddressLocked threadCtx s && (s.threadCtxPool i).valid then some i else none
  | _ => none

def currentContext (threadCtx : Pointer) (s : Pool) : Option ℕ :=
  match s.validThreadContext threadCtx with
  | none => none
  | some t =>
    let count := (s.threadCtxPool t).curAsyncContextsCnt
    if count = 0 ∨ maxThreadAsyncCtxDepth < count then none
    else s.validAsyncContext ((s.threadCtxPool t).contexts (count-1))

def releaseAsyncContext (ctx : Pointer) (s : Pool) : Pool :=
  match s.validAsyncContext ctx with
  | none => s
  | some i =>
    let s := s.modify i fun c => {c with ctxs := noCtxs}
    let s := match s.freeListTail with
      | some tail => s.modify tail fun c => {c with next := some i}
      | none => s
    let s := {s with freeListTail := some i}
    let s := s.modify i fun c => {c with valid := false}
    s.modify i fun c => {c with next := none}

/-- The loop over the layers, from layer `i` on: `count` layers may still be copied. The two slots may be the same. -/
def copyChain (ctx curCtx : ℕ) : ℕ → ℕ → Pool → Pool
  | 0, _, s => s
  | count+1, i, s =>
    let layer := (s.pool curCtx).ctxs i
    if layer.id = 0 then s
    else copyChain ctx curCtx count (i+1)
      (s.modify ctx fun c => {c with ctxs := Function.update c.ctxs (i+1) layer})

def takeHead (ctx : ℕ) (stackId asyncType : BitVec 64) (s : Pool) : Pool :=
  let s := {s with freeListHead := (s.pool ctx).next}
  s.modify ctx fun c => {c with valid := true, ctxs := Function.update c.ctxs 0 ⟨asyncType, stackId⟩}

def acquireAndInitAsyncContext (layers : Layers) (threadCtx : Pointer) (stackId asyncType : BitVec 64) (s : Pool) :
    Option ℕ × Pool :=
  if !s.initialized then (none, s)
  else if s.freeListHead = s.freeListTail then (none, s)
  else match s.freeListHead with
    | none => (none, s)
    | some ctx =>
      let s := s.takeHead ctx stackId asyncType
      match s.currentContext threadCtx with
      | none => (some ctx, s)
      | some curCtx => (some ctx, copyChain ctx curCtx (layers.val-1) 0 s)

def readChain (ctxs : ℕ → AsyncCtx) : ℕ → ℕ → List AsyncCtx
  | 0, _ => []
  | count+1, i => if (ctxs i).id = 0 then [] else ctxs i :: readChain ctxs count (i+1)

def getCurrentChainedContext (layers : Layers) (threadCtx : Pointer) (sz : ℕ) (s : Pool) : List AsyncCtx :=
  if threadCtx = .null ∨ sz = 0 then []
  else match s.currentContext threadCtx with
    | none => []
    | some ctx => readChain (s.pool ctx).ctxs (if layers.val<sz then layers.val else sz) 0

def acquireThreadContext (s : Pool) : Option ℕ × Pool :=
  if !s.initialized then (none, s)
  else match s.freeThreadList with
    | none => (none, s)
    | some t =>
      let s := {s with freeThreadList := (s.threadCtxPool t).next}
      (some t, s.modifyThread t fun c => {c with valid := true, curAsyncContextsCnt := 0, contexts := fun _ => .null})

def releaseThreadContext (threadCtx : Pointer) (s : Pool) : Pool :=
  match s.validThreadContext threadCtx with
  | none => s
  | some t =>
    let s := s.modifyThread t fun c =>
      {c with valid := false, next := s.freeThreadList, curAsyncContextsCnt := 0}
    {s with freeThreadList := some t}

def pushContextToThread (threadCtx ctx : Pointer) (s : Pool) : Bool × Pool :=
  match s.validThreadContext threadCtx with
  | none => (false, s)
  | some t =>
    let count := (s.threadCtxPool t).curAsyncContextsCnt
    if maxThreadAsyncCtxDepth ≤ count then (false, s)
    else match s.validAsyncContext ctx with
      | none => (false, s)
      | some _ => (true, s.modifyThread t fun c =>
          {c with contexts := Function.update c.contexts count ctx, curAsyncContextsCnt := count+1})

def popContextFromThread (threadCtx : Pointer) (s : Pool) : Bool × Pool :=
  match s.validThreadContext threadCtx with
  | none => (false, s)
  | some t =>
    let count := (s.threadCtxPool t).curAsyncContextsCnt
    if count = 0 then (false, s)
    else (true, s.modifyThread t fun c => {c with curAsyncContextsCnt := count-1})

def popContextFromThreadIfMatch (threadCtx ctx : Pointer) (s : Pool) : Bool × Pool :=
  match s.validThreadContext threadCtx with
  | none => (false, s)
  | some t =>
    let count := (s.threadCtxPool t).curAsyncContextsCnt
    if count = 0 ∨ maxThreadAsyncCtxDepth < count then (false, s)
    else if ctx ≠ (s.threadCtxPool t).contexts (count-1) then (false, s)
    else (true, s.modifyThread t fun c => {c with curAsyncContextsCnt := count-1})

def clearThreadContext (threadCtx : Pointer) (s : Pool) : Bool × Pool :=
  match s.validThreadContext threadCtx with
  | none => (false, s)
  | some t =>
    if maxThreadAsyncCtxDepth < (s.threadCtxPool t).curAsyncContextsCnt then (false, s)
    else (true, s.modifyThread t fun c => {c with curAsyncContextsCnt := 0})

end Pool

inductive Op where
  | acquire (layers : Layers) (threadCtx : Pointer) (stackId asyncType : BitVec 64)
  | release (ctx : Pointer)
  | acquireThread
  | releaseThread (threadCtx : Pointer)
  | push (threadCtx ctx : Pointer)
  | pop (threadCtx : Pointer)
  | popIfMatch (threadCtx ctx : Pointer)
  | clear (threadCtx : Pointer)
  | read (layers : Layers) (threadCtx : Pointer) (sz : ℕ)

def Op.run (op : Op) (s : Pool) : Pool :=
  match op with
  | .acquire layers threadCtx stackId asyncType => (s.acquireAndInitAsyncContext layers threadCtx stackId asyncType).2
  | .release ctx => s.releaseAsyncContext ctx
  | .acquireThread => s.acquireThreadContext.2
  | .releaseThread threadCtx => s.releaseThreadContext threadCtx
  | .push threadCtx ctx => (s.pushContextToThread threadCtx ctx).2
  | .pop threadCtx => (s.popContextFromThread threadCtx).2
  | .popIfMatch threadCtx ctx => (s.popContextFromThreadIfMatch threadCtx ctx).2
  | .clear threadCtx => (s.clearThreadContext threadCtx).2
  | .read _ _ _ => s

end Faultloggerd.AsyncStack
