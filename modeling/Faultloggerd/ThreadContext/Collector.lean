import Faultloggerd.Foundations.EventRuns
import Mathlib.Data.Int.Notation
import Mathlib.Logic.Function.Basic
import Mathlib.Tactic.SplitIfs

/-! # Collecting the context of another thread (`thread_context.cpp`)

`CollectThreadContext` asks a thread for its registers and its stack: it writes the request into one shared object,
signals the thread and waits, for a second at most. The handler on that thread looks whether the request is for it, and
stores its stack range, its registers and its stack, each under a lock of its own; then it notifies. A signal may be
handled at any later time, when the call that sent it has long returned.

Calls are numbered, and a call sends one signal at most, so the handler of a signal has the number of its call. What is
stored carries the call and the thread of the handler that stored it. Every critical section is one step.
-/
namespace Faultloggerd.ThreadContext

def stackBufferSize : ℕ := 65536

inductive SyncStatus where
  | init | waitCtx | copyStart | copySuccess | copyFailed
deriving DecidableEq

structure Origin where
  call : ℕ
  tid : ℤ
deriving DecidableEq

structure Registers where
  pc : ℕ
  sp : ℕ
  fp : ℕ
  lr : ℕ

structure StackByte where
  value : UInt8
  storedBy : Option Origin

structure LocalThreadContextMix where
  registers : Registers
  registersBy : Option Origin
  stackTop : ℕ
  stackBuf : ℕ → StackByte
  stackBufSize : ℕ
  stackCopiedLen : ℕ
  tid : ℤ
  status : SyncStatus

namespace LocalThreadContextMix

def startCollectThreadContext (tid : ℤ) (m : LocalThreadContextMix) : LocalThreadContextMix :=
  {m with
    tid := tid
    status := .waitCtx
    stackBuf := fun i => if i< m.stackBufSize then m.stackBuf i else ⟨0, none⟩
    stackBufSize := stackBufferSize}

def releaseCollectThreadContext (m : LocalThreadContextMix) : LocalThreadContextMix :=
  {m with
    registers := ⟨0, 0, 0, 0⟩
    registersBy := none
    stackTop := 0
    stackBufSize := 0
    tid := -1
    status := .init
    stackCopiedLen := 0}

def checkStatusValidate (status : SyncStatus) (tid : ℤ) (m : LocalThreadContextMix) : Bool :=
  m.status = status ∧ m.tid = tid

def copyRegister (h : Origin) (context : Registers) (m : LocalThreadContextMix) : LocalThreadContextMix :=
  {m with registers := context, registersBy := some h}

def cpySz (m : LocalThreadContextMix) : ℕ := min ((m.stackTop+2^64-m.registers.sp) % 2^64) stackBufferSize

/-- The locked part of `CopyStackBuf`; `readable` bytes can be read from `sp_` on, and they are `memory`. -/
def copyStackBuf (h : Origin) (cpySz readable : ℕ) (memory : ℕ → UInt8) (m : LocalThreadContextMix) :
    LocalThreadContextMix :=
  let copied := min readable (min m.stackBufSize cpySz)
  {m with
    stackBuf := fun i => if i<copied then ⟨memory i, some h⟩ else m.stackBuf i
    stackCopiedLen := copied
    status := if 0<copied then .copySuccess else .copyFailed}

end LocalThreadContextMix

inductive Point where
  | unsent
  | pending
  | checked
  | ranged
  | registered
  | tested
  | sized (cpySz : ℕ)
  | notified
  | returned
deriving DecidableEq

structure Handler where
  tid : ℤ
  point : Point

inductive Collector where
  | idle
  | started
  | signalled
  | waiting (notified : Bool)
  | woken
  | returned (result : Bool)
deriving DecidableEq

def Collector.inCall : Collector → Bool
  | .idle | .returned _ => false
  | _ => true

def Collector.notify : Collector → Collector
  | .waiting _ => .waiting true
  | c => c

structure State where
  mix : LocalThreadContextMix
  call : ℕ
  tid : ℤ
  collector : Collector
  handlers : ℕ → Handler

def State.initial : State where
  mix := ⟨⟨0, 0, 0, 0⟩, none, 0, fun _ => ⟨0, none⟩, 0, 0, -1, .init⟩
  call := 0
  tid := -1
  collector := .idle
  handlers _ := ⟨-1, .unsent⟩

/-- What a handler finds on its thread: the range of the stack, the interrupted registers, and the memory at `sp_`. -/
structure Surroundings where
  stackTop : Option ℕ
  context : Registers
  readable : ℕ
  memory : ℕ → UInt8

namespace State

def move (c : ℕ) (point : Point) (s : State) : State :=
  {s with handlers := Function.update s.handlers c {s.handlers c with point := point}}

/-- The next step of the handler of call `c`. The main thread has its stack range from `SetStackRang`. -/
def handle (getpid : ℤ) (c : ℕ) (env : Surroundings) (s : State) : State :=
  let h : Origin := ⟨c, (s.handlers c).tid⟩
  match (s.handlers c).point with
  | .pending => if s.mix.checkStatusValidate .waitCtx h.tid then s.move c .checked else s.move c .returned
  | .checked =>
    if h.tid = getpid then s.move c .ranged
    else
      match env.stackTop with
      | none => s.move c .returned
      | some stackTop => {s with mix := {s.mix with stackTop := stackTop}}.move c .ranged
  | .ranged => {s with mix := s.mix.copyRegister h env.context}.move c .registered
  | .registered => if s.mix.stackTop ≤ s.mix.registers.sp then s.move c .returned else s.move c .tested
  | .tested => s.move c (.sized s.mix.cpySz)
  | .sized cpySz =>
    {s with
      mix := s.mix.copyStackBuf h cpySz env.readable env.memory
      collector := s.collector.notify}.move c .notified
  | .unsent | .notified | .returned => s

def start (tid : ℤ) (s : State) : State :=
  if s.collector.inCall then s
  else {s with
    mix := s.mix.startCollectThreadContext tid
    call := s.call+1
    tid := tid
    collector := .started
    handlers := Function.update s.handlers (s.call+1) ⟨tid, .unsent⟩}

def signalRequestThread (sent : Bool) (s : State) : State :=
  if s.collector = .started then
    if sent then {s with collector := .signalled}.move s.call .pending else {s with collector := .returned false}
  else s

/-- The wait, its end after a notification, and the last look at the status. -/
def collect (s : State) : State :=
  match s.collector with
  | .signalled => {s with collector := .waiting false}
  | .waiting true => {s with collector := .woken}
  | .woken => {s with collector := .returned (s.mix.checkStatusValidate .copySuccess s.tid)}
  | _ => s

def timeout (s : State) : State :=
  match s.collector with
  | .waiting _ => {s with collector := .returned false}
  | _ => s

def spurious (s : State) : State :=
  match s.collector with
  | .waiting _ => {s with collector := .woken}
  | _ => s

end State

inductive Event where
  | setStackRang (stackTop : ℕ)
  | start (tid : ℤ)
  | signalRequestThread (sent : Bool)
  | collect
  | timeout
  | spurious
  | release
  | handle (c : ℕ) (env : Surroundings)

def step (getpid : ℤ) : Event → State → State
  | .setStackRang stackTop, s =>
    if s.collector.inCall then s else {s with mix := {s.mix with stackTop := stackTop}}
  | .start tid, s => s.start tid
  | .signalRequestThread sent, s => s.signalRequestThread sent
  | .collect, s => s.collect
  | .timeout, s => s.timeout
  | .spurious, s => s.spurious
  | .release, s => if s.collector.inCall then s else {s with mix := s.mix.releaseCollectThreadContext}
  | .handle c env, s => s.handle getpid c env

end Faultloggerd.ThreadContext
