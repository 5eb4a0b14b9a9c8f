import Faultloggerd.Foundations.EventRuns
import Mathlib.Data.Int.Notation
import Mathlib.Data.List.Basic

/-! # Collecting the stacks of the other threads (`dfx_lite_dump_request.c`, `safe_reader.c`)

The collector signals the other threads of the process. The handler of each takes the next slot of the shared mapping,
stores its request there and copies its stack behind it, page by page through one pipe of the process. The collector
waits until as many handlers have completed as it has signalled, for one second at most, reads how many have completed,
and later sends that many slots.

An event is one step of the collector or of one thread, or a store of the program, so that a list of events is an
interleaving.
-/
namespace Faultloggerd.LiteDump

def maxDumpThreadNum : ℕ := 500

def threadStackBufferSize : ℕ := 65536

def localdumpTimeout : ℕ := 1000

/-- The kernel puts the frame of a handler below `sp`, so this is an address of the process: no sum below wraps. -/
structure Context where
  sp : ℕ
  user : sp < 2^52

structure ThreadDumpRequest where
  tid : ℤ
  nsTid : ℤ
  threadName : String
  context : Context

structure Process where
  pageSize : ℕ
  request : ℕ → ThreadDumpRequest

structure Copied where
  address : ℕ
  value : UInt8
deriving DecidableEq

structure Slot where
  request : Option ThreadDumpRequest
  stack : ℕ → Option Copied

/-- Where `ReadableDataByPipe` is: before its test of `g_pipeFd`, before `pipe2`, before `write` and before `read`. -/
inductive Stage where
  | check
  | initPipe
  | write
  | read
deriving DecidableEq

inductive Point where
  | idle
  | pending
  | started (pos : ℕ)
  | copying (pos currentPtr dest : ℕ) (stage : Stage)
  | copied (pos : ℕ)
  | completed (pos : ℕ)
  | returned (pos : ℕ)
deriving DecidableEq

/-- Where the collector is. With the count it has read goes the place every thread was at. -/
inductive Collector where
  | signalling
  | waiting (timeoutMs : ℕ)
  | reading
  | collected (threadCompletedCount : ℕ) (atRead : ℕ → Point)
  | closed (threadCompletedCount : ℕ) (atRead : ℕ → Point)
  | finished

structure State where
  memory : ℕ → Option UInt8
  /-- The bytes in the pipe of `g_pipeFd`. -/
  pipe : Option (List Copied)
  slots : ℕ → Slot
  handlers : ℕ → Point
  threadStartCount : ℕ
  threadCompletedCount : ℕ
  threadSentCount : ℕ
  collector : Collector
  sent : Option (List Slot)

def State.initial (memory : ℕ → Option UInt8) : State where
  memory := memory
  pipe := none
  slots _ := ⟨none, fun _ => none⟩
  handlers _ := .idle
  threadStartCount := 0
  threadCompletedCount := 0
  threadSentCount := 0
  collector := .signalling
  sent := none

def Point.pos? : Point → Option ℕ
  | .idle | .pending => none
  | .started pos | .copying pos _ _ _ | .copied pos | .completed pos | .returned pos => some pos

/-- The page size is a power of two, for which masking is rounding down. -/
def getCurrentPageEndAddr (pageSize addr : ℕ) : ℕ := (addr+pageSize)/pageSize*pageSize

namespace Process
variable (p : Process) (t : ℕ)

def srcPtr : ℕ := (p.request t).context.sp

def srcEndPtr : ℕ := p.srcPtr t+threadStackBufferSize

def copySize (currentPtr : ℕ) : ℕ := min (getCurrentPageEndAddr p.pageSize currentPtr) (p.srcEndPtr t)-currentPtr

def nextPage (pos currentPtr dest : ℕ) : Point :=
  if currentPtr+p.copySize t currentPtr < p.srcEndPtr t then
    .copying pos (currentPtr+p.copySize t currentPtr) (dest+p.copySize t currentPtr) .check
  else .copied pos

end Process

/-- What `write` takes from the memory, which is readable page by page. -/
def readable (memory : ℕ → Option UInt8) (address size : ℕ) : Option (List Copied) :=
  if (List.range size).all fun i => (memory (address+i)).isSome then
    some ((List.range size).map fun i => ⟨address+i, (memory (address+i)).getD 0⟩)
  else none

def Slot.store (slot : Slot) (dest : ℕ) (bytes : List Copied) : Slot :=
  {slot with stack := fun i => if i<dest then slot.stack i else (bytes[i-dest]?).or (slot.stack i)}

namespace State

def move (t : ℕ) (point : Point) (s : State) : State :=
  {s with handlers := Function.update s.handlers t point}

def setSlot (pos : ℕ) (slot : Slot) (s : State) : State :=
  {s with slots := Function.update s.slots pos slot}

/-- The next system call of `ReadableDataByPipe`; `ok` says whether `pipe2` and `write` succeed. -/
def readableDataByPipe (p : Process) (t : ℕ) (ok : Bool) (pos currentPtr dest : ℕ) (stage : Stage)
    (s : State) : State :=
  match stage with
  | .check => s.move t (.copying pos currentPtr dest (if s.pipe.isNone then .initPipe else .write))
  | .initPipe =>
    if ok then {s with pipe := some []}.move t (.copying pos currentPtr dest .write)
    else {s with pipe := none}.move t (p.nextPage t pos currentPtr dest)
  | .write =>
    match s.pipe, ok, readable s.memory currentPtr (p.copySize t currentPtr) with
    | some queue, true, some bytes =>
      {s with pipe := some (queue++bytes)}.move t (.copying pos currentPtr dest .read)
    | _, _, _ => s.move t (p.nextPage t pos currentPtr dest)
  | .read =>
    match s.pipe with
    | some queue =>
      let size := p.copySize t currentPtr
      ({s with pipe := some (queue.drop size)}.setSlot pos ((s.slots pos).store dest (queue.take size))).move t
        (p.nextPage t pos currentPtr dest)
    | none => s.move t (p.nextPage t pos currentPtr dest)

def copyReadableBufSafe (p : Process) (t pos : ℕ) (s : State) : State :=
  if p.srcPtr t = 0 then s.move t (.copied pos) else s.move t (.copying pos (p.srcPtr t) 0 .check)

/-- The next step of `DfxBacktraceLocalSignalHandler` on a thread. `ok` is the outcome of what the step calls. -/
def runHandler (p : Process) (t : ℕ) (ok : Bool) (s : State) : State :=
  match s.handlers t with
  | .pending =>
    if s.threadStartCount ≥ maxDumpThreadNum then
      {s with threadStartCount := s.threadStartCount+1}.move t (.returned s.threadStartCount)
    else {s with threadStartCount := s.threadStartCount+1}.move t (.started s.threadStartCount)
  | .started pos =>
    if ok then
      (s.setSlot pos {s.slots pos with request := some (p.request t)}).copyReadableBufSafe p t pos
    else s.move t (.returned pos)
  | .copying pos currentPtr dest stage => s.readableDataByPipe p t ok pos currentPtr dest stage
  | .copied pos => {s with threadCompletedCount := s.threadCompletedCount+1}.move t (.completed pos)
  | .idle | .completed _ | .returned _ => s

def signal (t : ℕ) (s : State) : State :=
  match s.collector, s.handlers t with
  | .signalling, .idle =>
    {s with
      threadSentCount := s.threadSentCount+1
      collector := if s.threadSentCount+1 ≥ maxDumpThreadNum then .waiting localdumpTimeout else .signalling}.move
        t .pending
  | _, _ => s

def writeOtherThreadStack (threadNum : ℕ) (s : State) : Option (List Slot) :=
  if threadNum > maxDumpThreadNum then none else some ((List.range threadNum).map s.slots)

/-- The next step of the collector: the end of the task list, `WaitTimeout`, `DeInitPipe`, `WriteOtherThreadStack`. -/
def collect (s : State) : State :=
  match s.collector with
  | .signalling => {s with collector := .waiting localdumpTimeout}
  | .waiting 0 => {s with collector := .reading}
  | .waiting (timeoutMs+1) =>
    if s.threadCompletedCount ≥ s.threadSentCount then {s with collector := .reading}
    else {s with collector := .waiting timeoutMs}
  | .reading => {s with collector := .collected s.threadCompletedCount s.handlers}
  | .collected threadCompletedCount atRead =>
    {s with pipe := none, collector := .closed threadCompletedCount atRead}
  | .closed threadNum _ => {s with sent := s.writeOtherThreadStack threadNum, collector := .finished}
  | .finished => s

end State

inductive Event where
  | signal (t : ℕ)
  | collect
  | run (t : ℕ) (ok : Bool)
  | store (address : ℕ) (value : Option UInt8)
deriving DecidableEq

def step (p : Process) : Event → State → State
  | .signal t, s => s.signal t
  | .collect, s => s.collect
  | .run t ok, s => s.runHandler p t ok
  | .store address value, s => {s with memory := Function.update s.memory address value}

end Faultloggerd.LiteDump
