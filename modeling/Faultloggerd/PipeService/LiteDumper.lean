import Faultloggerd.EventLoop.ClockedService
import Faultloggerd.PipeService.Pipe

/-! # Pipes of lite dumps

A process that is not allowed to be traced writes its state into a pipe, and the dumper reads it.
`LiteProcDumperPipeService` keeps one pipe for a process, removes it by a delay task, and limits how often a user may
ask in a day.
-/
namespace Faultloggerd.PipeService.LiteDumper
open Foundations EventLoop
open Coredump (Ucred Connection)

/-- `LimitedPipePair`; for the proofs, its number and when the last successful request that used it came in. -/
structure LimitedPipePair where
  pid : ℤ
  faultLoggerPipeBuf : FaultLoggerPipe
  serial : ℕ
  lastUse : ℕ
deriving DecidableEq

/-- What happened to the counters: a request was counted for a user and did or did not pass, or all were cleared. -/
inductive Note where
  | counted (uid : ℤ) (time : ℕ) (passed : Bool)
  | cleared (time : ℕ)
deriving DecidableEq

/-- The pipes, the counters by user, and for the proofs the number of pipes made and the notes, latest first. -/
structure Memory where
  pipes : List LimitedPipePair
  launchLiteDumpPipeMap : List (ℤ×ℤ)
  created : ℕ
  notes : List Note

def Memory.initial : Memory :=
  ⟨[], [], 0, []⟩

/-- A removal carries, for the proofs, the time of the request that started it. -/
inductive Task where
  | clearCounters
  | delPipePair (pid : ℤ) (started : ℕ)
deriving DecidableEq

section Pairs

variable (pid : ℤ) (m : Memory)

def getPipePair : Option LimitedPipePair :=
  KeyedList.find LimitedPipePair.pid pid m.pipes

def checkDumpRecord : Bool :=
  (getPipePair pid m).isSome

def createPipePair (now : ℕ) (pipe2 : Option (ℕ×ℕ)) : LimitedPipePair × Memory :=
  match getPipePair pid m with
  | some pair => (pair, m)
  | none =>
    let pair := ⟨pid, .create pipe2, m.created, now⟩
    (pair, {m with pipes := m.pipes++[pair], created := m.created+1})

def delPipePair : Memory :=
  {m with pipes := KeyedList.remove LimitedPipePair.pid pid m.pipes}

def changePair (change : LimitedPipePair → LimitedPipePair) : Memory :=
  {m with pipes := KeyedList.modify LimitedPipePair.pid pid change m.pipes}

end Pairs

def clearCounters (now : ℕ) (m : Memory) : Memory :=
  {m with launchLiteDumpPipeMap := [], notes := .cleared now::m.notes}

def arkwebMinUid : ℤ := 1000001

def arkwebMaxUid : ℤ := 1099999

def getRealUid (uid : ℤ) : ℤ :=
  if uid ≥ arkwebMinUid ∧ uid ≤ arkwebMaxUid then arkwebMinUid else uid

def liteDumpLimitOneDay : ℤ := 60

def oneDaySec : ℕ := 24*60*60

def liteDumpCount (uid : ℤ) (m : Memory) : ℤ :=
  ((KeyedList.find Prod.fst uid m.launchLiteDumpPipeMap).map Prod.snd).getD 0

def countRequest (uid : ℤ) (m : Memory) : Memory :=
  let next := (liteDumpCount uid m+1).bmod (2^32)
  match KeyedList.find Prod.fst uid m.launchLiteDumpPipeMap with
  | none => {m with launchLiteDumpPipeMap := m.launchLiteDumpPipeMap ++ [(uid, next)]}
  | some _ => {m with
      launchLiteDumpPipeMap := KeyedList.modify Prod.fst uid (fun _ => (uid, next)) m.launchLiteDumpPipeMap}

structure LiteDumpFdRequestData where
  pid : ℤ
  uid : ℤ
  pipeType : ℤ
  processName : String

/-- What the system answers while a request is handled; `elapsed` and `taken` are the time and the numbers of the shared
sequence that go by before the second task. -/
structure System where
  pipe2 : Option (ℕ×ℕ)
  /-- `/proc/pid/cmdline` up to the first zero -/
  cmdline : String
  elapsed : ℕ
  taken : ℕ

def checkProcessName (system : System) (procName : String) : Bool :=
  if procName.isEmpty then false else system.cmdline == procName

/-- The part of `Filter` behind the counter. -/
def filterKind (system : System) (requestData : LiteDumpFdRequestData) : Bool :=
  if requestData.pipeType = pipeFdDelete ∨ requestData.pipeType = pipeFdRead then true
  else if requestData.pipeType ≠ pipeFdWrite then false
  else checkProcessName system requestData.processName

/-- The user that a request is counted for, if `Filter` comes that far. -/
def countedUid (connection : Connection) (requestData : LiteDumpFdRequestData) : Option ℤ :=
  match connection.peer with
  | none => none
  | some creds =>
    if creds.pid ≠ requestData.pid ∧ !checkCallerUID creds.uid then none
    else some (getRealUid creds.uid)

def filter (now : ℕ) (system : System) (connection : Connection) (requestData : LiteDumpFdRequestData) (m : Memory) :
    Bool × Memory :=
  match countedUid connection requestData with
  | none => (false, m)
  | some uid =>
    let passed := if liteDumpCount uid m ≥ liteDumpLimitOneDay*3 then false else filterKind system requestData
    (passed, {countRequest uid m with notes := .counted uid now passed::m.notes})

/-- The end of `OnRequest`: a pipe without descriptor is removed, another one is given ten seconds. -/
def sendFd (now : ℕ) (system : System) (pid fd : ℤ) (m : Memory) : Work Task (ResponseCode×Memory) :=
  if fd < 0 then pure (.abnormalService, delPipePair pid m)
  else
    .wait system.elapsed system.taken (.addDelayTask (.delPipePair pid now) 10 fun _ =>
      pure (.requestSuccess, changePair pid m fun pair => {pair with lastUse := now}))

def serve (now : ℕ) (system : System) (requestData : LiteDumpFdRequestData) (m : Memory) :
    Work Task (ResponseCode×Memory) :=
  let pid := requestData.pid
  if requestData.pipeType = pipeFdDelete then pure (.requestSuccess, delPipePair pid m)
  else if requestData.pipeType = pipeFdWrite then
    if checkDumpRecord pid m then pure (.sdkDumpRepeat, m)
    else
      let created := createPipePair pid m now system.pipe2
      let got := created.1.faultLoggerPipeBuf.getPipeFd pipeFdWrite
      sendFd now system pid got.1 (changePair pid created.2 fun pair => {pair with faultLoggerPipeBuf := got.2})
  else
    match getPipePair pid m with
    | none => pure (.requestReject, m)
    | some pair => sendFd now system pid (pair.faultLoggerPipeBuf.getPipeFd pipeFdRead).1 m

def onRequest (now : ℕ) (system : System) (connection : Connection) (requestData : LiteDumpFdRequestData) (m : Memory) :
    Work Task (ResponseCode×Memory) := do
  if m.launchLiteDumpPipeMap.isEmpty then
    .addDelayTask .clearCounters (BitVec.ofNat 32 oneDaySec) fun _ => pure ()
  let filtered := filter now system connection requestData m
  if !filtered.1 then pure (.requestReject, filtered.2)
  else serve now system requestData filtered.2

structure Request where
  system : System
  connection : Connection
  requestData : LiteDumpFdRequestData

def service : ClockedService Request Task Memory where
  handle request now m := Prod.snd <$> onRequest now request.system request.connection request.requestData m
  body now task m := match task with
    | .clearCounters => clearCounters now m
    | .delPipePair pid _ => delPipePair pid m

end Faultloggerd.PipeService.LiteDumper
