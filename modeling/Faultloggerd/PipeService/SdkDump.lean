import Faultloggerd.PipeService.Pipe

/-! # Sessions of SDK dumps

A client asks for a dump of a process and gets the read ends of a new pair of pipes; the process that is dumped asks for
the write ends. `SdkDumpService` and `PipeService` share the list of pairs.
-/
namespace Faultloggerd.PipeService.SdkDump
open Foundations Foundations.EventRuns
open Coredump (Ucred Connection)

/-- `FaultLoggerPipePair`; `serial` numbers the pairs for the proofs. -/
structure FaultLoggerPipePair where
  pid : ℤ
  requestTime : BitVec 64
  pipes : PipePair
  serial : ℕ

def FaultLoggerPipePair.isValid (pair : FaultLoggerPipePair) (checkTime : BitVec 64) : Bool :=
  checkTime.ule (pair.requestTime+10000)

/-- A write end that went to a client, with the pair of the latest accepted dump request at that time. -/
structure HandOut where
  pid : ℤ
  serial : ℕ
  usage : PipeFdUsage
  latest : Option ℕ

/-- The list of pairs. What follows is for the proofs: how many pairs were made, the pair of the latest accepted dump
request for each process, and the write ends handed out. -/
structure Sessions where
  sdkDumpPipes : List FaultLoggerPipePair
  created : ℕ
  accepted : ℤ → Option ℕ
  handed : List HandOut

def Sessions.initial : Sessions :=
  ⟨[], 0, fun _ => none, []⟩

section Pairs

variable (pid : ℤ) (s : Sessions)

def getSdkDumpPipePair : Option FaultLoggerPipePair :=
  KeyedList.find FaultLoggerPipePair.pid pid s.sdkDumpPipes

def createSdkDumpPipePair (requestTime : BitVec 64) (pipe2 : PipeFdUsage → Option (ℕ×ℕ)) :
    FaultLoggerPipePair × Sessions :=
  match getSdkDumpPipePair pid s with
  | some pair => (pair, s)
  | none =>
    let pair := ⟨pid, requestTime, .create pipe2, s.created⟩
    (pair, {s with sdkDumpPipes := s.sdkDumpPipes++[pair], created := s.created+1})

def checkSdkDumpRecord (checkTime : BitVec 64) : Bool × Sessions :=
  match getSdkDumpPipePair pid s with
  | none => (false, s)
  | some pair =>
    if pair.isValid checkTime then (true, s)
    else (false, {s with sdkDumpPipes := s.sdkDumpPipes.eraseP fun pair => decide (pair.pid=pid)})

def delSdkDumpPipePair : Sessions :=
  {s with sdkDumpPipes := KeyedList.remove FaultLoggerPipePair.pid pid s.sdkDumpPipes}

end Pairs

structure SdkDumpRequestData where
  pid : ℤ
  sigCode : ℤ
  tid : ℤ
  callerTid : ℤ
  time : BitVec 64
  endTime : BitVec 64

/-- The fields of the signal's `siginfo_t`; the value is the thread or, for a whole process, a time with its top bit
set. -/
structure Siginfo where
  signo : ℤ
  code : ℤ
  value : BitVec 64
  pid : ℤ
  uid : ℤ

structure System where
  /-- `TempFileManager::CheckCrashFileRecord` -/
  crashed : Bool
  pipe2 : PipeFdUsage → Option (ℕ×ℕ)
  sendSignalToProcess : ℤ → Siginfo → ResponseCode

def serverSdkdumpSocketName : String := "faultloggerd.sdkdump.server"

def sigDump : ℤ := 35

def siginfoOf (creds : Ucred) (requestData : SdkDumpRequestData) : Siginfo where
  signo := sigDump
  code := requestData.sigCode
  value :=
    if requestData.tid = 0 then requestData.endTime ||| (1 <<< 63)
    else (BitVec.ofInt 32 requestData.tid).setWidth 64
  pid := creds.pid
  uid := requestData.callerTid

def filterSdkDump (system : System) (socketName : String) (requestData : SdkDumpRequestData) (uid : ℤ) (s : Sessions) :
    ResponseCode × Sessions :=
  if requestData.pid ≤ 0 ∨ socketName ≠ serverSdkdumpSocketName ∨ !checkCallerUID uid then (.requestReject, s)
  else if system.crashed then (.sdkProcessCrashed, s)
  else
    let checked := checkSdkDumpRecord requestData.pid s requestData.time
    if checked.1 then (.sdkDumpRepeat, checked.2) else (.requestSuccess, checked.2)

def startDump (system : System) (creds : Ucred) (requestData : SdkDumpRequestData) (s : Sessions) :
    ResponseCode × Sessions :=
  let created := createSdkDumpPipePair requestData.pid s requestData.time system.pipe2
  let res := system.sendSignalToProcess requestData.pid (siginfoOf creds requestData)
  if res ≠ .requestSuccess then (res, delSdkDumpPipePair requestData.pid created.2)
  else
    let fds := (created.1.pipes.getFds pipeFdRead).1
    if fds.1 < 0 ∨ fds.2 < 0 then (.abnormalService, delSdkDumpPipePair requestData.pid created.2)
    else
      (res, {created.2 with accepted := Function.update created.2.accepted requestData.pid (some created.1.serial)})

def onSdkDumpRequest (system : System) (connection : Connection) (requestData : SdkDumpRequestData) (s : Sessions) :
    ResponseCode × Sessions :=
  match connection.peer with
  | none => (.requestReject, s)
  | some creds =>
    let filtered := filterSdkDump system connection.socketName requestData creds.uid s
    if filtered.1 ≠ .requestSuccess then filtered
    else startDump system creds requestData filtered.2

structure PipFdRequestData where
  pid : ℤ
  pipeType : ℤ

def filterPipe (socketName : String) (creds : Ucred) (requestData : PipFdRequestData) : Bool :=
  if requestData.pipeType > pipeFdDelete ∨ requestData.pipeType < pipeFdRead then false
  else if socketName = Coredump.serverCrashSocketName then true
  else checkCallerUID creds.uid

def markPair (pid : ℤ) (s : Sessions) : Sessions :=
  let mark := fun pair : FaultLoggerPipePair => {pair with pipes := (pair.pipes.getFds pipeFdWrite).2}
  {s with sdkDumpPipes := KeyedList.modify FaultLoggerPipePair.pid pid mark s.sdkDumpPipes}

def handOut (pair : FaultLoggerPipePair) (s : Sessions) : Sessions :=
  {s with handed := ⟨pair.pid, pair.serial, .bufferFd, s.accepted pair.pid⟩ ::
      ⟨pair.pid, pair.serial, .resultFd, s.accepted pair.pid⟩::s.handed}

/-- `PipeService::OnRequest` where it is not to delete: write ends, whichever end was asked for. -/
def giveWriteEnds (pid : ℤ) (s : Sessions) : ResponseCode × Sessions :=
  match getSdkDumpPipePair pid s with
  | none => (.abnormalService, s)
  | some pair =>
    let got := pair.pipes.getFds pipeFdWrite
    if got.1.1 < 0 ∨ got.1.2 < 0 then (.abnormalService, markPair pid s)
    else (.requestSuccess, handOut pair (markPair pid s))

def onPipeRequest (connection : Connection) (requestData : PipFdRequestData) (s : Sessions) :
    ResponseCode × Sessions :=
  match connection.peer with
  | none => (.requestReject, s)
  | some creds =>
    if !filterPipe connection.socketName creds requestData then (.requestReject, s)
    else if requestData.pipeType = pipeFdDelete then (.requestSuccess, delSdkDumpPipePair requestData.pid s)
    else giveWriteEnds requestData.pid s

inductive Request where
  | sdkDump (system : System) (connection : Connection) (requestData : SdkDumpRequestData)
  | pipe (connection : Connection) (requestData : PipFdRequestData)

def handle : Request → Sessions → ResponseCode × Sessions
  | .sdkDump system connection requestData, s => onSdkDumpRequest system connection requestData s
  | .pipe connection requestData, s => onPipeRequest connection requestData s

def step (request : Request) (s : Sessions) : Sessions :=
  (handle request s).2

end Faultloggerd.PipeService.SdkDump
