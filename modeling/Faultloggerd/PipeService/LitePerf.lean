import Faultloggerd.EventLoop.ClockedService
import Faultloggerd.PipeService.Pipe

/-! # Sessions of LitePerf

A process that samples itself asks for pipes, at most one pair for a user. A delay task removes the pairs that have
expired, and users and the device have a daily limit.
-/
namespace Faultloggerd.PipeService.LitePerf
open Foundations EventLoop
open Coredump (Ucred Connection)

/-- `LitePerfPipePair`; `serial` numbers the pairs for the proofs. -/
structure LitePerfPipePair where
  uid : ℤ
  timeOutTime : ℕ
  pipes : PipePair
  serial : ℕ
deriving DecidableEq

/-- `PerfResourceLimiter`: a user that is not in the map has no count yet. -/
structure PerfResourceLimiter where
  perfCounts : ℤ → ℤ
  devicePerfCount : ℤ

structure Memory where
  pipes : List LitePerfPipePair
  limiter : PerfResourceLimiter
  created : ℕ

def Memory.initial : Memory :=
  ⟨[], ⟨fun _ => 0, 0⟩, 0⟩

inductive Task where
  | clearTimeOutPairs

def maxLitePerfPipeSize : ℕ := 100

section Pairs

variable (uid : ℤ) (m : Memory)

def checkDumpMax : Bool :=
  maxLitePerfPipeSize < m.pipes.length

def getPipePair : Option LitePerfPipePair :=
  KeyedList.find LitePerfPipePair.uid uid m.pipes

def checkDumpRecord : Bool :=
  (getPipePair uid m).isSome

def createPipePair (timeOutTime : ℕ) (pipe2 : PipeFdUsage → Option (ℕ×ℕ)) : LitePerfPipePair × Memory :=
  match getPipePair uid m with
  | some pair => (pair, m)
  | none =>
    let pair := ⟨uid, timeOutTime, .create pipe2, m.created⟩
    (pair, {m with pipes := m.pipes++[pair], created := m.created+1})

def delPipePair : Memory :=
  {m with pipes := KeyedList.remove LitePerfPipePair.uid uid m.pipes}

def clearTimeOutPairs (currentTime : ℕ) : Memory :=
  {m with pipes := m.pipes.filter fun pair => decide (currentTime<pair.timeOutTime)}

end Pairs

def deviceLimit : ℤ := 50

def uidPerfLimit : ℤ := 20

def PerfResourceLimiter.checkPerfLimit (uid : ℤ) (limiter : PerfResourceLimiter) :
    ResponseCode × PerfResourceLimiter :=
  if limiter.devicePerfCount ≥ deviceLimit then (.resourceLimit, limiter)
  else if limiter.perfCounts uid ≥ uidPerfLimit then (.resourceLimit, limiter)
  else
    (.requestSuccess, {
      perfCounts := Function.update limiter.perfCounts uid (limiter.perfCounts uid+1)
      devicePerfCount := limiter.devicePerfCount+1})

def resetLimits (m : Memory) : Memory :=
  {m with limiter := ⟨fun _ => 0, 0⟩}

def checkPerfLimit (uid : ℤ) (checkLimit : Bool) (m : Memory) : ResponseCode × Memory :=
  if checkDumpMax m then (.resourceLimit, m)
  else if checkDumpRecord uid m then (.sdkDumpRepeat, m)
  else if !checkLimit then (.requestSuccess, m)
  else
    let checked := m.limiter.checkPerfLimit uid
    (checked.1, {m with limiter := checked.2})

structure LitePerfFdRequestData where
  pid : ℤ
  uid : ℤ
  pipeType : ℤ
  timeout : ℤ
  checkLimit : Bool

/-- What the system answers while a request is handled; `elapsed` and `taken` are the time and the numbers of the shared
sequence that go by between the look at the clock and the new task. -/
structure System where
  pipe2 : PipeFdUsage → Option (ℕ×ℕ)
  elapsed : ℕ
  taken : ℕ

def filter (connection : Connection) (requestData : LitePerfFdRequestData) : Bool :=
  if requestData.pipeType > pipeFdDelete ∨ requestData.pipeType < pipeFdRead then false
  else connection.peer.any fun creds => decide (creds.uid=requestData.uid)

def maxStopSeconds : ℤ := 10000

def dumpLiteperfTimeout : ℤ := 5000

def maxPerfTimeout : ℤ := (maxStopSeconds+dumpLiteperfTimeout)/1000

def delayTime (requestData : LitePerfFdRequestData) : ℤ :=
  min requestData.timeout maxPerfTimeout

def timeOutTime (currentTime : ℕ) (requestData : LitePerfFdRequestData) : ℕ :=
  (currentTime+(delayTime requestData).toNat*1000000) % 2^64

def sendFds (fds : ℤ×ℤ) : ResponseCode :=
  if fds.1 < 0 ∨ fds.2 < 0 then .abnormalService else .requestSuccess

def giveReadEnds (currentTime : ℕ) (system : System) (requestData : LitePerfFdRequestData) (m : Memory) :
    Work Task (ResponseCode×Memory) :=
  let checked := checkPerfLimit requestData.uid requestData.checkLimit m
  if checked.1 ≠ .requestSuccess then pure checked
  else if requestData.timeout < 0 then pure (.abnormalService, checked.2)
  else
    let created := createPipePair requestData.uid checked.2 (timeOutTime currentTime requestData) system.pipe2
    .wait system.elapsed system.taken
      (.addDelayTask .clearTimeOutPairs (BitVec.ofInt 32 (delayTime requestData)) fun _ =>
        pure (sendFds (created.1.pipes.getFds pipeFdRead).1, created.2))

def giveWriteEnds (requestData : LitePerfFdRequestData) (m : Memory) : ResponseCode × Memory :=
  match getPipePair requestData.uid m with
  | none => (.abnormalService, m)
  | some pair =>
    let mark := fun pair : LitePerfPipePair => {pair with pipes := (pair.pipes.getFds pipeFdWrite).2}
    (sendFds (pair.pipes.getFds pipeFdWrite).1,
      {m with pipes := KeyedList.modify LitePerfPipePair.uid requestData.uid mark m.pipes})

def onRequest (currentTime : ℕ) (system : System) (connection : Connection) (requestData : LitePerfFdRequestData)
    (m : Memory) : Work Task (ResponseCode×Memory) :=
  if !filter connection requestData then pure (.requestReject, m)
  else if requestData.pipeType = pipeFdDelete then pure (.requestSuccess, delPipePair requestData.uid m)
  else if requestData.pipeType = pipeFdRead then giveReadEnds currentTime system requestData m
  else pure (giveWriteEnds requestData m)

inductive Request where
  | pipe (system : System) (connection : Connection) (requestData : LitePerfFdRequestData)
  | resetLimits

def handle (request : Request) (now : ℕ) (m : Memory) : Work Task Memory :=
  match request with
  | .pipe system connection requestData => Prod.snd <$> onRequest now system connection requestData m
  | .resetLimits => pure (resetLimits m)

def service : ClockedService Request Task Memory where
  handle := handle
  body now task m := match task with
    | .clearTimeOutPairs => clearTimeOutPairs m now

end Faultloggerd.PipeService.LitePerf
