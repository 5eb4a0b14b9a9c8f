import Faultloggerd.Coredump.Sessions
import Faultloggerd.Foundations.KeyedList

/-! # Pipes of the daemon

The daemon makes pipes and hands their ends to the two sides of a dump. A write end is handed out once.
-/
namespace Faultloggerd.PipeService

inductive ResponseCode where
  | requestSuccess | requestReject | abnormalService | sdkDumpRepeat | sdkDumpNoproc | sdkProcessCrashed
  | resourceLimit
deriving DecidableEq

def pipeFdRead : ℤ := 0

def pipeFdWrite : ℤ := 1

def pipeFdDelete : ℤ := 2

inductive PipeFdUsage where
  | bufferFd | resultFd

structure FaultLoggerPipe where
  write : Bool
  readFd : ℤ
  writeFd : ℤ
deriving DecidableEq

namespace FaultLoggerPipe

def create : Option (ℕ×ℕ) → FaultLoggerPipe
  | none => ⟨false, -1, -1⟩
  | some (readFd, writeFd) => ⟨false, readFd, writeFd⟩

def getWriteFd (pipe : FaultLoggerPipe) : ℤ × FaultLoggerPipe :=
  if !pipe.write then (pipe.writeFd, {pipe with write := true})
  else (-1, pipe)

def getPipeFd (pipeType : ℤ) (pipe : FaultLoggerPipe) : ℤ × FaultLoggerPipe :=
  if pipeType = pipeFdRead then (pipe.readFd, pipe)
  else if pipeType = pipeFdWrite then pipe.getWriteFd
  else (-1, pipe)

theorem getWriteFd_spec (pipe : FaultLoggerPipe) : pipe.getWriteFd.2.write=true ∧
    (0≤pipe.getWriteFd.1 → pipe.write=false) := by
  unfold getWriteFd
  cases hw : pipe.write with
  | false => exact ⟨rfl, fun _ => rfl⟩
  | true => exact ⟨hw, fun hn => absurd (show (0 : ℤ) ≤ -1 from hn) (by decide)⟩

end FaultLoggerPipe

structure PipePair where
  faultLoggerPipeBuf : FaultLoggerPipe
  faultLoggerPipeRes : FaultLoggerPipe
deriving DecidableEq

namespace PipePair

def create (pipe2 : PipeFdUsage → Option (ℕ×ℕ)) : PipePair :=
  ⟨.create (pipe2 .bufferFd), .create (pipe2 .resultFd)⟩

def getPipeFd (usage : PipeFdUsage) (pipeType : ℤ) (pair : PipePair) : ℤ × PipePair :=
  match usage with
  | .bufferFd =>
    let got := pair.faultLoggerPipeBuf.getPipeFd pipeType
    (got.1, {pair with faultLoggerPipeBuf := got.2})
  | .resultFd =>
    let got := pair.faultLoggerPipeRes.getPipeFd pipeType
    (got.1, {pair with faultLoggerPipeRes := got.2})

def getFds (pipeType : ℤ) (pair : PipePair) : (ℤ×ℤ) × PipePair :=
  let buf := pair.getPipeFd .bufferFd pipeType
  let res := buf.2.getPipeFd .resultFd pipeType
  ((buf.1, res.1), res.2)

def pipe (pair : PipePair) : PipeFdUsage → FaultLoggerPipe
  | .bufferFd => pair.faultLoggerPipeBuf
  | .resultFd => pair.faultLoggerPipeRes

theorem getFds_read (pair : PipePair) :
    pair.getFds pipeFdRead=((pair.faultLoggerPipeBuf.readFd, pair.faultLoggerPipeRes.readFd), pair) := rfl

theorem getFds_write (pair : PipePair) (usage : PipeFdUsage) : ((pair.getFds pipeFdWrite).2.pipe usage).write=true ∧
      (0≤(pair.getFds pipeFdWrite).1.1 → 0≤(pair.getFds pipeFdWrite).1.2 → (pair.pipe usage).write=false) := by
  cases usage with
  | bufferFd =>
    obtain ⟨hm, hf⟩ := pair.faultLoggerPipeBuf.getWriteFd_spec
    exact ⟨hm, fun hb _ => hf hb⟩
  | resultFd =>
    obtain ⟨hm, hf⟩ := pair.faultLoggerPipeRes.getWriteFd_spec
    exact ⟨hm, fun _ hr => hf hr⟩

end PipePair

def checkCallerUID (callerUid : ℤ) : Bool :=
  [0, 1000, 1201, 1202, 1212, 5523, 7400].contains callerUid

end Faultloggerd.PipeService
