import Faultloggerd.Foundations.EventRuns
import Mathlib.Data.Int.Notation
import Mathlib.Data.List.Basic

/-! # Reading a dump from two pipes (`dfx_dump_catcher.cpp`, `dfx_buffer_writer.cpp`)

The dumping process writes text to one pipe and messages to another: the stack of the main thread, a message with its
length, more text, and a message with the result. `DumpRemotePoll` polls both pipes and reads whatever is there; it
tells the first part of the text from the rest by the number of bytes it has read.
-/
namespace Faultloggerd.DumpCatcher

def maxPipeSize : ℕ := 1024*1024

inductive DumpErrorCode where
  | esuccess
  | esymbolNoParse
  | esymbolParseTimeout
  | emainThreadDone
  | threadOverLimit
  | other (code : ℤ)
deriving DecidableEq

structure DumpResMessage where
  code : DumpErrorCode
  dataLen : ℕ

inductive PollRet where
  | ok
  | noParseSymbol
  | parseSymbolTimeout
  | returned
deriving DecidableEq

/-- What is written: the first part, whose length fits into its message, the rest, and the result. -/
structure Dump where
  first : List UInt8
  more : List UInt8
  result : DumpResMessage
  first_length : first.length < 2^32
  result_code : result.code ≠ .emainThreadDone

def Dump.mainThreadDone (d : Dump) : DumpResMessage := ⟨.emainThreadDone, d.first.length⟩

structure Writer where
  firstLeft : List UInt8
  moreLeft : List UInt8
  doneSent : Bool
  resultSent : Bool

structure DumpCatcherPipeData where
  bufMsg : List UInt8
  mainThreadStackMsg : List UInt8
  mainThreadStackExpectLen : ℕ
  mainThreadStackCurLen : ℕ
  isMainThreadStackPacket : Bool

namespace DumpCatcherPipeData

def saveMainThreadStack (p : DumpCatcherPipeData) : DumpCatcherPipeData := ⟨[], p.bufMsg, 0, 0, false⟩

def doReadBuf (bytes : List UInt8) (p : DumpCatcherPipeData) : DumpCatcherPipeData :=
  let p := {p with
    bufMsg := p.bufMsg++bytes
    mainThreadStackCurLen := (p.mainThreadStackCurLen+bytes.length) % 2^32}
  if p.isMainThreadStackPacket ∧ p.mainThreadStackCurLen = p.mainThreadStackExpectLen then p.saveMainThreadStack else p

def doReadRes (msg : DumpResMessage) (p : DumpCatcherPipeData) : DumpCatcherPipeData × Option PollRet :=
  if msg.code = .emainThreadDone then
    let p := {p with mainThreadStackExpectLen := msg.dataLen, isMainThreadStackPacket := true}
    (if p.mainThreadStackCurLen=p.mainThreadStackExpectLen then p.saveMainThreadStack else p, none)
  else (p, some (match msg.code with
    | .esuccess | .threadOverLimit => .ok
    | .esymbolNoParse => .noParseSymbol
    | .esymbolParseTimeout => .parseSymbolTimeout
    | _ => .returned))

end DumpCatcherPipeData

structure Revents where
  bufIn : Bool
  bufHup : Bool
  resIn : Bool
  resHup : Bool
deriving DecidableEq

/-- Where `DumpRemotePoll` is: before `poll`, at the first and at the second pipe in `HandlePollEvents`, or at its end,
with the result if a result message ended it. -/
inductive Point where
  | polling
  | buf (revents : Revents)
  | res (revents : Revents)
  | ended (result : Option PollRet)
deriving DecidableEq

structure State where
  writer : Writer
  bufPipe : List UInt8
  resPipe : List DumpResMessage
  bufClosed : Bool
  resClosed : Bool
  bPipeConnect : Bool
  data : DumpCatcherPipeData
  point : Point

def State.initial (d : Dump) : State :=
  ⟨⟨d.first, d.more, false, false⟩, [], [], false, false, false, ⟨[], [], 0, 0, false⟩, .polling⟩

namespace State

/-- The writer puts the next bytes on the buffer pipe, up to the next message. -/
def write (n : ℕ) (s : State) : State :=
  if s.writer.doneSent = false then
    {s with
      writer := {s.writer with firstLeft := s.writer.firstLeft.drop n}
      bufPipe := s.bufPipe++s.writer.firstLeft.take n}
  else {s with
    writer := {s.writer with moreLeft := s.writer.moreLeft.drop n}
    bufPipe := s.bufPipe++s.writer.moreLeft.take n}

def sendDone (d : Dump) (s : State) : State :=
  if s.writer.doneSent = false ∧ s.writer.firstLeft = [] then
    {s with writer := {s.writer with doneSent := true}, resPipe := s.resPipe++[d.mainThreadDone]}
  else s

def sendResult (d : Dump) (s : State) : State :=
  if s.writer.doneSent = true ∧ s.writer.moreLeft = [] ∧ s.writer.resultSent = false then
    {s with writer := {s.writer with resultSent := true}, resPipe := s.resPipe++[d.result]}
  else s

/-- `poll` returns when there is something on a pipe or its writer is gone. -/
def poll (s : State) : State :=
  match s.point with
  | .polling =>
    let revents : Revents := ⟨!s.bufPipe.isEmpty, s.bufClosed, !s.resPipe.isEmpty, s.resClosed⟩
    if revents = ⟨false, false, false, false⟩ then s else {s with point := .buf revents}
  | _ => s

def readCount (n : ℕ) (s : State) : ℕ := min (min (max 1 n) maxPipeSize) s.bufPipe.length

def afterEvents (revents : Revents) (s : State) : State :=
  if revents.bufIn && revents.bufHup || revents.resIn && revents.resHup then {s with point := .ended none}
  else {s with point := .polling}

def handle (n : ℕ) (s : State) : State :=
  match s.point with
  | .buf revents =>
    if revents.bufIn then
      {s with
        bPipeConnect := true
        data := s.data.doReadBuf (s.bufPipe.take (s.readCount n))
        bufPipe := s.bufPipe.drop (s.readCount n)
        point := .res revents}
    else if s.bPipeConnect && revents.bufHup then {s with point := .ended none}
    else {s with point := .res revents}
  | .res revents =>
    if revents.resIn then
      match s.resPipe with
      | [] => {s with bPipeConnect := true}.afterEvents revents
      | msg :: rest =>
        match s.data.doReadRes msg with
        | (data, some result) =>
          {s with bPipeConnect := true, data := data, resPipe := rest, point := .ended (some result)}
        | (data, none) => {s with bPipeConnect := true, data := data, resPipe := rest}.afterEvents revents
    else if s.bPipeConnect && revents.resHup then {s with point := .ended none}
    else s.afterEvents revents
  | .polling | .ended _ => s

end State

inductive Event where
  | write (n : ℕ)
  | sendDone
  | sendResult
  | closeBuf
  | closeRes
  | poll
  | handle (n : ℕ)
  | timeout

def step (d : Dump) : Event → State → State
  | .write n, s => s.write n
  | .sendDone, s => s.sendDone d
  | .sendResult, s => s.sendResult d
  | .closeBuf, s => if s.writer.resultSent then {s with bufClosed := true} else s
  | .closeRes, s => if s.writer.resultSent then {s with resClosed := true} else s
  | .poll, s => s.poll
  | .handle n, s => s.handle n
  | .timeout, s => if s.point = .polling then {s with point := .ended none} else s

end Faultloggerd.DumpCatcher
