import Faultloggerd.DumpCatcher.PollLoop
import Faultloggerd.Foundations.KeyedList
import Mathlib.Data.List.Infix

/-! # A dump catcher and its fields (`dfx_dump_catcher.cpp`, `dfx_dump_catcher_slow_policy.cpp`)

A `DfxDumpCatcher` keeps the last kernel stack and whether the collector was told to start in fields of the object.
`DumpCatch` resets both, `DumpCatchWithTimeout` does not. What the system, the daemon, the target process and the
collector of kernel stacks answer during a call is a `World`.
-/
namespace Faultloggerd.DumpCatcher
open Foundations

abbrev Text := List UInt8

def text (s : String) : Text := s.toList.map fun c => c.toNat.toUInt8

/-- `msg.find(needle) != npos` -/
def contains (msg : Text) (needle : String) : Bool := decide (text needle <:+: msg)

inductive DumpCatchErrorCode where
  | esuccess
  | eparam | noProcess | isDumping | epermission | hasCrashed | econnect | ewrite | efd | epoll | efaultloggerd
  | dumpEptrace | dumpEunwind | dumpEmap | dumpEsymbolNoParse | dumpEsymbolParseTimeout | dumpSelfFail | dumpError
  | timeoutSignalBlock | timeoutKernelFrozen | timeoutProcessKilled | timeoutDumpSlow | timeoutDumpInSlowperiod
  | timeoutParseFailReadEstatus | timeoutParseFailReadEcgroup
  | unknown
  | kernelstackEcreate | kernelstackEopen | kernelstackEioctl | kernelstackTimeout | kernelstackOverLimit
  | kernelstackResourceLimit | kernelstackNoneed | threadCountOverlimit
deriving DecidableEq

def DumpCatchErrorCode.toText : DumpCatchErrorCode → Text
  | esuccess => text "success"
  | eparam => text "param error"
  | noProcess => text "process has exited"
  | isDumping => text "process is dumping"
  | epermission => text "check permission error"
  | hasCrashed => text "process has been crashed"
  | econnect => text "failed to connect to faultloggerd"
  | ewrite => text "failed to write data to faultloggerd"
  | efd => text "buf or res fd error"
  | epoll => text "poll error"
  | efaultloggerd => text "faultloggerd maybe exception occurred"
  | dumpEptrace => text "failed to ptrace thread"
  | dumpEunwind => text "failed to unwind"
  | dumpEmap => text "failed to find map"
  | dumpError => text "exception occurred in processdump"
  | timeoutSignalBlock => text "signal has been block by target process"
  | timeoutKernelFrozen => text "target process has been frozen in kernel"
  | timeoutProcessKilled => text "target process has been killed during dumping"
  | timeoutDumpSlow => text "failed to fully dump due to timeout"
  | timeoutDumpInSlowperiod => text "in dump slow period and return kernel stack"
  | timeoutParseFailReadEstatus => text "dump timeout, parse reason fail for read status fail"
  | timeoutParseFailReadEcgroup => text "dump timeout, parse reason fail for read cgroup fail"
  | kernelstackEcreate => text "kernelstack fail due to create hstackval fail"
  | kernelstackEopen => text "kernelstack fail due to open bbox fail"
  | kernelstackEioctl => text "kernelstack fail due to ioctl fail"
  | kernelstackTimeout => text "kernelstack fail due to wait timeout"
  | kernelstackOverLimit => text "kernelstack fail due to over limit"
  | kernelstackResourceLimit => text "kernelstack fail due to resource limit"
  | kernelstackNoneed => text "no need to dump kernelstack"
  | dumpEsymbolNoParse => text "no enough time to parse symbol"
  | dumpEsymbolParseTimeout => text "parse symbol timeout"
  | dumpSelfFail => text "dump self fail"
  | threadCountOverlimit => text "the thread count of target process is overlimit"
  | unknown => text "unknown reason"

def DumpErrorCode.number : DumpErrorCode → ℤ
  | esuccess => 0
  | esymbolNoParse => 15
  | esymbolParseTimeout => 16
  | emainThreadDone => 18
  | threadOverLimit => 19
  | other code => code

def resStrs : List (ℤ×String) :=
  [(0, "no error"), (1, "read dump request error"), (2, "ptrace attach thread failed"), (3, "get fd error"),
    (4, "out of memory"), (5, "bad register number"), (6, "attempt to write read-only register"),
    (7, "stop unwinding"), (8, "invalid IP"), (9, "bad frame"), (10, "unsupported operation or bad value"),
    (11, "unwind info has unsupported version"), (12, "no unwind info found"), (13, "mapinfo is not exist"),
    (14, "fail to read real pid"), (15, "no enough time to parse symbol"), (16, "parse symbol timeout"),
    (19, "the thread count of target process is over limit")]

def DumpErrorCode.toText (code : DumpErrorCode) : Text :=
  text (toString code.number)++text " ( " ++
    text (((KeyedList.find Prod.fst code.number resStrs).map Prod.snd).getD "invalid error code")++text " )"

inductive StackErrorCode where
  | success | ecreate | eopen | eioctl | timeout | deferred | overLimit | resourceLimit | noProcess | unknown
deriving DecidableEq

structure KernelResult where
  errorCode : StackErrorCode
  msg : Text

def KernelResult.default : KernelResult := ⟨.unknown, []⟩

def kernelRet2DumpcatchRet : StackErrorCode → DumpCatchErrorCode
  | .ecreate => .kernelstackEcreate
  | .eopen => .kernelstackEopen
  | .eioctl => .kernelstackEioctl
  | .timeout => .kernelstackTimeout
  | .overLimit => .kernelstackOverLimit
  | .resourceLimit => .kernelstackResourceLimit
  | _ => .unknown

inductive StackSite where
  | frozen | slowPeriod | sdkDumpFailed | noTimeLeft | pollFailed

inductive DumpPollRes where
  | init | ok | fd | failed | timeout | returned | noParseSymbol | parseSymbolTimeout
deriving DecidableEq

def DumpPollRes.ofRead : PollRet → DumpPollRes
  | .ok => .ok
  | .noParseSymbol => .noParseSymbol
  | .parseSymbolTimeout => .parseSymbolTimeout
  | .returned => .returned

structure PipeEvents (α : Type) where
  pollIn : Bool
  pollErr : Bool
  pollHup : Bool
  read : Option α

inductive PollAnswer where
  | error (eintr : Bool) (errno : ℤ) (now : ℕ)
  | expired (now : ℕ)
  | ready (buf : PipeEvents Text) (res : PipeEvents DumpResMessage) (now : ℕ)

structure PipeData where
  data : DumpCatcherPipeData
  resMsg : Text

/-- Where `DumpRemotePoll` is; `notified` is what `NotifyStartCollect` has returned in it, if it was called. -/
structure Polling where
  pollRet : DumpPollRes
  pipe : PipeData
  bPipeConnect : Bool
  notified : Option Bool

def Polling.initial : Polling := ⟨.init, ⟨⟨[], [], 0, 0, false⟩, []⟩, false, none⟩

namespace Polling

def appendRes (msg : Text) (p : Polling) : Polling :=
  {p with pipe := {p.pipe with resMsg := p.pipe.resMsg++msg}}

def readBuf (read : Option Text) (p : Polling) : Bool × Polling :=
  match read with
  | none | some [] => (false, p)
  | some bytes => (true, {p with pipe := {p.pipe with data := p.pipe.data.doReadBuf bytes}})

def readRes (read : Option DumpResMessage) (p : Polling) : Bool × Polling :=
  match read with
  | none => (false, p)
  | some msg =>
    match p.pipe.data.doReadRes msg with
    | (data, none) => (false, {p with pipe := {p.pipe with data := data}})
    | (data, some ret) =>
      (true, appendRes (text "Result: " ++ msg.code.toText++text "\n")
        {p with pollRet := .ofRead ret, pipe := {p.pipe with data := data}})

def skip {α : Type} (events : PipeEvents α) (p : Polling) : Bool × Polling :=
  if p.bPipeConnect && (events.pollErr || events.pollHup) then
    (false, p.appendRes (text "Result: poll events error.\n"))
  else (true, p)

def handlePollEvents (buf : PipeEvents Text) (res : PipeEvents DumpResMessage) (p : Polling) : Bool × Polling :=
  let first := if buf.pollIn then readBuf buf.read {p with bPipeConnect := true} else skip buf p
  if !buf.pollIn && !first.1 then first
  else
    let second := if res.pollIn then readRes res.read {first.2 with bPipeConnect := true} else skip res first.2
    let resRet := res.pollIn && second.1
    let eventRet := res.pollIn || second.1
    let hasHup := buf.pollIn && buf.pollHup || res.pollIn && res.pollHup
    (!(!eventRet || !first.1 || resRet || hasHup), second.2)

def notify (notifyStartCollect : Bool) (p : Polling) : Polling :=
  match p.notified with
  | none => {p with notified := some notifyStartCollect}
  | some _ => p

def timeOut (p : Polling) : Polling :=
  appendRes (text "Result: poll timeout.\n") {p with pollRet := .timeout}

/-- The loop of `DumpRemotePoll`; nothing where the answers end before it does. -/
def loop (notifyStartCollect : Bool) (endTime : ℕ) : List PollAnswer → Polling → Option Polling
  | [], _ => none
  | .error eintr errno now :: answers, p =>
    let p := p.notify notifyStartCollect
    if eintr then
      if now ≥ endTime then some p.timeOut else loop notifyStartCollect endTime answers p
    else
      some (appendRes (text "Result: poll error, errno(" ++ text (toString errno)++text ")\n")
        {p with pollRet := .failed})
  | .expired now :: answers, p =>
    let p := p.notify notifyStartCollect
    if now < endTime then loop notifyStartCollect endTime answers p else some p.timeOut
  | .ready buf res now :: answers, p =>
    let handled := handlePollEvents buf res p
    if !handled.1 then some handled.2
    else if now ≥ endTime then some handled.2.timeOut
    else loop notifyStartCollect endTime answers handled.2

end Polling

inductive SdkDumpRet where
  | requestSuccess | sdkDumpRepeat | requestReject | sdkDumpNoproc | sdkProcessCrashed | connectFailed | sendDataFailed
  | other
deriving DecidableEq

structure World where
  isLinuxKernel : Bool
  /-- `/proc/pid/status` is not there, for another reason than a lack of permission -/
  exited : Bool
  currentPid : ℤ
  /-- `DoDumpLocalLocked`: its result and the message it leaves -/
  dumpLocal : Text → Bool × Text
  /-- `/proc/pid/cgroup` at the start of a dump and after a timeout -/
  cgroup : Option Text
  cgroupAfter : Option Text
  uid : ℤ
  sdkDump : SdkDumpRet
  sdkDumpTime : ℕ
  bufFd : Bool
  resFd : Bool
  startTime : ℕ
  polls : List PollAnswer
  notifyEarly : Bool
  notifyStartCollect : Bool
  processStack : StackSite → KernelResult
  collectedStack : KernelResult
  /-- what `AnalyzeTimeoutReason` finds: the process is gone, or `IsSignalBlocked` returns a code -/
  statusGone : Bool
  signalBlocked : Option DumpCatchErrorCode
  processStatus : Text
  processWchan : Text
  /-- the clock of the slow policy when it is asked and when it is told -/
  slowAsked : BitVec 64
  slowTold : BitVec 64

structure Request where
  pid : ℤ
  tid : ℤ
  timeout : ℤ
  isJson : Bool
  msg : Text

/-- The fields of the object, and the records of the slow policy. -/
structure Catcher where
  notifyCollect : Bool
  stack : KernelResult
  dumpSlowRecords : List (ℤ×BitVec 64)

def Catcher.initial : Catcher := ⟨false, .default, []⟩

def dumpCatchSlowPeriodMs : BitVec 64 := 5000

def dumpCatchSlowMaxRecordNum : ℕ := 50

namespace Catcher

def inSlowPeriod (pid : ℤ) (now : BitVec 64) (s : Catcher) : Bool :=
  match KeyedList.find Prod.fst pid s.dumpSlowRecords with
  | none => false
  | some record => !decide (dumpCatchSlowPeriodMs<now-record.2)

def askSlowPeriod (pid : ℤ) (now : BitVec 64) (s : Catcher) : Catcher :=
  if s.inSlowPeriod pid now then s else {s with dumpSlowRecords := KeyedList.remove Prod.fst pid s.dumpSlowRecords}

def setDumpCatcherSlowStat (pid : ℤ) (now : BitVec 64) (s : Catcher) : Catcher :=
  let young := s.dumpSlowRecords.filter fun record => !decide (dumpCatchSlowPeriodMs<now-record.2)
  let kept := if young.length ≥ dumpCatchSlowMaxRecordNum then [] else young
  {s with dumpSlowRecords := KeyedList.remove Prod.fst pid kept++[(pid, now)]}

end Catcher

def waitGetKernelStackTimeout : ℤ := 1000

def hiviewUid : ℤ := 1201

def foundationUid : ℤ := 5523

def isFrozen (cgroup : Option Text) : Option DumpCatchErrorCode :=
  match cgroup with
  | none => some .timeoutParseFailReadEcgroup
  | some content => if contains content "Frozen" then some .timeoutKernelFrozen else none

def analyzeTimeoutReason (w : World) : DumpCatchErrorCode :=
  if w.statusGone then .timeoutProcessKilled
  else (w.signalBlocked.or (isFrozen w.cgroupAfter)).getD .timeoutDumpSlow

def result (pid : ℤ) (what : String) : Text :=
  text "Result: pid(" ++ text (toString pid)++text ")" ++ text what

namespace Catcher

def getKernelStack (w : World) (s : Catcher) : Catcher :=
  if w.uid = hiviewUid ∨ w.uid = foundationUid then {s with stack := w.processStack .sdkDumpFailed} else s

def dealWithSdkDumpRet (w : World) (pid : ℤ) (msg : Text) (s : Catcher) : DumpCatchErrorCode × Text × Catcher :=
  match w.sdkDump with
  | .sdkDumpRepeat => (.isDumping, msg ++ result pid " process is dumping.\n", s.getKernelStack w)
  | .requestReject => (.epermission, msg ++ result pid " process check permission error.\n", s)
  | .sdkDumpNoproc => (.noProcess, msg ++ result pid " process has exited.\n", s)
  | .sdkProcessCrashed => (.hasCrashed, msg ++ result pid " process has been crashed.\n", s.getKernelStack w)
  | .connectFailed => (.econnect, msg ++ result pid " process fail to conntect faultloggerd.\n", s.getKernelStack w)
  | .sendDataFailed => (.ewrite, msg ++ result pid " process fail to write to faultloggerd.\n", s.getKernelStack w)
  | _ => (.efaultloggerd, msg ++ result pid " faultloggerd maybe exception occurred.\n", s.getKernelStack w)

def doDumpRemotePoll (w : World) (timeout : ℤ) (isJson : Bool) (msg : Text) (s : Catcher) :
    Option (DumpPollRes×Text×PipeData×Catcher) :=
  if !w.bufFd || !w.resFd then
    some (.fd, if isJson then msg else text "Result: bufFd or resFd < 0.\n", Polling.initial.pipe, s)
  else do
    let p ← Polling.loop w.notifyStartCollect (w.startTime+timeout.toNat) w.polls .initial
    let isDumpSuccess := p.pollRet == .ok || p.pollRet == .noParseSymbol || p.pollRet == .parseSymbolTimeout
    let msg := if isJson && isDumpSuccess then p.pipe.data.bufMsg else p.pipe.resMsg++p.pipe.data.bufMsg
    pure (p.pollRet, msg, p.pipe, {s with notifyCollect := p.notified.getD s.notifyCollect})

def doDumpRemotePid (w : World) (timeout : ℤ) (isJson : Bool) (msg : Text) (s : Catcher) :
    Option (DumpPollRes×Text×PipeData×Catcher) :=
  if timeout ≤ 0 then some (.timeout, msg, Polling.initial.pipe, {s with stack := w.processStack .noTimeLeft})
  else if timeout < 1000 then doDumpRemotePoll w timeout isJson msg {s with notifyCollect := w.notifyEarly}
  else doDumpRemotePoll w timeout isJson msg s

def dealAfterPollFail (w : World) (msg : Text) (pipe : PipeData) (s : Catcher) : Text × Catcher :=
  let stack := if s.notifyCollect then w.collectedStack else w.processStack .pollFailed
  let main := pipe.data.mainThreadStackMsg
  let stackMsg := if main.isEmpty then stack.msg
    else stack.msg++text "\nMain thread user stack (unsymbolized):\n" ++ main
  (msg++w.processStatus++(if w.isLinuxKernel then w.processWchan else []),
    {s with stack := {stack with msg := stackMsg}})

/-- The code in `DealWithPollRet`, and whether the poll counts as failed. -/
def pollCode (w : World) (pollRet : DumpPollRes) (msg : Text) (pipe : PipeData) : DumpCatchErrorCode × Bool :=
  match pollRet with
  | .ok =>
    if contains pipe.resMsg "the thread count of target process is over limit" then (.threadCountOverlimit, true)
    else (.esuccess, false)
  | .noParseSymbol => (.dumpEsymbolNoParse, false)
  | .parseSymbolTimeout => (.dumpEsymbolParseTimeout, false)
  | .fd => (.efd, true)
  | .failed => (.epoll, true)
  | .timeout => (analyzeTimeoutReason w, true)
  | .returned =>
    if contains msg "ptrace attach thread failed" then (.dumpEptrace, true)
    else if contains msg "stop unwinding" then (.dumpEunwind, true)
    else if contains msg "mapinfo is not exist" then (.dumpEmap, true)
    else (.dumpError, true)
  | .init => (.unknown, true)

def dealWithPollRet (w : World) (pid : ℤ) (pollRet : DumpPollRes) (msg : Text) (pipe : PipeData) (s : Catcher) :
    DumpCatchErrorCode × Text × Catcher :=
  let code := pollCode w pollRet msg pipe
  let s := if pollRet = .timeout ∧ code.1 = .timeoutDumpSlow then s.setDumpCatcherSlowStat pid w.slowTold else s
  if code.2 then (code.1, s.dealAfterPollFail w msg pipe) else (code.1, msg, s)

def doDumpCatchRemote (w : World) (request : Request) (s : Catcher) : Option (DumpCatchErrorCode×Text×Catcher) :=
  let pid := request.pid
  if pid ≤ 0 ∨ request.tid < 0 ∨ request.timeout ≤ waitGetKernelStackTimeout then
    some (.eparam, request.msg++result pid " param error.\n", s)
  else if isFrozen w.cgroup = some .timeoutKernelFrozen then
    some (.timeoutKernelFrozen, request.msg, {s with stack := w.processStack .frozen})
  else if s.inSlowPeriod pid w.slowAsked then
    some (.timeoutDumpInSlowperiod, request.msg++result pid " last dump slow, return kernel stack directly.\n",
      {s with stack := w.processStack .slowPeriod})
  else
    let s := s.askSlowPeriod pid w.slowAsked
    if w.sdkDump ≠ .requestSuccess then some (s.dealWithSdkDumpRet w pid request.msg)
    else do
      let polled ← s.doDumpRemotePid w (request.timeout-w.sdkDumpTime) request.isJson request.msg
      pure (polled.2.2.2.dealWithPollRet w pid polled.1 polled.2.1 polled.2.2.1)

structure Outcome where
  result : ℤ
  reason : Text
  msg : Text

def dealWithDumpCatchRet (ret : DumpCatchErrorCode) (msg : Text) (s : Catcher) : Outcome :=
  if ret = .esuccess ∨ ret = .dumpEsymbolNoParse ∨ ret = .dumpEsymbolParseTimeout ∨ ret = .threadCountOverlimit then
    ⟨0, text "Reason:" ++ ret.toText++text "\n", msg⟩
  else
    let reason := text "Reason:\nnormal stack:" ++ ret.toText++text "\n"
    if s.stack.errorCode ≠ .success then
      ⟨-1, reason++text "kernel stack:" ++ (kernelRet2DumpcatchRet s.stack.errorCode).toText++text "\n", msg⟩
    else if !s.stack.msg.isEmpty then ⟨1, reason, msg++s.stack.msg⟩
    else ⟨-1, reason++text "kernel stack:" ++ DumpCatchErrorCode.kernelstackNoneed.toText++text "\n", msg⟩

def dumpOrFail (w : World) (request : Request) (s : Catcher) : Option (DumpCatchErrorCode×Text×Catcher) :=
  if request.pid ≤ 0 ∨ request.tid < 0 ∨ request.timeout ≤ waitGetKernelStackTimeout then some (.eparam, request.msg, s)
  else if !w.isLinuxKernel ∧ w.exited then
    some (.noProcess, request.msg++DumpCatcher.result request.pid " process has exited.\n", s)
  else if request.pid = w.currentPid then
    let dumped := w.dumpLocal request.msg
    some (if dumped.1 then .esuccess else .dumpSelfFail, dumped.2, s)
  else s.doDumpCatchRemote w request

def dumpCatchWithTimeout (w : World) (request : Request) (s : Catcher) : Option (Outcome×Catcher) := do
  let dumped ← s.dumpOrFail w request
  pure (dealWithDumpCatchRet dumped.1 dumped.2.1 dumped.2.2, dumped.2.2)

def dumpCatch (w : World) (request : Request) (s : Catcher) : Option ((Bool×Text)×Catcher) :=
  if request.pid ≤ 0 ∨ request.tid < 0 then some ((false, request.msg), s)
  else if !w.isLinuxKernel ∧ w.exited then
    some ((false, request.msg++DumpCatcher.result request.pid " process has exited.\n"), s)
  else
    let s := {s with stack := .default, notifyCollect := false}
    if request.pid = w.currentPid then some (w.dumpLocal request.msg, s)
    else do
      let timeout : ℤ := (if request.tid=0 then 3 else 10)*1000
      let dumped ← s.doDumpCatchRemote w {request with timeout := timeout}
      let ret := dumped.1 == .esuccess || dumped.1 == .dumpEsymbolNoParse || dumped.1 == .dumpEsymbolParseTimeout
      pure ((ret, dumped.2.1), dumped.2.2)

end Catcher

end Faultloggerd.DumpCatcher
