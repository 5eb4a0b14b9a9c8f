import Faultloggerd.EventLoop.DelayQueue

/-! # The coredump services of the daemon

A client asks for a coredump of a process or cancels it, the worker that writes the dump calls back when it
starts and when it ends, and a delay task limits how long a session stays. All of it runs on the event
loop's thread.
-/
namespace Faultloggerd.Coredump
open Foundations EventLoop

inductive CoredumpStatus where
  | pending | running | success | failed | cancelPending | canceled | cancelTimeout | invalidStatus
deriving DecidableEq

inductive CoredumpEvent where
  | updateDumper | cancel | reportSuccess | reportFail | timeout | invalidEvent

inductive ResponseCode where
  | defaultErrorCode | requestSuccess | requestReject | abnormalService | coreDumpRepeat
  | coreProcessCrashed
deriving DecidableEq

structure CoredumpSession where
  sessionId : ℤ
  workerPid : ℤ := 0
  cancelRequest : Bool := false
  status : CoredumpStatus := .pending
  filePath : List UInt8 := []
  errorCode : ℤ := 0
  clientFd : ℤ
  endTime : ℕ
  delayTaskId : ℕ := 0
deriving DecidableEq

structure CreateCoredumpRequest where
  targetPid : ℤ
  clientFd : ℤ
  endTime : ℕ

structure CoredumpCallbackReport where
  status : CoredumpStatus := .pending
  filePath : List UInt8
  errorCode : ℤ := 0

structure CoreDumpResult where
  fileName : List UInt8
  retCode : ℤ
deriving DecidableEq

/-- What the daemon sends: answers to requests, results to the clients of sessions, signals. -/
inductive Message where
  | response (fd : ℤ) (code : ResponseCode)
  | result (sessionId clientFd : ℤ) (coredumpResult : CoreDumpResult)
  | startSignal (targetPid : ℤ)
  | cancelSignal (workerPid : ℤ)
deriving DecidableEq

inductive Task (κ : Type) where
  | removeSession (sessionId : ℤ)
  | other (task : κ)
deriving DecidableEq

/-- The session map, what has been sent, and the memory of the other services. -/
structure Services (μ : Type) where
  sessions : ℤ → Option CoredumpSession
  outbox : List Message
  rest : μ

variable {κ μ : Type}

namespace Services

def fresh (rest : μ) : Services μ :=
  ⟨fun _ => none, [], rest⟩

def send (message : Message) (m : Services μ) : Services μ :=
  {m with outbox := m.outbox++[message]}

def put (sessionId : ℤ) (session : Option CoredumpSession) (m : Services μ) : Services μ :=
  {m with sessions := fun i => if i=sessionId then session else m.sessions i}

def modify (sessionId : ℤ) (change : CoredumpSession → CoredumpSession) (m : Services μ) : Services μ :=
  m.put sessionId ((m.sessions sessionId).map change)

def setStatus (sessionId : ℤ) (status : CoredumpStatus) (m : Services μ) : Services μ :=
  m.modify sessionId fun session => {session with status := status}

end Services

/-- `CoredumpSessionManager::CreateSession`; `emplace` leaves a session that is there. -/
def createSession (request : CreateCoredumpRequest) (m : Services μ) : Services μ :=
  match m.sessions request.targetPid with
  | some _ => m
  | none => m.put request.targetPid (some {
      sessionId := request.targetPid
      clientFd := request.clientFd
      endTime := request.endTime})

def cancelTimeout (sessionId : ℤ) (m : Services μ) : Work (Task κ) Unit :=
  match m.sessions sessionId with
  | none => pure ()
  | some session => .removeDelayTask session.delayTaskId fun _ => pure ()

def removeSession (sessionId : ℤ) (m : Services μ) : Work (Task κ) (Services μ) :=
  match m.sessions sessionId with
  | none => pure m
  | some _ => do
    cancelTimeout sessionId m
    pure (m.put sessionId none)

/-- The delay of the removal in seconds, by way of `int32_t`. -/
def cancelDelay (endTime curTime timeoutMs : ℕ) : BitVec 32 :=
  let delaySec := if curTime < endTime then (BitVec.ofNat 32 ((endTime-curTime)/1000)).toInt else 0
  BitVec.ofInt 32 (min delaySec (timeoutMs/1000))

def scheduleCancelTime (sessionId : ℤ) (timeoutMs curTime : ℕ) (m : Services μ) :
    Work (Task κ) (Services μ) :=
  match m.sessions sessionId with
  | none => pure m
  | some session =>
    .addDelayTask (.removeSession sessionId) (cancelDelay session.endTime curTime timeoutMs) fun taskId =>
      if taskId = 0 then removeSession sessionId m
      else pure (m.modify sessionId fun session => {session with delayTaskId := taskId})

def cancelSession (sessionId : ℤ) (m : Services μ) : Services μ :=
  m.modify sessionId fun session => {session with cancelRequest := true}

def setWorkerPid (sessionId workerPid : ℤ) (m : Services μ) : Services μ :=
  m.modify sessionId fun session => {session with workerPid := workerPid}

def updateReport (sessionId : ℤ) (rpt : CoredumpCallbackReport) (m : Services μ) : Services μ :=
  m.modify sessionId fun session =>
    {session with filePath := rpt.filePath, errorCode := rpt.errorCode}

def sendResult (sessionId : ℤ) (coredumpResult : CoreDumpResult) (m : Services μ) :
    Work (Task κ) (Services μ) :=
  match m.sessions sessionId with
  | none => pure m
  | some session => removeSession sessionId (m.send (.result sessionId session.clientFd coredumpResult))

def writeTimeout (sessionId : ℤ) (m : Services μ) : Work (Task κ) (Services μ) :=
  sendResult sessionId ⟨[], -1⟩ m

def fileNameSize : ℕ := 256

def writeResult (sessionId : ℤ) (m : Services μ) : Work (Task κ) (Services μ) :=
  match m.sessions sessionId with
  | none => pure m
  | some session =>
    -- `strncpy_s` wants room for the terminator
    if fileNameSize ≤ session.filePath.length then pure m
    else sendResult sessionId ⟨session.filePath, session.errorCode⟩ m

def pendingOnEvent (event : CoredumpEvent) (session : CoredumpSession) (m : Services μ) :
    Work (Task κ) (Services μ) :=
  match event with
  | .updateDumper => pure (m.setStatus session.sessionId .running)
  | .cancel => pure (m.modify session.sessionId fun session =>
      {session with cancelRequest := true, status := .cancelPending})
  | .timeout => writeTimeout session.sessionId (m.setStatus session.sessionId .cancelTimeout)
  | _ => pure m

def runningOnEvent (event : CoredumpEvent) (session : CoredumpSession) (m : Services μ) :
    Work (Task κ) (Services μ) :=
  match event with
  | .reportSuccess => writeResult session.sessionId (m.setStatus session.sessionId .success)
  | .reportFail => writeResult session.sessionId (m.setStatus session.sessionId .failed)
  | .cancel => writeResult session.sessionId
      ((m.send (.cancelSignal session.workerPid)).setStatus session.sessionId .canceled)
  | _ => pure m

def cancelPendingOnEvent (event : CoredumpEvent) (session : CoredumpSession) (m : Services μ) :
    Work (Task κ) (Services μ) :=
  match event with
  | .updateDumper => writeResult session.sessionId
      ((m.send (.cancelSignal session.workerPid)).setStatus session.sessionId .canceled)
  | .timeout => writeTimeout session.sessionId (m.setStatus session.sessionId .cancelTimeout)
  | _ => pure m

/-- `SessionStateContext::HandleEvent`: the other states have no handler. -/
def handleEvent (session : CoredumpSession) (event : CoredumpEvent) (m : Services μ) :
    Work (Task κ) (Services μ) :=
  match session.status with
  | .pending => pendingOnEvent event session m
  | .running => runningOnEvent event session m
  | .cancelPending => cancelPendingOnEvent event session m
  | _ => pure m

def maxCoredumpDelayTime : ℕ := 30*1000

def createCoredump (req : CreateCoredumpRequest) (curTime : ℕ) (m : Services μ) :
    Work (Task κ) (Services μ) :=
  scheduleCancelTime req.targetPid maxCoredumpDelayTime curTime
    ((createSession req m).send (.startSignal req.targetPid))

def cancelCoredump (sessionId : ℤ) (m : Services μ) : Work (Task κ) (Services μ) :=
  let marked := cancelSession sessionId m
  match marked.sessions sessionId with
  | none => pure marked
  | some session => handleEvent session .cancel marked

def updateWorkerPid (sessionId workerPid : ℤ) (m : Services μ) :
    Work (Task κ) (Bool×Services μ) :=
  let updated := setWorkerPid sessionId workerPid m
  match updated.sessions sessionId with
  | none => pure (false, updated)
  | some session => do
    let handled ← handleEvent session .updateDumper updated
    pure (true, handled)

def reportResult (sessionId : ℤ) (rpt : CoredumpCallbackReport) (m : Services μ) :
    Work (Task κ) (Services μ) :=
  let updated := updateReport sessionId rpt m
  match updated.sessions sessionId with
  | none => pure updated
  | some session => handleEvent session (if rpt.status = .success then .reportSuccess else .reportFail) updated

structure Ucred where
  pid : ℤ
  uid : ℤ

/-- The connection a request comes on; `peer` is what `getsockopt` tells of the other end. -/
structure Connection where
  socketName : String
  fd : ℤ
  peer : Option Ucred

structure System where
  /-- `dup` of the connection's descriptor -/
  dup : Option ℤ
  /-- `TempFileManager::CheckCrashFileRecord` of the process -/
  crashed : Bool
  /-- `GetAbsTimeMilliSeconds` -/
  curTime : ℕ

structure CoreDumpRequestData where
  pid : ℤ
  endTime : ℕ
  coredumpAction : ℤ

def doCoreDump : ℤ := 0

def cancelCoreDump : ℤ := 1

def serverSocketName : String := "faultloggerd.server"

def serverCrashSocketName : String := "faultloggerd.crash.server"

def checkCoredumpUID (callerUid : ℤ) : Bool :=
  [0, 1202, 7005].contains callerUid

def isAuthorizedUid (connection : Connection) : Bool :=
  connection.peer.any fun creds => checkCoredumpUID creds.uid

def validateRequest (system : System) (connection : Connection) (requestData : CoreDumpRequestData) :
    ResponseCode :=
  if requestData.pid ≤ 0 then .requestReject
  else if connection.socketName ≠ serverSocketName then .requestReject
  else if !isAuthorizedUid connection then .requestReject
  else if system.crashed then .coreProcessCrashed
  else .requestSuccess

def handleCreateEvent (system : System) (requestData : CoreDumpRequestData) (m : Services μ) :
    Work (Task κ) (ResponseCode×Services μ) :=
  match m.sessions requestData.pid with
  | some _ => pure (.coreDumpRepeat, m)
  | none =>
    match system.dup with
    | none => pure (.defaultErrorCode, m)
    | some clientFd => do
      let created ← createCoredump ⟨requestData.pid, clientFd, requestData.endTime⟩ system.curTime m
      pure (.requestSuccess, created)

def handleCancelEvent (requestData : CoreDumpRequestData) (m : Services μ) :
    Work (Task κ) (ResponseCode×Services μ) :=
  match m.sessions requestData.pid with
  | none => pure (.defaultErrorCode, m)
  | some _ => do
    let canceled ← cancelCoredump requestData.pid m
    pure (.requestSuccess, canceled)

def respond (connection : Connection) (answer : ResponseCode×Services μ) :
    Work (Task κ) (ResponseCode×Services μ) :=
  pure (answer.1, answer.2.send (.response connection.fd answer.1))

def onRequest (system : System) (connection : Connection) (requestData : CoreDumpRequestData)
    (m : Services μ) : Work (Task κ) (ResponseCode×Services μ) :=
  let res := validateRequest system connection requestData
  if res ≠ .requestSuccess then respond connection (res, m)
  else if requestData.coredumpAction = doCoreDump then
    handleCreateEvent system requestData m >>= respond connection
  else if requestData.coredumpAction = cancelCoreDump then
    handleCancelEvent requestData m >>= respond connection
  else respond connection (.requestReject, m)

structure CoreDumpStatusData where
  pid : ℤ
  processDumpPid : ℤ
  coredumpStatus : ℤ
  /-- the bytes of `fileName` -/
  fileName : Vector UInt8 fileNameSize
  retCode : ℤ

def coreDumpStart : ℤ := 1

def isReporterWorker (connection : Connection) (workerPid : ℤ) : Bool :=
  connection.peer.any fun creds => creds.pid == workerPid

def validateCallback (connection : Connection) (requestData : CoreDumpStatusData) : Bool :=
  decide (0< requestData.pid) && connection.socketName == serverCrashSocketName &&
    !(requestData.coredumpStatus == coreDumpStart && !isReporterWorker connection requestData.processDumpPid)

def handleUpdateWorkerPid (requestData : CoreDumpStatusData) (m : Services μ) :
    Work (Task κ) (ResponseCode×Services μ) :=
  if requestData.processDumpPid ≤ 0 then pure (.abnormalService, m)
  else do
    let updated ← updateWorkerPid requestData.pid requestData.processDumpPid m
    pure (if updated.1 then .requestSuccess else .abnormalService, updated.2)

/-- The path up to its terminator, if it has one. -/
def CoreDumpStatusData.filePath (requestData : CoreDumpStatusData) : List UInt8 :=
  requestData.fileName.toList.takeWhile (· ≠ 0)

def handleReport (requestData : CoreDumpStatusData) (m : Services μ) :
    Work (Task κ) (ResponseCode×Services μ) := do
  let reported ← reportResult requestData.pid {
    status := if requestData.retCode=0 then .success else .failed
    filePath := requestData.filePath} m
  pure (.requestSuccess, reported)

def onCallback (connection : Connection) (requestData : CoreDumpStatusData) (m : Services μ) :
    Work (Task κ) (ResponseCode×Services μ) :=
  if !validateCallback connection requestData then respond connection (.requestReject, m)
  else if requestData.coredumpStatus = coreDumpStart then
    handleUpdateWorkerPid requestData m >>= respond connection
  else handleReport requestData m >>= respond connection

inductive Input (κ μ : Type) where
  | wait (us taken : ℕ)
  | request (system : System) (connection : Connection) (requestData : CoreDumpRequestData)
  | callback (connection : Connection) (requestData : CoreDumpStatusData)
  | service (work : μ → Work (Task κ) μ)
  | timer
  | turn

def elsewhere (work : μ → Work (Task κ) μ) (m : Services μ) : Work (Task κ) (Services μ) := do
  let rest ← work m.rest
  pure {m with rest := rest}

def Input.event : Input κ μ → Event (Task κ) (Services μ)
  | .wait us taken => .wait us taken
  | .request system connection requestData => .call fun m => Prod.snd <$> onRequest system connection requestData m
  | .callback connection requestData => .call fun m => Prod.snd <$> onCallback connection requestData m
  | .service work => .call (elsewhere work)
  | .timer => .timer
  | .turn => .turn

abbrev Daemon (κ μ : Type) : Type := Loop (Task κ) (Services μ)

variable (other : κ → μ → Work (Task κ) μ)

def Task.body : Task κ → Services μ → Work (Task κ) (Services μ)
  | .removeSession sessionId => Coredump.removeSession sessionId
  | .other task => elsewhere (other task)

def step (input : Input κ μ) (d : Daemon κ μ) : Daemon κ μ :=
  d.step (Task.body other) input.event

abbrev run (inputs : List (Input κ μ)) (d : Daemon κ μ) : Daemon κ μ :=
  EventRuns.run (step other) inputs d

theorem run_append (before after : List (Input κ μ)) (d : Daemon κ μ) :
    run other (before++after) d=run other after (run other before d) := EventRuns.run_append before after

def Daemon.fresh (now : ℕ) (grants : ℕ → Bool) (delaySequence : ℕ) (rest : μ) : Daemon κ μ :=
  Loop.fresh now grants delaySequence (Services.fresh rest)

end Faultloggerd.Coredump
