import Faultloggerd.Coredump.Sessions

/-! # The life of one session

Seen from one process id, the daemon is a small automaton: a session is created, its worker starts and
reports, it is canceled or its time is over. `step_session` and `step_results` say that the whole daemon,
with all its other sessions and services, moves exactly as this automaton does on the signals of that id.
-/
namespace Faultloggerd.Coredump
open Foundations EventLoop CoredumpSession Services List Option Work Input Loop Nat Prod

variable {κ μ : Type}

/-! ## The automaton -/

inductive Signal where
  | none
  | create (session : CoredumpSession)
  /-- created, but without a task that limits it -/
  | createExpired
  | cancel
  | start (workerPid : ℤ)
  | report (retCode : ℤ) (filePath : List UInt8)
  | expire
deriving DecidableEq

abbrev Life : Type := Option CoredumpSession × List (ℤ×CoreDumpResult)

/-- The result goes out and the session ends, unless its path does not fit. -/
def CoredumpSession.finish (session : CoredumpSession) : Life :=
  if fileNameSize ≤ session.filePath.length then (some session, [])
  else (none, [(session.clientFd, ⟨session.filePath, session.errorCode⟩)])

def CoredumpSession.onEvent (session : CoredumpSession) (event : CoredumpEvent) : Life :=
  match session.status, event with
  | .pending, .updateDumper => (some {session with status := .running}, [])
  | .pending, .cancel => (some {session with cancelRequest := true, status := .cancelPending}, [])
  | .pending, .timeout | .cancelPending, .timeout => (none, [(session.clientFd, ⟨[], -1⟩)])
  | .running, .reportSuccess => {session with status := .success}.finish
  | .running, .reportFail => {session with status := .failed}.finish
  | .running, .cancel | .cancelPending, .updateDumper => {session with status := .canceled}.finish
  | _, _ => (some session, [])

def Signal.act : Signal → Option CoredumpSession → Life
  | .create session, _ => (some session, [])
  | .createExpired, _ => (Option.none, [])
  | .cancel, some session => {session with cancelRequest := true}.onEvent .cancel
  | .start workerPid, some session => {session with workerPid := workerPid}.onEvent .updateDumper
  | .report retCode filePath, some session =>
    {session with filePath := filePath, errorCode := 0}.onEvent
      (if retCode=0 then .reportSuccess else .reportFail)
  | .expire, _ => (Option.none, [])
  | _, session => (session, [])

def Signal.Ends : Signal → CoredumpSession → Prop
  | .cancel, session => session.status = .running ∧ session.filePath.length < fileNameSize
  | .start _, session => session.status = .cancelPending ∧ session.filePath.length < fileNameSize
  | .report _ filePath, session => session.status = .running ∧ filePath.length < fileNameSize
  | _, _ => False

section Automaton

variable {session session' : CoredumpSession} {signal : Signal}

theorem finish_of_fits (h : session.filePath.length<fileNameSize) :
    session.finish=(none, [(session.clientFd, ⟨session.filePath, session.errorCode⟩)]) := if_neg (not_le.mpr h)

theorem finish_of_not_fits (h : ¬session.filePath.length<fileNameSize) : session.finish=(some session, []) :=
  if_pos (not_lt.mp h)

theorem finish_session (h : session.finish.1=some session') : session'=session := by
  by_cases hf : session.filePath.length<fileNameSize
  · rw [finish_of_fits hf] at h
    cases h
  · rw [finish_of_not_fits hf] at h
    exact (some.inj h).symm

theorem onEvent_session {event : CoredumpEvent} (h : (session.onEvent event).1=some session') : ∃ cancelRequest status,
      session'={session with cancelRequest := cancelRequest, status := status} := by
  unfold onEvent at h
  split at h
  all_goals
    first
    | exact ⟨_, _, finish_session h⟩
    | exact ⟨_, _, (some.inj h).symm⟩
    | cases h

theorem act_of_ends (he : session.errorCode=0) (h : signal.Ends session) :
    ∃ fileName, signal.act (some session)=(none, [(session.clientFd, ⟨fileName, 0⟩)]) := by
  cases signal with
  | cancel | start workerPid =>
    simp [Signal.act, onEvent, h.1, finish, not_le.mpr h.2, he]
  | report retCode filePath =>
    by_cases hc : retCode=0 <;> simp [Signal.act, hc, onEvent, h.1, finish, not_le.mpr h.2]
  | _ => exact h.elim

theorem act_of_not_ends (h : ¬signal.Ends session) (he : signal≠.expire) (hc : signal≠.createExpired) :
    ∃ session', signal.act (some session)=(some session', []) := by
  cases signal with
  | none | create session' => exact ⟨_, rfl⟩
  | createExpired => exact absurd rfl hc
  | expire => exact absurd rfl he
  | cancel | start workerPid =>
    simp only [Signal.act]
    cases hs : session.status with
    | running | cancelPending =>
      first
      | exact ⟨_, rfl⟩
      | exact ⟨_, finish_of_not_fits fun hf => h ⟨hs, hf⟩⟩
    | _ => exact ⟨_, rfl⟩
  | report retCode filePath =>
    by_cases hc1 : retCode=0 <;> simp only [Signal.act, hc1] <;> cases hs : session.status with
    | running => exact ⟨_, finish_of_not_fits fun hf => h ⟨hs, hf⟩⟩
    | _ => exact ⟨_, rfl⟩

theorem act_results_of_not_ends (h : ¬signal.Ends session) : (signal.act (some session)).2=[] := by
  by_cases he : signal=.expire
  · rw [he]
    rfl
  by_cases hc : signal=.createExpired
  · rw [hc]
    rfl
  obtain ⟨_, ha⟩ := act_of_not_ends h he hc
  rw [ha]

theorem act_session {found : Option CoredumpSession} (h : (signal.act found).1=some session') :
    signal=.create session' ∨ ∃ session, found=some session ∧
      session'.sessionId=session.sessionId ∧ session'.clientFd=session.clientFd ∧
      (session.errorCode=0 → session'.errorCode=0) := by
  cases found with
  | none =>
    cases signal with
    | create session => exact .inl (congrArg _ (some.inj h))
    | _ => cases h
  | some session =>
    cases signal with
    | none => exact .inr ⟨session', h, rfl, rfl, id⟩
    | create session => exact .inl (congrArg _ (some.inj h))
    | createExpired | expire => cases h
    | cancel | start workerPid =>
      obtain ⟨_, _, rfl⟩ := onEvent_session h
      exact .inr ⟨session, rfl, rfl, rfl, id⟩
    | report retCode filePath =>
      obtain ⟨_, _, rfl⟩ := onEvent_session h
      exact .inr ⟨session, rfl, rfl, rfl, fun _ => rfl⟩

end Automaton

/-! ## Signals of inputs -/

section Signals

variable (sessionId : ℤ) (d : Daemon κ μ)

def timerFor (system : System) (requestData : CoreDumpRequestData) : ℕ :=
  (d.queue.addDelayTask (Task.removeSession requestData.pid)
    (cancelDelay requestData.endTime system.curTime maxCoredumpDelayTime)).1

def createSignal (system : System) (requestData : CoreDumpRequestData) : Signal :=
  match d.memory.sessions requestData.pid, system.dup with
  | none, some clientFd =>
    if timerFor d system requestData = 0 then .createExpired
    else .create {
      sessionId := requestData.pid
      clientFd := clientFd
      endTime := requestData.endTime
      delayTaskId := timerFor d system requestData}
  | _, _ => .none

def requestSignal (system : System) (connection : Connection) (requestData : CoreDumpRequestData) :
    Signal :=
  if validateRequest system connection requestData ≠ .requestSuccess then .none
  else if requestData.coredumpAction = doCoreDump then createSignal d system requestData
  else if requestData.coredumpAction = cancelCoreDump then .cancel
  else .none

def callbackSignal (connection : Connection) (requestData : CoreDumpStatusData) : Signal :=
  if !validateCallback connection requestData then .none
  else if requestData.coredumpStatus = coreDumpStart then
    if requestData.processDumpPid ≤ 0 then .none else .start requestData.processDumpPid
  else .report requestData.retCode requestData.filePath

def dueTask (d : Daemon κ μ) : Option (Entry (Task κ)) :=
  if d.draining then d.queue.delayTasks.head?.filter fun front => !decide (d.queue.now<front.executeTime)
  else none

def Input.signal : Input κ μ → Signal
  | .request system connection requestData =>
    if d.draining then .none
    else if sessionId = requestData.pid then requestSignal d system connection requestData
    else .none
  | .callback connection requestData =>
    if d.draining then .none
    else if sessionId = requestData.pid then callbackSignal connection requestData
    else .none
  | .turn =>
    match (dueTask d).map Entry.work with
    | some (.removeSession expired) => if sessionId = expired then .expire else .none
    | _ => .none
  | _ => .none

end Signals

def resultsFor (sessionId : ℤ) (outbox : List Message) : List (ℤ×CoreDumpResult) :=
  outbox.filterMap fun
    | .result id clientFd coredumpResult => if id = sessionId then some (clientFd, coredumpResult) else none
    | _ => none

def Services.view (m : Services μ) (sessionId : ℤ) : Life :=
  (m.sessions sessionId, resultsFor sessionId m.outbox)

/-- The services have gone from `m` to `m'`: the session of one id has lived on as `life` says, and
nothing else has changed. -/
def Moves (m m' : Services μ) (sessionId : ℤ) (life : Life) : Prop :=
  ∀ i, m'.view i = if i = sessionId then (life.1, (m.view i).2++life.2) else m.view i

/-! ## The handlers follow the automaton -/

section Handlers

variable {m m1 m2 : Services μ} {sid : ℤ} {session : CoredumpSession} {life : Life}
  {q : Queue (Task κ)}

theorem Moves.sessions (h : Moves m m1 sid life) : m1.sessions sid=life.1 := by
  have hv := congrArg fst (h sid)
  rwa [if_pos rfl] at hv

variable {found : Option CoredumpSession}

theorem Moves.trans (h1 : Moves m m1 sid (found, [])) (h2 : Moves m1 m2 sid life)
    : Moves m m2 sid life := by
  intro i
  rw [h2 i, h1 i]
  by_cases hi : i=sid
  · simp [hi]
  · simp [hi]

theorem moves_refl (h : m.sessions sid=found) : Moves m m sid (found, []) := by
  intro i
  by_cases hi : i=sid
  · rw [if_pos hi, append_nil, hi, ←h]
    rfl
  · rw [if_neg hi]

theorem moves_put (found : Option CoredumpSession) : Moves m (m.put sid found) sid (found, []) := by
  intro i
  by_cases hi : i=sid <;> simp [view, put, hi]

theorem view_send {i : ℤ} {message : Message} (h : resultsFor i [message]=[]) : (m.send message).view i=m.view i := by
  simp only [view, send, resultsFor, filterMap_append]
  rw [show filterMap _ [message]=[] from h, append_nil]

theorem moves_send {message : Message} (hm : ∀ i, resultsFor i [message]=[])
    (h : m.sessions sid=found) : Moves m (m.send message) sid (found, []) := by
  intro i
  rw [view_send (hm i)]
  exact moves_refl h i

theorem put_none_of_none (h : m.sessions sid=none) : m.put sid none=m := by
  have hs : (fun i => if i=sid then none else m.sessions i)=m.sessions := by grind
  rw [put, hs]

theorem exec_removeSession : ((removeSession sid m).exec q).1=m.put sid none := by
  unfold removeSession
  split
  · rename_i h
    exact (put_none_of_none h).symm
  · rw [exec_bind]
    rfl

section Found
variable (h : m.sessions sid=some session)
include h

theorem moves_modify (change : CoredumpSession → CoredumpSession) :
    Moves m (m.modify sid change) sid (some (change session), []) := by
  rw [Services.modify, h]
  exact moves_put _

theorem moves_sendResult (coredumpResult : CoreDumpResult) :
    Moves m ((sendResult sid coredumpResult m).exec q).1 sid
      (none, [(session.clientFd, coredumpResult)]) := by
  simp only [sendResult, h, exec_removeSession]
  intro i
  by_cases hi : i=sid
  · simp [view, put, send, resultsFor, hi]
  · simp [view, put, send, resultsFor, hi, Ne.symm hi]

theorem moves_writeResult : Moves m ((writeResult sid m).exec q).1 sid session.finish := by
  simp only [writeResult, h, finish]
  by_cases hf : fileNameSize≤ session.filePath.length
  · simp only [hf]
    exact moves_refl h
  · simp only [hf]
    exact moves_sendResult h _

theorem moves_finish (status : CoredumpStatus) :
    Moves m ((writeResult sid (m.setStatus sid status)).exec q).1 sid
      {session with status := status}.finish := have hs := moves_modify h fun session => {session with status := status}
  hs.trans (moves_writeResult hs.sessions)

theorem moves_cancel_finish (workerPid : ℤ) (status : CoredumpStatus) :
    Moves m ((writeResult sid ((m.send (.cancelSignal workerPid)).setStatus sid status)).exec q).1 sid
      {session with status := status}.finish :=
  (moves_send (fun _ => rfl) h).trans (moves_finish (m := m.send _) h status)

theorem moves_writeTimeout (status : CoredumpStatus) :
    Moves m ((writeTimeout sid (m.setStatus sid status)).exec q).1 sid
      (none, [(session.clientFd, ⟨[], -1⟩)]) := by
  have hs := moves_modify h fun session => {session with status := status}
  have hs1 := moves_sendResult (q := q) hs.sessions ⟨[], -1⟩
  exact hs.trans hs1

theorem moves_handleEvent (event : CoredumpEvent) (hk : session.sessionId=sid) :
    Moves m ((handleEvent session event m).exec q).1 sid (session.onEvent event) := by
  subst hk
  unfold handleEvent onEvent
  have hs : Moves m m session.sessionId (some session, []) := moves_refl h
  cases hs1 : session.status with
  | pending =>
    cases event with
    | updateDumper | cancel => exact moves_modify h _
    | timeout => exact moves_writeTimeout h _
    | _ => exact hs
  | running =>
    cases event with
    | reportSuccess | reportFail => exact moves_finish h _
    | cancel => exact moves_cancel_finish h _ _
    | _ => exact hs
  | cancelPending =>
    cases event with
    | updateDumper => exact moves_cancel_finish h _ _
    | timeout => exact moves_writeTimeout h _
    | _ => exact hs
  | _ => exact hs

theorem moves_modify_handleEvent (change : CoredumpSession → CoredumpSession) (event : CoredumpEvent)
    (hk : (change session).sessionId=sid) :
    Moves m ((handleEvent (change session) event (m.modify sid change)).exec q).1 sid
      ((change session).onEvent event) := by
  have hc := moves_modify h change
  exact hc.trans (moves_handleEvent hc.sessions event hk)

theorem moves_cancelCoredump (hk : session.sessionId=sid) :
    Moves m ((cancelCoredump sid m).exec q).1 sid (Signal.cancel.act (some session)) := by
  let change := fun session : CoredumpSession => {session with cancelRequest := true}
  have hf := (moves_modify h change).sessions
  simp only [cancelCoredump, cancelSession, change, hf]
  exact moves_modify_handleEvent h change _ hk

theorem moves_updateWorkerPid (workerPid : ℤ)
    (hk : session.sessionId=sid) : Moves m ((updateWorkerPid sid workerPid m).exec q).1.2 sid
      ((Signal.start workerPid).act (some session)) := by
  let change := fun session : CoredumpSession => {session with workerPid := workerPid}
  have hf := (moves_modify h change).sessions
  simp only [updateWorkerPid, setWorkerPid, change, hf, exec_bind]
  exact moves_modify_handleEvent h change _ hk

theorem moves_scheduleCancelTime {timeoutMs curTime taskId : ℕ}
    (ht : (q.addDelayTask (.removeSession sid) (cancelDelay session.endTime curTime timeoutMs)).1=taskId) :
    Moves m ((scheduleCancelTime sid timeoutMs curTime m).exec q).1 sid
      (if taskId=0 then none else some {session with delayTaskId := taskId}, []) := by
  simp only [scheduleCancelTime, h, exec, ht]
  by_cases hz : taskId=0
  · rw [if_pos hz, if_pos hz, exec_removeSession]
    exact moves_put none
  · rw [if_neg hz, if_neg hz]
    exact moves_modify h _

end Found

theorem moves_handleReport (req : CoreDumpStatusData)
    (h : m.sessions req.pid=some session) (hk : session.sessionId=req.pid) :
    Moves m ((handleReport req m).exec q).1.2 req.pid
      ((Signal.report req.retCode req.filePath).act (some session)) := by
  let change := fun session : CoredumpSession =>
    {session with filePath := req.filePath, errorCode := 0}
  have hf := (moves_modify h change).sessions
  have he : (if (if req.retCode=0 then CoredumpStatus.success else .failed)=.success
      then CoredumpEvent.reportSuccess else .reportFail) = if req.retCode=0 then .reportSuccess else .reportFail := by
    by_cases hc : req.retCode=0 <;> simp [hc]
  simp only [handleReport, reportResult, updateReport, change, hf, exec_bind, he]
  exact moves_modify_handleEvent h change _ hk

theorem moves_createCoredump {req : CreateCoredumpRequest} {curTime taskId : ℕ} (h : m.sessions req.targetPid=none)
    (ht : (q.addDelayTask (.removeSession req.targetPid)
      (cancelDelay req.endTime curTime maxCoredumpDelayTime)).1=taskId) :
    Moves m ((createCoredump req curTime m).exec q).1 req.targetPid (if taskId=0 then none else some {
        sessionId := req.targetPid
        clientFd := req.clientFd
        endTime := req.endTime
        delayTaskId := taskId}, []) := by
  have hp : Moves m (createSession req m) req.targetPid (some {
      sessionId := req.targetPid
      clientFd := req.clientFd
      endTime := req.endTime}, []) := by
    rw [createSession, h]
    exact moves_put _
  have hs1 : Moves (createSession req m)
      ((createSession req m).send (.startSignal req.targetPid)) req.targetPid _ := moves_send (fun _ => rfl) hp.sessions
  have hs := moves_scheduleCancelTime hs1.sessions ht
  exact (hp.trans hs1).trans hs

end Handlers

/-! ## Every input follows the automaton -/

def Keyed (m : Services μ) : Prop :=
  ∀ i session, m.sessions i = some session → session.sessionId = i

def Life.after (before : Life) (signal : Signal) : Life :=
  ((signal.act before.1).1, before.2++(signal.act before.1).2)

section Inputs

variable {m m' : Services μ} {i sid : ℤ} {q : Queue (Task κ)} {d : Daemon κ μ}

theorem Moves.view {signal : Signal} (h : Moves m m' sid (signal.act (m.sessions sid))) :
    m'.view i=(m.view i).after (if i=sid then signal else .none) := by
  rw [h i]
  by_cases hi : i=sid
  · subst hi
    rw [if_pos rfl, if_pos rfl]
    rfl
  · rw [if_neg hi, if_neg hi]
    exact (congrArg _ (append_nil _)).symm

theorem view_after_none : (m.view i).after .none=m.view i := congrArg _ (append_nil _)

theorem moves_handleCreateEvent (system : System) (req : CoreDumpRequestData) :
    Moves d.memory ((handleCreateEvent system req d.memory).exec d.queue).1.2 req.pid
      ((createSignal d system req).act (d.memory.sessions req.pid)) := by
  unfold handleCreateEvent createSignal
  cases hf : d.memory.sessions req.pid with
  | some session => exact moves_refl hf
  | none =>
    cases system.dup with
    | none => exact moves_refl hf
    | some clientFd =>
      simp only [exec_bind, exec_pure]
      have hm : Moves d.memory ((createCoredump ⟨req.pid, clientFd, req.endTime⟩
          system.curTime d.memory).exec d.queue).1 req.pid _ := moves_createCoredump hf rfl
      convert hm using 1
      change Signal.act (if timerFor d system req=0 then _ else _) _ = (if timerFor d system req=0 then _ else _, _)
      split <;> rfl

theorem moves_handleCancelEvent (hk : Keyed m) (req : CoreDumpRequestData) :
    Moves m ((handleCancelEvent req m).exec q).1.2 req.pid (Signal.cancel.act (m.sessions req.pid)) := by
  unfold handleCancelEvent
  cases hf : m.sessions req.pid with
  | none => exact moves_refl hf
  | some session =>
    simp only [exec_bind]
    exact moves_cancelCoredump hf (hk _ _ hf)

theorem moves_respond {life : Life} (conn : Connection) (answer : ResponseCode×Services μ) :
    Moves m ((respond conn answer).exec q).1.2 sid life ↔ Moves m answer.2 sid life := by
  have hv : ∀ i, ((respond conn answer).exec q).1.2.view i=answer.2.view i := fun _ => view_send rfl
  simp [Moves, hv]

theorem moves_onRequest (hk : Keyed d.memory) (system : System) (conn : Connection) (req : CoreDumpRequestData) :
    Moves d.memory ((onRequest system conn req d.memory).exec d.queue).1.2 req.pid
      ((requestSignal d system conn req).act (d.memory.sessions req.pid)) := by
  unfold onRequest requestSignal
  dsimp only
  split_ifs with hv hc1 hc
  · exact (moves_respond ..).mpr (moves_refl rfl)
  · rw [exec_bind, moves_respond]
    exact moves_handleCreateEvent system req
  · rw [exec_bind, moves_respond]
    exact moves_handleCancelEvent hk req
  · exact (moves_respond ..).mpr (moves_refl rfl)

theorem moves_handleUpdateWorkerPid (hk : Keyed m) (req : CoreDumpStatusData) (hp : ¬req.processDumpPid≤0) :
    Moves m ((handleUpdateWorkerPid req m).exec q).1.2 req.pid
      ((Signal.start req.processDumpPid).act (m.sessions req.pid)) := by
  simp only [handleUpdateWorkerPid, if_neg hp, exec_bind]
  cases hf : m.sessions req.pid with
  | none =>
    have hp1 := put_none_of_none hf
    simp only [updateWorkerPid, setWorkerPid, Services.modify, hf, map_none, hp1]
    exact moves_refl hf
  | some session => exact moves_updateWorkerPid hf _ (hk _ _ hf)

theorem moves_onReport (hk : Keyed m) (req : CoreDumpStatusData) : Moves m ((handleReport req m).exec q).1.2 req.pid
      ((Signal.report req.retCode req.filePath).act (m.sessions req.pid)) := by
  cases hf : m.sessions req.pid with
  | none =>
    have hp := put_none_of_none hf
    simp only [handleReport, reportResult, updateReport, Services.modify, hf, map_none, hp]
    exact moves_refl hf
  | some session => exact moves_handleReport req hf (hk _ _ hf)

theorem moves_onCallback (hk : Keyed m) (conn : Connection) (req : CoreDumpStatusData) :
    Moves m ((onCallback conn req m).exec q).1.2 req.pid ((callbackSignal conn req).act (m.sessions req.pid)) := by
  unfold onCallback callbackSignal
  split_ifs with hv hs hp
  · exact (moves_respond ..).mpr (moves_refl rfl)
  · simp only [exec_bind, moves_respond, handleUpdateWorkerPid, if_pos hp]
    exact moves_refl rfl
  · rw [exec_bind, moves_respond]
    exact moves_handleUpdateWorkerPid hk req hp
  · rw [exec_bind, moves_respond]
    exact moves_onReport hk req

theorem view_elsewhere (work : μ → Work (Task κ) μ) : ((elsewhere work m).exec q).1.view i=m.view i := by
  simp only [elsewhere, exec_bind]
  rfl

theorem moves_removeSession :
    Moves m ((removeSession sid m).exec q).1 sid (Signal.expire.act (m.sessions sid)) := by
  rw [exec_removeSession]
  exact moves_put none

variable {other : κ → μ → Work (Task κ) μ}

theorem view_turn (hd : d.draining) : (d.turn (Task.body other)).memory.view i =
    (d.memory.view i).after ((turn : Input κ μ).signal i d) := by
  unfold Loop.turn signal dueTask
  rw [if_pos hd]
  cases ht : d.queue.delayTasks with
  | nil => exact view_after_none.symm
  | cons front rest =>
    simp only [head?_cons, Option.filter]
    by_cases hd1 : d.queue.now<front.executeTime
    · simp only [hd1]
      exact view_after_none.symm
    · simp only [hd1, runFront, decide_false, Bool.not_false, if_true, map_some]
      cases front.work with
      | removeSession expired => exact moves_removeSession.view
      | other task => exact (view_elsewhere _).trans view_after_none.symm

theorem step_view (hk : Keyed d.memory) (input : Input κ μ) :
    (step other input d).memory.view i=(d.memory.view i).after (input.signal i d) := by
  have hn : d.memory.view i=(d.memory.view i).after .none := view_after_none.symm
  cases input with
  | wait us taken => exact hn
  | timer =>
    simp only [step, event, Loop.step]
    split <;> exact hn
  | turn =>
    simp only [step, event, Loop.step]
    split
    · exact view_turn ‹_›
    · simp only [signal, dueTask, if_neg ‹_›]
      exact hn
  | service work =>
    simp only [step, event, Loop.step]
    split
    · exact hn
    · exact (view_elsewhere _).trans hn
  | request system conn req =>
    simp only [step, event, Loop.step, signal]
    split
    · exact hn
    · rw [Loop.perform, exec_map]
      exact (moves_onRequest hk system conn req).view
  | callback conn req =>
    simp only [step, event, Loop.step, signal]
    split
    · exact hn
    · rw [Loop.perform, exec_map]
      exact (moves_onCallback hk conn req).view

theorem step_session (hk : Keyed d.memory) (input : Input κ μ) : (step other input d).memory.sessions i =
      ((input.signal i d).act (d.memory.sessions i)).1 := congrArg fst (step_view hk input)

theorem step_results (hk : Keyed d.memory) (input : Input κ μ) :
    resultsFor i (step other input d).memory.outbox=resultsFor i d.memory.outbox ++
      ((input.signal i d).act (d.memory.sessions i)).2 := congrArg snd (step_view hk input)

/-! ## Invariants of the session map -/

/-- A request for a coredump of a process that has no session, on a descriptor that could be kept. -/
structure Accepted (d : Daemon κ μ) (system : System) (connection : Connection)
    (requestData : CoreDumpRequestData) (clientFd : ℤ) : Prop where
  idle : d.draining = false
  valid : validateRequest system connection requestData = .requestSuccess
  action : requestData.coredumpAction = doCoreDump
  absent : d.memory.sessions requestData.pid = none
  dup : system.dup = some clientFd

theorem createSignal_cases (system : System) (req : CoreDumpRequestData) : createSignal d system req=.none ∨
      ∃ clientFd, d.memory.sessions req.pid=none ∧ system.dup=some clientFd ∧
        (createSignal d system req=.createExpired ∨ ∃ session, createSignal d system req=.create session) := by
  unfold createSignal
  split
  · refine .inr ⟨_, ‹_›, ‹_›, ?_⟩
    split
    · exact .inl rfl
    · exact .inr ⟨_, rfl⟩
  · exact .inl rfl

theorem Accepted.signal {system : System} {conn : Connection} {req : CoreDumpRequestData}
    {clientFd : ℤ} (h : Accepted d system conn req clientFd) : (request system conn req : Input κ μ).signal req.pid d =
      if timerFor d system req=0 then .createExpired else .create {
        sessionId := req.pid
        clientFd := clientFd
        endTime := req.endTime
        delayTaskId := timerFor d system req} := by
  simp only [Input.signal, h.idle, requestSignal, h.valid, h.action, createSignal, h.absent, h.dup]
  rfl

inductive SignalFrom (i : ℤ) (d : Daemon κ μ) : Input κ μ → Signal → Prop where
  | nothing (input : Input κ μ) : SignalFrom i d input .none
  | created {system : System} {connection : Connection} {requestData : CoreDumpRequestData} {clientFd : ℤ}
      {signal : Signal} (pid : requestData.pid=i) (accepted : Accepted d system connection requestData clientFd)
      (creates : signal = .createExpired ∨ ∃ session, signal = .create session) :
      SignalFrom i d (.request system connection requestData) signal
  | canceled (system : System) (connection : Connection) (requestData : CoreDumpRequestData) :
      SignalFrom i d (.request system connection requestData) .cancel
  | started (connection : Connection) (requestData : CoreDumpStatusData) (workerPid : ℤ) :
      SignalFrom i d (.callback connection requestData) (.start workerPid)
  | reported {connection : Connection} {requestData : CoreDumpStatusData} (pid : requestData.pid=i)
      (idle : d.draining=false) (valid : validateCallback connection requestData=true)
      (ended : requestData.coredumpStatus≠coreDumpStart) :
      SignalFrom i d (.callback connection requestData) (.report requestData.retCode requestData.filePath)
  | expired (due : (dueTask d).map Entry.work=some (.removeSession i)) : SignalFrom i d .turn .expire

theorem requestSignal_from (hi : ¬d.draining) (system : System) (conn : Connection)
    (req : CoreDumpRequestData) : SignalFrom req.pid d (.request system conn req)
      (requestSignal d system conn req) := by
  unfold requestSignal
  split_ifs with hv ha1
  · exact .nothing _
  · obtain hn | ⟨clientFd, ha, hd, hc⟩ := createSignal_cases (d := d) system req
    · rw [hn]
      exact .nothing _
    · exact .created rfl ⟨by simpa using hi, by simpa using hv, ha1, ha, hd⟩ hc
  · exact .canceled _ _ _
  · exact .nothing _

theorem callbackSignal_from (hi : ¬d.draining) (conn : Connection) (req : CoreDumpStatusData) :
    SignalFrom req.pid d (.callback conn req : Input κ μ) (callbackSignal conn req) := by
  unfold callbackSignal
  split_ifs with hv hs
  · exact .nothing _
  · exact .nothing _
  · exact .started _ _ _
  · exact .reported rfl (by simpa using hi) (by simpa using hv) hs

theorem signal_from (i : ℤ) (d : Daemon κ μ) (input : Input κ μ) : SignalFrom i d input (input.signal i d) := by
  cases input with
  | request system conn req =>
    simp only [signal]
    split_ifs with hd hp
    · exact .nothing _
    · subst hp
      exact requestSignal_from hd system conn req
    · exact .nothing _
  | callback conn req =>
    simp only [signal]
    split_ifs with hd hp
    · exact .nothing _
    · subst hp
      exact callbackSignal_from hd conn req
    · exact .nothing _
  | turn =>
    simp only [signal]
    split
    · rename_i expired hd1
      split_ifs with hs
      · exact .expired (hs ▸ hd1)
      · exact .nothing _
    · exact .nothing _
  | _ => exact .nothing _

theorem signal_created {input : Input κ μ}
    (h : input.signal i d=.createExpired ∨ ∃ session, input.signal i d=.create session) :
    ∃ system conn req clientFd, input=.request system conn req ∧ req.pid=i ∧ Accepted d system conn req clientFd := by
  have hf := signal_from i d input
  generalize input.signal i d=signal at h hf
  cases hf with
  | created pid accepted => exact ⟨_, _, _, _, rfl, pid, accepted⟩
  | _ => simp at h

theorem signal_ne_create {input : Input κ μ} {session : CoredumpSession}
    (hf : d.memory.sessions i=some session) (created : CoredumpSession) : input.signal i d≠.create created := by
  intro hs
  obtain ⟨_, _, _, _, -, rfl, ha⟩ := signal_created (.inr ⟨created, hs⟩)
  rw [ha.absent] at hf
  cases hf

/-- Sessions are kept under their own id and carry no error code: what a worker reports is not in the
record that `HandleReport` passes on. -/
structure Kept (m : Services μ) : Prop where
  keyed : Keyed m
  errorCode : ∀ i session, m.sessions i = some session → session.errorCode = 0

theorem step_kept (h : Kept d.memory) (input : Input κ μ) : Kept (step other input d).memory := by
  have hs2 : ∀ i session, (step other input d).memory.sessions i=some session →
      session.sessionId=i ∧ session.errorCode=0 := by
    intro i session hs1
    rw [step_session h.keyed] at hs1
    obtain hc | ⟨old, ho, hid, -, he⟩ := act_session hs1
    · obtain ⟨_, _, _, _, rfl, rfl, ha⟩ := signal_created (.inr ⟨_, hc⟩)
      have hs := ha.signal
      rw [hc] at hs
      split at hs
      · cases hs
      · cases hs
        exact ⟨rfl, rfl⟩
    · exact ⟨hid.trans (h.keyed i old ho), he (h.errorCode i old ho)⟩
  exact ⟨fun i session hs1 => (hs2 i session hs1).1, fun i session hs1 => (hs2 i session hs1).2⟩

theorem run_kept (h : Kept d.memory) (inputs : List (Input κ μ)) : Kept (run other inputs d).memory :=
  EventRuns.run_invariant (fun d : Daemon κ μ => Kept d.memory) (fun _ input h => step_kept h input) h inputs

theorem fresh_kept (now : ℕ) (grants : ℕ → Bool) (delaySequence : ℕ) (rest : μ) :
    Kept (Daemon.fresh now grants delaySequence rest : Daemon κ μ).memory where
  keyed _ session h := absurd h.symm (some_ne_none session)
  errorCode _ session h := absurd h.symm (some_ne_none session)

end Inputs

end Faultloggerd.Coredump
