import Faultloggerd.Coredump.SessionLife

/-! # Events that a session's state does not take

The facade writes what an event carries into the session before the handler of the session's state looks at the
event, and nothing takes it back when the handler has no branch for it.
-/
namespace Faultloggerd.Coredump
open EventLoop

variable {κ μ : Type}

def onTimeout (sessionId : ℤ) (m : Services μ) : Work (Task κ) (Services μ) :=
  match m.sessions sessionId with
  | none => pure m
  | some session => handleEvent session .timeout m

inductive FacadeCall where
  | cancelCoredump
  | updateWorkerPid (workerPid : ℤ)
  | reportResult (rpt : CoredumpCallbackReport)
  | onTimeout

namespace FacadeCall

def perform (sessionId : ℤ) (m : Services μ) : FacadeCall → Work (Task κ) (Services μ)
  | cancelCoredump => Coredump.cancelCoredump sessionId m
  | updateWorkerPid workerPid => Prod.snd <$> Coredump.updateWorkerPid sessionId workerPid m
  | reportResult rpt => Coredump.reportResult sessionId rpt m
  | onTimeout => Coredump.onTimeout sessionId m

def event : FacadeCall → CoredumpEvent
  | cancelCoredump => .cancel
  | updateWorkerPid _ => .updateDumper
  | reportResult rpt => if rpt.status = .success then .reportSuccess else .reportFail
  | onTimeout => .timeout

def written (session : CoredumpSession) : FacadeCall → CoredumpSession
  | cancelCoredump => {session with cancelRequest := true}
  | updateWorkerPid workerPid => {session with workerPid := workerPid}
  | reportResult rpt => {session with filePath := rpt.filePath, errorCode := rpt.errorCode}
  | onTimeout => session

/-- The session holds already what the call carries. -/
def BringsNothing (session : CoredumpSession) : FacadeCall → Prop
  | cancelCoredump => session.cancelRequest = true
  | updateWorkerPid workerPid => session.workerPid = workerPid
  | reportResult rpt => session.filePath = rpt.filePath ∧ session.errorCode = rpt.errorCode
  | onTimeout => True

end FacadeCall

/-- The events that a session handles in a state. -/
def Accepts : CoredumpStatus → CoredumpEvent → Prop
  | .pending, .updateDumper | .pending, .cancel | .pending, .timeout => True
  | .running, .reportSuccess | .running, .reportFail | .running, .cancel => True
  | .cancelPending, .updateDumper | .cancelPending, .timeout => True
  | _, _ => False

variable {m : Services μ} {session : CoredumpSession} {q : Queue (Task κ)}

theorem moves_perform (call : FacadeCall) (h : m.sessions session.sessionId=some session) :
    Moves m ((call.perform session.sessionId m).exec q).1 session.sessionId
      ((call.written session).onEvent call.event) := by
  cases call with
  | cancelCoredump => exact moves_cancelCoredump h rfl
  | updateWorkerPid workerPid =>
    simp only [FacadeCall.perform, Work.exec_map]
    exact moves_updateWorkerPid h workerPid rfl
  | reportResult rpt =>
    let change := fun session : CoredumpSession => {session with filePath := rpt.filePath, errorCode := rpt.errorCode}
    have hw := (moves_modify h change).sessions
    simp only [FacadeCall.perform, reportResult, updateReport, change, hw]
    exact moves_modify_handleEvent h change _ rfl
  | onTimeout =>
    simp only [FacadeCall.perform, onTimeout, h]
    exact moves_handleEvent h .timeout rfl

theorem onEvent_of_not_accepts {event : CoredumpEvent} (h : ¬Accepts session.status event) :
    session.onEvent event=(some session, []) := by
  unfold CoredumpSession.onEvent
  cases hs : session.status <;> rw [hs] at h <;> cases event <;> first
    | rfl
    | exact absurd trivial h

theorem written_eq_iff (call : FacadeCall) : call.written session=session ↔ call.BringsNothing session := by
  obtain ⟨_, _, _, _, _, _, _, _, _⟩ := session
  cases call <;> simp [FacadeCall.written, FacadeCall.BringsNothing, eq_comm]

/-- An event that the state does not take leaves the record as it was exactly if it carries nothing new. -/
theorem rejected_event_keeps_iff (m : Services μ) (q : Queue (Task κ)) (session : CoredumpSession) (call : FacadeCall)
    (hfound : m.sessions session.sessionId=some session) (hrejected : ¬Accepts session.status call.event) :
    ((call.perform session.sessionId m).exec q).1.sessions session.sessionId = some session ↔
      call.BringsNothing session := by
  have hs : (call.written session).status=session.status := by cases call <;> rfl
  rw [(moves_perform call hfound).sessions, onEvent_of_not_accepts (hs ▸ hrejected), Option.some_inj]
  exact written_eq_iff call

def startedTwice : CoredumpSession where
  sessionId := 42
  workerPid := 100
  status := .running
  clientFd := 7
  endTime := 30000

/-- A second START replaces the worker of a running session. -/
theorem second_start_overwrites :
    let m : Services Unit := (Services.fresh ()).put 42 (some startedTwice)
    ¬Accepts startedTwice.status .updateDumper ∧
      ((((FacadeCall.updateWorkerPid 200).perform 42 m : Work (Task Empty) _).exec
        (Queue.fresh 1 (fun _ => true) 0)).1.sessions 42).map CoredumpSession.workerPid = some 200 := by
  exact ⟨id, rfl⟩

theorem repeated_start_keeps :
    (((FacadeCall.updateWorkerPid 100).perform 42 ((Services.fresh ()).put 42 (some startedTwice)) :
      Work (Task Empty) (Services Unit)).exec (Queue.fresh 1 (fun _ => true) 0)).1.sessions 42 = some startedTwice :=
  (rejected_event_keeps_iff _ _ startedTwice (.updateWorkerPid 100) rfl id).mpr rfl

end Faultloggerd.Coredump
