import Faultloggerd.Coredump.SessionLife

/-! # What a client is told

A client should read zero exactly when the worker of its session has reported an end with zero while the
session was running, and a reported error otherwise. The code of the report is lost in `HandleReport`, and a
canceled session is answered with the code of a good one.
-/
namespace Faultloggerd.Coredump
open Foundations EventLoop List Daemon CoredumpSession Option

variable {κ μ : Type} (other : κ → μ → Work (Task κ) μ)

structure Reports (i retCode : ℤ) (d : Daemon κ μ) (connection : Connection)
    (requestData : CoreDumpStatusData) (session : CoredumpSession) : Prop where
  idle : d.draining = false
  valid : validateCallback connection requestData = true
  ended : requestData.coredumpStatus ≠ coreDumpStart
  pid : requestData.pid = i
  retCode : requestData.retCode = retCode
  found : d.memory.sessions i = some session
  running : session.status = .running
  worker : isReporterWorker connection session.workerPid = true

def ReportedBy (i retCode : ℤ) (d : Daemon κ μ) (input : Input κ μ) : Prop :=
  ∃ connection requestData session, input = .callback connection requestData ∧
    Reports i retCode d connection requestData session

/-- The code was reported, now or before, for the session that is still there. -/
def Reported (d : Daemon κ μ) (i retCode : ℤ) (before : List (Input κ μ)) (input : Input κ μ) : Prop :=
  ReportedBy i retCode (run other before d) input ∨
    ∃ earlier report later, before = earlier++report::later ∧
      ReportedBy i retCode (run other earlier d) report ∧
      ∀ mid, mid <+: later → (run other (earlier++report::mid) d).memory.sessions i ≠ none

def sentFor (i : ℤ) (d : Daemon κ μ) (input : Input κ μ) : List (ℤ×CoreDumpResult) :=
  (resultsFor i (step other input d).memory.outbox).drop (resultsFor i d.memory.outbox).length

/-- A client is told 0 exactly when 0 was reported for its session, and any other code that was reported as it is. -/
def ResultLaw (d : Daemon κ μ) (inputs : List (Input κ μ)) : Prop :=
  ∀ before input after, inputs = before++input::after →
    ∀ i clientFd result, (clientFd, result) ∈ sentFor other i (run other before d) input →
      (result.retCode=0 ↔ Reported other d i 0 before input) ∧
      ∀ retCode, retCode ≠ 0 → Reported other d i retCode before input → result.retCode = retCode

def Input.fromWorker (workerPid : ℤ) : Input κ μ → Bool
  | .callback connection _ => isReporterWorker connection workerPid
  | _ => false

/-- No session is canceled while its worker runs, no worker starts for a session that waits to be
canceled, and a running session's end is reported by its worker, with zero. Nothing is sent for a session
whose path has no terminator. -/
def PassesOn (d : Daemon κ μ) (input : Input κ μ) : Prop :=
  ∀ i session, d.memory.sessions i = some session →
    match input.signal i d with
    | .cancel => ¬(session.status = .running ∧ session.filePath.length<fileNameSize)
    | .start _ => ¬(session.status = .cancelPending ∧ session.filePath.length<fileNameSize)
    | .report retCode filePath => session.status = .running ∧ filePath.length < fileNameSize →
        retCode = 0 ∧ input.fromWorker session.workerPid
    | _ => True

section Proofs

variable {other} {d : Daemon κ μ} {i : ℤ} {input : Input κ μ} {session : CoredumpSession}

theorem sentFor_eq (h : Kept d.memory) : sentFor other i d input=((input.signal i d).act (d.memory.sessions i)).2 := by
  rw [sentFor, step_results h.keyed, drop_left]

variable {retCode : ℤ}

theorem Reports.signal {conn : Connection} {req : CoreDumpStatusData} (h : Reports i retCode d conn req session) :
    (Input.callback conn req : Input κ μ).signal i d=.report retCode req.filePath := by
  simp [Input.signal, callbackSignal, h.idle, h.pid, h.valid, h.ended, h.retCode]

theorem signal_report {path : List UInt8} (h : input.signal i d=.report retCode path) :
    ∃ conn req, input=.callback conn req ∧ d.draining=false ∧
      validateCallback conn req=true ∧ req.coredumpStatus≠coreDumpStart ∧ req.pid=i ∧ req.retCode=retCode := by
  have hf := signal_from i d input
  rw [h] at hf
  cases hf with
  | created _ _ creates => simp at creates
  | reported pid idle valid ended => exact ⟨_, _, rfl, idle, valid, ended, pid, rfl⟩

def CoredumpSession.Finished (session : CoredumpSession) : Prop :=
  session.status = .success ∨ session.status = .failed

theorem onEvent_of_finished {event : CoredumpEvent} (h : session.Finished) :
    session.onEvent event=(some session, []) := by
  unfold onEvent
  obtain hs | hs := h <;> rw [hs]

theorem act_of_finished {signal : Signal} (h : session.Finished)
    (hc1 : ∀ created, signal≠.create created) : (signal.act (some session)).2=[] ∧
      ∀ session', (signal.act (some session)).1=some session' → session'.Finished := by
  have hs1 : ∀ (changed : CoredumpSession) (event : CoredumpEvent), changed.Finished →
      (changed.onEvent event).2=[] ∧ ∀ session', (changed.onEvent event).1=some session' → session'.Finished := by
    intro changed event hc
    rw [onEvent_of_finished hc]
    exact ⟨rfl, fun session' hs => some.inj hs ▸ hc⟩
  cases signal with
  | none => exact ⟨rfl, fun session' hs => some.inj hs ▸ h⟩
  | create created => exact absurd rfl (hc1 created)
  | createExpired | expire => exact ⟨rfl, nofun⟩
  | _ => exact hs1 _ _ h

theorem report_finished {session' : CoredumpSession} (h : Kept d.memory) (hr1 : ReportedBy i retCode d input)
    (hs : (step other input d).memory.sessions i=some session') : session'.Finished := by
  obtain ⟨conn, req, session, rfl, hr⟩ := hr1
  rw [step_session h.keyed, hr.signal, hr.found] at hs
  by_cases hc : retCode=0
  · simp only [Signal.act, hc, hr.running] at hs
    exact finish_session hs ▸ .inl rfl
  · simp only [Signal.act, hc, hr.running] at hs
    exact finish_session hs ▸ .inr rfl

theorem run_finished {inputs : List (Input κ μ)} (h : Kept d.memory)
    (hf1 : d.memory.sessions i=some session) (hf : session.Finished)
    (ha : ∀ mid, mid <+: inputs → (run other mid d).memory.sessions i≠none) :
    ∃ session', (run other inputs d).memory.sessions i=some session' ∧ session'.Finished := by
  induction inputs generalizing d session with
  | nil => exact ⟨session, hf1, hf⟩
  | cons input inputs ih =>
    obtain ⟨session', hs⟩ := ne_none_iff_exists'.mp (ha [input] (prefix_append [input] inputs))
    have ha1 := hs
    change (step other input d).memory.sessions i=_ at ha1
    rw [step_session h.keyed, hf1] at ha1
    have hn := (act_of_finished hf (signal_ne_create hf1)).2 session' ha1
    refine ih (step_kept h input) hs hn fun mid hm => ?_
    exact ha (input::mid) (prefix_cons_iff.mpr (.inr ⟨mid, rfl, hm⟩))

theorem reported_of_sent {before : List (Input κ μ)} (h : Kept d.memory)
    (hr : Reported other d i retCode before input) (hs2 : sentFor other i (run other before d) input≠[]) :
    ReportedBy i retCode (run other before d) input := by
  obtain hn | ⟨old, report, later, rfl, hr1, ha⟩ := hr
  · exact hn
  · exfalso
    have he : Kept (run other old d).memory := run_kept h old
    obtain ⟨session', hs⟩ := ne_none_iff_exists'.mp (ha [] nil_prefix)
    rw [run_append] at hs
    have hf := report_finished he hr1 hs
    obtain ⟨last, hl, hs1⟩ := run_finished (step_kept he report) hs hf
      fun mid hm => by
        have ht := ha mid hm
        rwa [run_append] at ht
    apply hs2
    rw [run_append]
    change sentFor other i (run other later (step other report (run other old d))) input=[]
    rw [sentFor_eq (run_kept (step_kept he report) later), hl]
    exact (act_of_finished hs1 (signal_ne_create hl)).1

theorem act_none_results (signal : Signal) : (signal.act none).2=[] := by
  cases signal <;> rfl

theorem ends_of_sent (h : Kept d.memory) {fd : ℤ} {res : CoreDumpResult} (hs : (fd, res)∈sentFor other i d input) :
    ∃ session, d.memory.sessions i=some session ∧ (input.signal i d).Ends session ∧ res.retCode=0 := by
  rw [sentFor_eq h] at hs
  cases hf : d.memory.sessions i with
  | none =>
    rw [hf, act_none_results] at hs
    cases hs
  | some session =>
    rw [hf] at hs
    by_cases he : (input.signal i d).Ends session
    · obtain ⟨fileName, ha⟩ := act_of_ends (h.errorCode i session hf) he
      rw [ha, mem_singleton] at hs
      cases hs
      exact ⟨session, rfl, he, rfl⟩
    · rw [act_results_of_not_ends he] at hs
      cases hs

theorem sent_of_ends (h : Kept d.memory) (hf : d.memory.sessions i=some session)
    (he : (input.signal i d).Ends session) : ∃ fileName, (session.clientFd, ⟨fileName, 0⟩)∈sentFor other i d input := by
  obtain ⟨fileName, ha⟩ := act_of_ends (h.errorCode i session hf) he
  refine ⟨fileName, ?_⟩
  rw [sentFor_eq h, hf, ha]
  exact mem_singleton_self _

theorem ReportedBy.signal (h : ReportedBy i retCode d input) : ∃ path, input.signal i d=.report retCode path := by
  obtain ⟨_, _, _, rfl, hr⟩ := h
  exact ⟨_, hr.signal⟩

theorem passesOn_iff : PassesOn d input ↔ ∀ i session, d.memory.sessions i=some session →
    (input.signal i d).Ends session → ReportedBy i 0 d input := by
  refine forall_congr' fun i => forall_congr' fun session => forall_congr' fun hf => ?_
  have hr : ReportedBy i 0 d input → ∃ path, input.signal i d=.report 0 path := ReportedBy.signal
  cases hs : input.signal i d with
  | cancel =>
    rw [hs] at hr
    refine ⟨fun hn he => absurd he hn, fun he hc => ?_⟩
    exact nomatch hr (he hc)
  | start workerPid =>
    rw [hs] at hr
    refine ⟨fun hn he => absurd he hn, fun he hs2 => ?_⟩
    exact nomatch hr (he hs2)
  | report retCode path =>
    obtain ⟨conn, req, rfl, hi1, hv, he1, hp1, hc1⟩ := signal_report hs
    refine imp_congr_right fun he => ⟨fun hp => ?_, fun hr1 => ?_⟩
    · exact ⟨conn, req, session, rfl, ⟨hi1, hv, he1, hp1, hc1.trans hp.1, hf, he.1, hp.2⟩⟩
    · obtain ⟨_, hs1⟩ := hr hr1
      rw [hs] at hs1
      cases hs1
      obtain ⟨_, _, found, hi, hr2⟩ := hr1
      cases hi
      rw [hr2.found] at hf
      cases hf
      exact ⟨rfl, hr2.worker⟩
  | _ => exact ⟨fun _ => False.elim, fun _ => trivial⟩

theorem step_law_iff (h : Kept d.memory) (before : List (Input κ μ)) :
    (∀ i fd res, (fd, res)∈sentFor other i (run other before d) input →
      (res.retCode=0 ↔ Reported other d i 0 before input) ∧
      ∀ retCode, retCode≠0 → Reported other d i retCode before input → res.retCode=retCode) ↔
    PassesOn (run other before d) input := by
  have hk : Kept (run other before d).memory := run_kept h before
  rw [passesOn_iff]
  refine ⟨fun hl i session hf he => ?_, fun hp i fd res hs => ?_⟩
  · obtain ⟨fileName, hs⟩ := sent_of_ends hk hf he
    have hr := (hl i _ _ hs).1.mp rfl
    exact reported_of_sent h hr (ne_nil_of_mem hs)
  · obtain ⟨session, hf, he, hz⟩ := ends_of_sent hk hs
    have hr1 := hp i session hf he
    refine ⟨⟨fun _ => .inl hr1, fun _ => hz⟩, fun retCode hc hr => ?_⟩
    obtain ⟨_, ho⟩ := (reported_of_sent h hr (ne_nil_of_mem hs)).signal
    obtain ⟨_, hs1⟩ := hr1.signal
    rw [hs1] at ho
    cases ho
    exact absurd rfl hc

end Proofs

/-- Clients are told what was reported exactly in the runs in which every input passes it on. -/
theorem result_law_iff (now : ℕ) (grants : ℕ → Bool) (delaySequence : ℕ) (rest : μ) (inputs : List (Input κ μ)) :
    ResultLaw other (fresh now grants delaySequence rest) inputs ↔
      EventRuns.Every (step other) PassesOn inputs (fresh now grants delaySequence rest) := by
  rw [EventRuns.every_iff]
  have hk := fresh_kept (κ := κ) now grants delaySequence rest
  refine forall_congr' fun before => forall_congr' fun input => forall_congr' fun after => ?_
  exact imp_congr_right fun _ => step_law_iff hk before

theorem not_resultLaw_of_ends {other : κ → μ → Work (Task κ) μ} {d : Daemon κ μ} (h : Kept d.memory)
    {before : List (Input κ μ)} {input : Input κ μ} {i : ℤ} {session : CoredumpSession}
    (hf : (run other before d).memory.sessions i=some session)
    (he : (input.signal i (run other before d)).Ends session)
    (hs : ∀ path, input.signal i (run other before d)≠.report 0 path) : ¬ResultLaw other d (before++[input]) := by
  intro hl
  have hp := (step_law_iff h before).mp (hl before input [] rfl)
  obtain ⟨path, hr⟩ := (passesOn_iff.mp hp i session hf he).signal
  exact hs path hr

def Daemon.idle : Daemon Empty Unit :=
  Daemon.fresh 1000000 (fun _ => true) 0 ()

def clientRequest (coredumpAction : ℤ) : Input Empty Unit :=
  .request ⟨some 7, false, 1000⟩ ⟨serverSocketName, 3, some ⟨100, 0⟩⟩ ⟨42, 31000, coredumpAction⟩

def workerCallback (coredumpStatus retCode : ℤ) : Input Empty Unit :=
  .callback ⟨serverCrashSocketName, 4, some ⟨50, 0⟩⟩
    ⟨42, 50, coredumpStatus, Vector.replicate fileNameSize 0, retCode⟩

def startedDump : List (Input Empty Unit) :=
  [clientRequest doCoreDump, workerCallback coreDumpStart 0]

def failedDump : List (Input Empty Unit) :=
  startedDump++[workerCallback 2 5]

def canceledDump : List (Input Empty Unit) :=
  startedDump++[clientRequest cancelCoreDump]

theorem startedDump_session : ∃ session, (run nofun startedDump idle).memory.sessions 42=some session ∧
      session.status=.running ∧ session.filePath=[] := ⟨_, rfl, rfl, rfl⟩

/-- The client of a dump that failed, and of one that was canceled while it ran, is told 0. -/
theorem failed_dump_told_as_success : (∀ inputs∈[failedDump, canceledDump],
      resultsFor 42 (run nofun inputs idle).memory.outbox=[(7, ⟨[], 0⟩)]) ∧
    ¬ResultLaw nofun idle failedDump ∧ ¬ResultLaw nofun idle canceledDump := by
  obtain ⟨session, hf, hr, hp⟩ := startedDump_session
  have hf2 : session.filePath.length<fileNameSize := by
    rw [hp]
    decide
  have hk : Kept idle.memory := fresh_kept _ _ _ _
  have hf1 : (workerCallback 2 5).signal 42 (run nofun startedDump idle)=.report 5 [] := by
    decide
  have hc : (clientRequest cancelCoreDump).signal 42 (run nofun startedDump idle) = .cancel := by
    decide
  refine ⟨by decide, not_resultLaw_of_ends hk hf ?_ ?_, not_resultLaw_of_ends hk hf ?_ ?_⟩
  · exact ⟨hr, by decide⟩
  · nofun
  · exact ⟨hr, hf2⟩
  · nofun

end Faultloggerd.Coredump
