import Faultloggerd.Coredump.SessionLife
import Mathlib.Data.List.Induction

/-! # One result for every session

A client whose request for a coredump was answered with success waits for one result on its connection.
A session that its worker or a cancel ends is removed when its result is sent. A session that its timer
ends is only removed.
-/
namespace Faultloggerd.Coredump
open Foundations EventLoop List EventRuns Option

variable {κ μ : Type} (other : κ → μ → Work (Task κ) μ)

/-- The request for a dump is answered with success. -/
def Creates (i clientFd : ℤ) (d : Daemon κ μ) (input : Input κ μ) : Prop :=
  ∃ system connection requestData, input = .request system connection requestData ∧
    d.draining = false ∧ requestData.pid = i ∧ requestData.coredumpAction = doCoreDump ∧
    system.dup = some clientFd ∧
    ((onRequest system connection requestData d.memory : Work (Task κ) _).exec d.queue).1.1 = .requestSuccess

/-- The session that `input` creates leaves the map with the last of the inputs in `life`, or with `input`
itself. -/
structure Leaves (i : ℤ) (d : Daemon κ μ) (input : Input κ μ) (life : List (Input κ μ)) : Prop where
  alive : ∀ mid, mid <+: life → mid ≠ life → (run other (input::mid) d).memory.sessions i ≠ none
  gone : (run other (input::life) d).memory.sessions i = none

/-- A request that is answered with success starts a session, and when it has left the map exactly one
result has been sent for it, on its client's descriptor. -/
def AccountingLaw (d : Daemon κ μ) (inputs : List (Input κ μ)) : Prop :=
  ∀ before input after, inputs = before++input::after →
    ∀ i clientFd, Creates i clientFd (run other before d) input →
      ((run other before d).memory.sessions i=none ∧
        ∀ session, (run other [input] (run other before d)).memory.sessions i=some session →
          session.status = .pending ∧ session.clientFd=clientFd) ∧
      ∀ life, life <+: after → Leaves other i (run other before d) input life →
        ∃ result, resultsFor i (run other (input::life) (run other before d)).memory.outbox =
          resultsFor i (run other before d).memory.outbox++[(clientFd, result)]

/-- The queue takes the task that removes the session: it is due a second or more ahead, and there is a
timer for it. -/
def CanSchedule (q : Queue (Task κ)) (system : System) (requestData : CoreDumpRequestData) : Prop :=
  let delaySec := cancelDelay requestData.endTime system.curTime maxCoredumpDelayTime
  ¬q.Refuses delaySec ∧ calculateDelayTaskId q.delaySequence ((q.now+delaySec.toNat*1000*1000) % 2^64) ≠ 0

/-- No session is removed by its timer, be it at once. -/
def Untimed (d : Daemon κ μ) : Input κ μ → Prop
  | .request system connection requestData => ∀ clientFd,
      Accepted d system connection requestData clientFd → CanSchedule d.queue system requestData
  | .turn => ∀ i, (dueTask d).map Entry.work = some (.removeSession i) → d.memory.sessions i = none
  | _ => True

section Proofs

variable {other} {d : Daemon κ μ} {i clientFd : ℤ} {input : Input κ μ} {session : CoredumpSession}

variable {req : CoreDumpRequestData}

theorem timerFor_ne_zero_iff {system : System} : timerFor d system req≠0 ↔ CanSchedule d.queue system req := by
  classical
  unfold timerFor
  rw [Queue.addDelayTask_fst]
  split
  · rename_i hr
    exact ⟨fun hid => absurd rfl hid, fun hc => absurd hr hc.1⟩
  · rename_i ht
    exact ⟨fun hid => ⟨ht, hid⟩, fun hc => hc.2⟩

theorem creates_iff : Creates i clientFd d input ↔ ∃ system conn req, input=.request system conn req ∧
      req.pid=i ∧ Accepted d system conn req clientFd := by
  constructor
  · intro ⟨system, conn, req, hi, hi1, hp, ha2, hd, ha1⟩
    refine ⟨system, conn, req, hi, hp, ?_⟩
    unfold onRequest at ha1
    by_cases hv : validateRequest system conn req≠.requestSuccess
    · rw [if_pos hv] at ha1
      exact absurd ha1 hv
    · rw [if_neg hv, if_pos ha2] at ha1
      refine ⟨hi1, not_not.mp hv, ha2, ?_, hd⟩
      cases hf : d.memory.sessions req.pid with
      | none => rfl
      | some session =>
        simp only [handleCreateEvent, hf] at ha1
        cases ha1
  · intro ⟨system, conn, req, hi, hp, ha⟩
    refine ⟨system, conn, req, hi, ha.idle, hp, ha.action, ha.dup, ?_⟩
    simp only [onRequest, ha.valid, ha.action, ne_eq, not_true_eq_false, if_false, if_true,
      Work.exec_bind, handleCreateEvent, ha.absent, ha.dup]
    rfl

theorem step_alive (h : Kept d.memory) (hf : d.memory.sessions i=some session)
    (ha1 : (step other input d).memory.sessions i≠none) :
    ∃ session', (step other input d).memory.sessions i=some session' ∧ session'.clientFd=session.clientFd ∧
      resultsFor i (step other input d).memory.outbox=resultsFor i d.memory.outbox := by
  obtain ⟨session', hs⟩ := ne_none_iff_exists'.mp ha1
  have ha := hs
  rw [step_session h.keyed, hf] at ha
  refine ⟨session', hs, ?_, ?_⟩
  · obtain hc | ⟨_, hs2, -, hfd, -⟩ := act_session ha
    · exact absurd hc (signal_ne_create hf session')
    · cases hs2
      exact hfd
  · have hs1 : ¬(input.signal i d).Ends session := by
      intro he
      obtain ⟨_, he⟩ := act_of_ends (h.errorCode i session hf) he
      rw [he] at ha
      cases ha
    rw [step_results h.keyed, hf, act_results_of_not_ends hs1, append_nil]

variable {inputs life : List (Input κ μ)}

theorem run_alive (h : Kept d.memory) (hf : d.memory.sessions i=some session)
    (ha : ∀ mid, mid <+: inputs → (run other mid d).memory.sessions i≠none) :
    ∃ session', (run other inputs d).memory.sessions i=some session' ∧ session'.clientFd=session.clientFd ∧
      resultsFor i (run other inputs d).memory.outbox=resultsFor i d.memory.outbox := by
  induction inputs generalizing d session with
  | nil => exact ⟨session, hf, rfl, rfl⟩
  | cons input inputs ih =>
    obtain ⟨next, hn, hfd, hr⟩ := step_alive h hf (ha [input] (prefix_append [input] inputs))
    obtain ⟨last, hl, hfd', hr'⟩ := ih (step_kept h input) hn fun mid hm =>
      ha (input::mid) (prefix_cons_iff.mpr (.inr ⟨mid, rfl, hm⟩))
    exact ⟨last, hl, hfd'.trans hfd, hr'.trans hr⟩

theorem step_gone (h : Kept d.memory) (hf : d.memory.sessions i=some session)
    (hg : (step other input d).memory.sessions i=none) : (∃ res, resultsFor i (step other input d).memory.outbox =
        resultsFor i d.memory.outbox++[(session.clientFd, res)]) ∨ input.signal i d=.expire := by
  by_cases he : (input.signal i d).Ends session
  · obtain ⟨fileName, ha1⟩ := act_of_ends (h.errorCode i session hf) he
    refine .inl ⟨⟨fileName, 0⟩, ?_⟩
    rw [step_results h.keyed, hf, ha1]
  · refine .inr (by_contra fun he1 => ?_)
    have hc : input.signal i d≠.createExpired := by
      intro hc
      obtain ⟨_, _, _, _, -, rfl, ha⟩ := signal_created (.inl hc)
      rw [ha.absent] at hf
      cases hf
    obtain ⟨_, ha1⟩ := act_of_not_ends he he1 hc
    rw [step_session h.keyed, hf, ha1] at hg
    cases hg

variable (other) in
theorem step_accepted {system : System} {conn : Connection} (h : Kept d.memory)
    (ha : Accepted d system conn req clientFd) :
    let after := step other (.request system conn req) d
    resultsFor req.pid after.memory.outbox=resultsFor req.pid d.memory.outbox ∧
      after.memory.sessions req.pid=if timerFor d system req=0 then none else some {
        sessionId := req.pid
        clientFd := clientFd
        endTime := req.endTime
        delayTaskId := timerFor d system req} := by
  intro after
  rw [step_results h.keyed, step_session h.keyed, ha.signal]
  split <;> exact ⟨append_nil _, rfl⟩

theorem origin (h : Kept d.memory) (ha2 : d.memory.sessions i=none)
    (hf : (run other inputs d).memory.sessions i=some session) :
    ∃ before input life, inputs=before++input::life ∧ Creates i session.clientFd (run other before d) input ∧
      ∀ mid, mid <+: life → (run other (input::mid) (run other before d)).memory.sessions i≠none := by
  induction inputs using reverseRecOn generalizing session with
  | nil => exact nomatch ha2.symm.trans hf
  | append_singleton inputs last ih =>
    have hk : Kept (run other inputs d).memory := run_kept h inputs
    have ha1 := hf
    rw [run_append] at ha1
    change (step other last (run other inputs d)).memory.sessions i=some session at ha1
    have ht : (step other last (run other inputs d)).memory.sessions i≠none := by
      rw [ha1]
      nofun
    rw [step_session hk.keyed] at ha1
    obtain hc | ⟨old, ho, -, hfd, -⟩ := act_session ha1
    · obtain ⟨_, _, _, clientFd, rfl, rfl, ha⟩ := signal_created (.inr ⟨_, hc⟩)
      have hs := ha.signal
      have hfd : session.clientFd=clientFd := by grind
      refine ⟨inputs, _, [], rfl, hfd ▸ creates_iff.mpr ⟨_, _, _, rfl, rfl, ha⟩, ?_⟩
      intro mid hm
      rw [prefix_nil.mp hm]
      exact ht
    · obtain ⟨before, input, life, rfl, hc1, ha3⟩ := ih ho
      refine ⟨before, input, life++[last], by simp, hfd ▸ hc1, fun mid hm => ?_⟩
      obtain rfl | hm := prefix_concat_iff.mp hm
      · rw [←cons_append, run_append, ←run_append other before]
        exact ht
      · exact ha3 mid hm

theorem signal_expire (h : input.signal i d=.expire) :
    input=.turn ∧ (dueTask d).map Entry.work=some (.removeSession i) := by
  have hf := signal_from i d input
  rw [h] at hf
  cases hf with
  | created _ _ creates => simp at creates
  | expired due => exact ⟨rfl, due⟩

theorem step_expire (h : Kept d.memory) (hd : (dueTask d).map Entry.work=some (.removeSession i)) :
    (step other .turn d).memory.sessions i=none ∧
      resultsFor i (step other .turn d).memory.outbox=resultsFor i d.memory.outbox := by
  have hs : (Input.turn : Input κ μ).signal i d=.expire := by
    simp [Input.signal, hd]
  rw [step_session h.keyed, step_results h.keyed, hs]
  exact ⟨rfl, append_nil _⟩

theorem expired_without_result (h : Kept d.memory) (hc : Creates i clientFd d input)
    (ha : ∀ mid, mid <+: life → (run other (input::mid) d).memory.sessions i≠none)
    (hd : (dueTask (run other (input::life) d)).map Entry.work=some (.removeSession i)) :
    Leaves other i d input (life++[.turn]) ∧ resultsFor i (run other (input::(life++[.turn])) d).memory.outbox =
        resultsFor i d.memory.outbox := by
  have he1 : run other (input::(life++[.turn])) d = step other .turn (run other (input::life) d) := by
    rw [←cons_append, run_append]
    rfl
  have hk : Kept (run other (input::life) d).memory := run_kept h (input::life)
  have he : _ ∧ resultsFor i (step other .turn (run other (input::life) d)).memory.outbox=_ := step_expire hk hd
  rw [he1]
  refine ⟨⟨fun mid hm hne => ?_, he1 ▸ he.1⟩, he.2.trans ?_⟩
  · obtain rfl | hm := prefix_concat_iff.mp hm
    · exact absurd rfl hne
    · exact ha mid hm
  · obtain ⟨system, conn, req, rfl, rfl, ha1⟩ := creates_iff.mp hc
    obtain ⟨session, hf⟩ := ne_none_iff_exists'.mp (ha [] nil_prefix)
    have hn : Kept (step other (.request system conn req) d).memory := step_kept h _
    obtain ⟨_, -, -, hr⟩ := run_alive hn hf ha
    exact hr.trans (step_accepted other h ha1).1

theorem one_result (h : Kept d.memory) (hc : Creates i clientFd d input)
    (hu : EventRuns.Every (step other) Untimed (input::life) d) (hl : Leaves other i d input life) :
    ∃ res, resultsFor i (run other (input::life) d).memory.outbox =
      resultsFor i d.memory.outbox++[(clientFd, res)] := by
  obtain ⟨system, conn, req, rfl, rfl, ha⟩ := creates_iff.mp hc
  have ht1 := timerFor_ne_zero_iff.mpr (hu.1 clientFd ha)
  obtain ⟨hs, hf⟩ := step_accepted other h ha
  rw [if_neg ht1] at hf
  have hn : Kept (step other (.request system conn req) d).memory := step_kept h _
  obtain rfl | ⟨mids, last, rfl⟩ := life.eq_nil_or_concat'
  · exact nomatch hl.gone.symm.trans hf
  · have ha1 : ∀ mid, mid <+: mids → (run other mid
        (step other (.request system conn req) d)).memory.sessions req.pid≠none := by
      intro mid hm
      apply hl.alive mid (hm.trans (prefix_append mids [last]))
      have hl2 := hm.length_le
      grind
    obtain ⟨session, ht, hfd, hr⟩ := run_alive hn hf ha1
    have he1 : run other (.request system conn req::(mids++[last])) d =
        step other last (run other mids (step other (.request system conn req) d)) := by
      rw [←cons_append, run_append]
      rfl
    have hg := hl.gone
    rw [he1] at hg ⊢
    obtain ⟨res, ho⟩ | he := step_gone (run_kept hn mids) ht hg
    · rw [ho, hr, hs, hfd]
      exact ⟨res, rfl⟩
    · obtain ⟨rfl, hd⟩ := signal_expire he
      have hl1 := ((every_append mids [.turn]).mp hu.2).2.1 req.pid hd
      exact nomatch hl1.symm.trans ht

end Proofs

/-- The accounts are right exactly in the runs in which no session is removed by its timer. -/
theorem accounting_law_iff (now : ℕ) (grants : ℕ → Bool) (delaySequence : ℕ) (rest : μ) (inputs : List (Input κ μ)) :
    AccountingLaw other (Daemon.fresh now grants delaySequence rest) inputs ↔
      EventRuns.Every (step other) Untimed inputs (Daemon.fresh now grants delaySequence rest) := by
  have hk := fresh_kept (κ := κ) now grants delaySequence rest
  have ha1 : ∀ i, (Daemon.fresh now grants delaySequence rest : Daemon κ μ).memory.sessions i=none := fun _ => rfl
  generalize (Daemon.fresh now grants delaySequence rest : Daemon κ μ)=d at hk ha1 ⊢
  refine ⟨fun hl2 => every_iff.mpr fun before input after hs => ?_, fun hu before input after hs i clientFd hc => ?_⟩
  · have hb : Kept (run other before d).memory := run_kept hk before
    cases input with
    | request system connection requestData =>
      intro clientFd ha
      rw [←timerFor_ne_zero_iff]
      intro hz
      have hc := creates_iff.mpr ⟨system, connection, requestData, rfl, rfl, ha⟩
      obtain ⟨hs2, hg⟩ := step_accepted other hb ha
      rw [if_pos hz] at hg
      obtain ⟨result, ho⟩ := (hl2 before _ after hs _ clientFd hc).2 [] nil_prefix
        ⟨fun mid hm hne => absurd (prefix_nil.mp hm) hne, hg⟩
      have hl1 := congrArg length (ho.symm.trans hs2)
      simp at hl1
    | turn =>
      intro i hd
      by_contra hs1
      obtain ⟨session, hf⟩ := ne_none_iff_exists'.mp hs1
      obtain ⟨early, input, life, rfl, hc, ha2⟩ := origin hk (ha1 i) hf
      have he : Kept (run other early d).memory := run_kept hk early
      rw [EventRuns.run_append] at hd
      obtain ⟨hl, hs2⟩ := expired_without_result he hc ha2 hd
      have hs' : inputs=early++input::(life++[.turn]++after) := by
        rw [hs]
        simp
      obtain ⟨result, ho⟩ := (hl2 early input _ hs' i _ hc).2 _
        (prefix_append _ after) hl
      have hl1 := congrArg length (ho.symm.trans hs2)
      simp at hl1
    | _ => trivial
  · have hb : Kept (run other before d).memory := run_kept hk before
    have hr : EventRuns.Every (step other) Untimed (input::after) (run other before d) :=
      ((every_append before (input::after)).mp (hs ▸ hu)).2
    refine ⟨?_, fun life hl3 hl => ?_⟩
    · obtain ⟨system, connection, requestData, rfl, rfl, ha⟩ := creates_iff.mp hc
      refine ⟨ha.absent, fun session hs1 => ?_⟩
      have hn := (step_accepted other hb ha).2
      split at hn
      · exact nomatch hn.symm.trans hs1
      · cases hn.symm.trans hs1
        exact ⟨rfl, rfl⟩
    · obtain ⟨rest, rfl⟩ := hl3
      exact one_result hb hc
        ((every_append (input::life) rest).mp hr).1 hl

theorem not_accountingLaw {other : κ → μ → Work (Task κ) μ} {d : Daemon κ μ} {input : Input κ μ}
    {life : List (Input κ μ)} {i clientFd : ℤ} (hc : Creates i clientFd d input) (hl : Leaves other i d input life)
    (hs : resultsFor i (run other (input::life) d).memory.outbox=resultsFor i d.memory.outbox) :
    ¬AccountingLaw other d (input::life) := by
  intro hl2
  obtain ⟨res, ho⟩ := (hl2 [] input life rfl i clientFd hc).2 life prefix_rfl hl
  have hl1 := congrArg length (ho.symm.trans hs)
  simp at hl1

def askAt (endTime : ℕ) : Input Empty Unit :=
  .request ⟨some 7, false, 1000⟩ ⟨serverSocketName, 3, some ⟨100, 0⟩⟩ ⟨42, endTime, doCoreDump⟩

def silentWorker : List (Input Empty Unit) :=
  [.wait 30000000 0, .timer, .turn]

/-- The timer removes a session whose worker is silent, and one whose time is over at once. -/
theorem session_without_result :
    let start : Daemon Empty Unit := Daemon.fresh 1000000 (fun _ => true) 0 ()
    (∀ inputs∈[askAt 31000::silentWorker, [askAt 1900]],
      .response 3 .requestSuccess∈(run nofun inputs start).memory.outbox ∧
      (run nofun inputs start).memory.sessions 42=none ∧ resultsFor 42 (run nofun inputs start).memory.outbox=[]) ∧
    ¬AccountingLaw nofun start (askAt 31000::silentWorker) ∧ ¬AccountingLaw nofun start [askAt 1900] := by
  intro start
  have hc : ∀ endTime, Creates 42 7 start (askAt endTime) := fun endTime =>
    creates_iff.mpr ⟨_, _, _, rfl, rfl, ⟨rfl, by simp only [validateRequest]; decide, rfl, rfl, rfl⟩⟩
  refine ⟨by decide, not_accountingLaw (hc 31000) ⟨?_, by decide⟩ (by decide),
    not_accountingLaw (hc 1900) ⟨?_, by decide⟩ (by decide)⟩
  · intro mid hm hne
    simp only [silentWorker, prefix_cons_iff, prefix_nil] at hm
    obtain rfl | ⟨_, rfl, rfl | ⟨_, rfl, rfl | ⟨_, rfl, rfl⟩⟩⟩ := hm
    · decide
    · decide
    · decide
    · exact absurd rfl hne
  · intro mid hm hne
    exact absurd (prefix_nil.mp hm) hne

end Faultloggerd.Coredump
