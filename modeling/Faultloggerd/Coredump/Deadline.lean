import Faultloggerd.Coredump.SessionLife
import Faultloggerd.EventLoop.RunningEntry
import Mathlib.Data.List.TakeWhile

/-! # How long a session may stay

`ScheduleCancelTime` computes the time that is left in 64 bits, narrows it to `int32_t` seconds and gives the smaller of
it and the limit to the queue, which takes it as unsigned. Where the seconds come through, the task that is queued ends
the session at the first pass of `OnTimer` after 30 seconds at the latest.
-/
namespace Faultloggerd.Coredump
open EventLoop List Foundations.EventRuns

variable {κ μ : Type}

def secondsLeft (endTime curTime : ℕ) : ℕ := (endTime - curTime) / 1000

/-- The longest time in microseconds that a session stays. -/
def sessionLimit : ℕ := 30 * 1000 * 1000

/-- The session is gone, or the queue has taken one task for it, which removes it when the time that is left, but at
most 30 seconds, is over. The time is the one that `OnTimer` reads from the task's id. -/
def DeadlineLaw (req : CreateCoredumpRequest) (curTime : ℕ) (m : Services μ) (q : Queue (Task κ)) : Prop :=
  let after := (createCoredump req curTime m).exec q
  let delaySec := min (secondsLeft req.endTime curTime) 30
  after.1.sessions req.targetPid = none ∨ 0 < delaySec ∧ ∃ session entry,
    after.1.sessions req.targetPid = some session ∧ after.2.delayTasks ~ entry :: q.delayTasks ∧
    entry.id = session.delayTaskId ∧ entry.work = .removeSession req.targetPid ∧
    entry.executeTime = q.now + delaySec * 1000 * 1000

section Life

variable (other : κ → μ → Work (Task κ) μ)

/-- Apart from the removal task itself, only a step that ends the session asks to remove the id of its task. -/
def Undisturbed (pid : ℤ) (taskId : ℕ) (d : Daemon κ μ) (input : Input κ μ) : Prop :=
  (step other input d).memory.sessions pid ≠ none →
    (input = .turn → (dueTask d).map Entry.work ≠ some (.removeSession pid)) →
    d.Asks (Task.body other) (fun _ op => op ≠ .remove taskId) input.event

/-- When a pass of `OnTimer` ends at the limit or later, the session that is there now has been gone. -/
def LifetimeLaw (pid : ℤ) (limit : ℕ) (d : Daemon κ μ) : Prop :=
  ∀ session, d.memory.sessions pid = some session →
    ∀ life, Every (step other) (Undisturbed other pid session.delayTaskId) life d →
      (run other life d).draining = true → (step other .turn (run other life d)).draining = false →
      limit ≤ (run other life d).queue.now → ∃ part, part <+: life ∧ (run other part d).memory.sessions pid = none

end Life

/-- The seconds that are left come through the narrowing: as they are, as none, or as no less than the limit. -/
def DelayFits (endTime curTime : ℕ) : Prop :=
  let narrowed := secondsLeft endTime curTime % 2^32
  secondsLeft endTime curTime < 2^31 ∨ narrowed = 0 ∨ 30 ≤ narrowed ∧ narrowed < 2^31

theorem toNat_cancelDelay (fin time : ℕ) : (cancelDelay fin time maxCoredumpDelayTime).toNat =
    if secondsLeft fin time % 2^32 < 2^31 then min (secondsLeft fin time % 2^32) 30
    else secondsLeft fin time % 2^32 := by
  have hl : cancelDelay fin time maxCoredumpDelayTime =
      BitVec.ofInt 32 (min (BitVec.ofNat 32 (secondsLeft fin time)).toInt 30) := by
    by_cases h : time < fin
    · simp only [cancelDelay, if_pos h]
      rfl
    · have hz : secondsLeft fin time = 0 := by
        unfold secondsLeft
        omega
      simp only [cancelDelay, if_neg h, hz]
      rfl
  rw [hl, BitVec.toNat_ofInt, BitVec.toInt_eq_toNat_cond, BitVec.toNat_ofNat]
  split <;> split <;> omega

theorem delayFits_iff (fin time : ℕ) : DelayFits fin time ↔
    (cancelDelay fin time maxCoredumpDelayTime).toNat = min (secondsLeft fin time) 30 ∨
      (cancelDelay fin time maxCoredumpDelayTime).toNat = 0 := by
  have hd := toNat_cancelDelay fin time
  unfold DelayFits
  split at hd <;> omega

theorem delay_le_limit {fin time : ℕ} (h : DelayFits fin time) (now : ℕ) :
    now + (cancelDelay fin time maxCoredumpDelayTime).toNat * 1000 * 1000 ≤ now + sessionLimit := by
  have hd := (delayFits_iff _ _).mp h
  unfold sessionLimit
  omega

theorem newEntry_executeTime_of_lt {q : Queue (Task κ)} (work : Task κ) {delay : BitVec 32}
    (h : q.now + delay.toNat * 1000 * 1000 < 2^timestampBits) :
    (q.newEntry work delay).executeTime = q.now + delay.toNat * 1000 * 1000 := by
  rw [Queue.newEntry_executeTime, Nat.mod_eq_of_lt (h.trans (by decide)), Nat.mod_eq_of_lt h]

theorem fresh_clock : (Queue.fresh 1 (fun _ => true) 0 : Queue (Task κ)).now + sessionLimit < 2^timestampBits := by
  change 1 + sessionLimit < 2^timestampBits
  decide

section Creation

variable {req : CreateCoredumpRequest} (time : ℕ) {m : Services μ} (habsent : m.sessions req.targetPid = none)
include habsent

/-- `CreateCoredump` either leaves no session, or the session has the id of the task that it has added. -/
theorem createCoredump_schedules (q : Queue (Task κ)) :
    let delay := cancelDelay req.endTime time maxCoredumpDelayTime
    let new := q.newEntry (.removeSession req.targetPid) delay
    let after := (createCoredump req time m).exec q
    ((q.addDelayTask (.removeSession req.targetPid) delay).1 = 0 ∧ after.1.sessions req.targetPid = none) ∨
      (delay ≠ 0#32 ∧ ∃ session, after.1.sessions req.targetPid = some session ∧ session.delayTaskId = new.id ∧
        after.2.delayTasks = q.delayTasks.orderedInsert
          (fun _ other => (q.now + delay.toNat * 1000 * 1000) % 2^64 < other.executeTime) new) := by
  intro delay new after
  have hs : after.1.sessions req.targetPid = _ := (moves_createCoredump habsent rfl).sessions
  by_cases hid : (q.addDelayTask (.removeSession req.targetPid) delay).1 = 0
  · exact .inl ⟨hid, hs.trans (if_pos hid)⟩
  · have hq : after.2 = (q.addDelayTask (.removeSession req.targetPid) delay).2 := by
      simp only [after, createCoredump, scheduleCancelTime, createSession, habsent, Services.send, Services.put,
        if_true, Work.exec]
      rw [if_neg hid]
      rfl
    obtain ⟨-, hz, -⟩ | ⟨hr, hi⟩ := q.addDelayTask_cases (.removeSession req.targetPid) delay
    · exact absurd hz hid
    · obtain ⟨grants, executor, hp⟩ := q.withExecutor_eq delay
      refine .inr ⟨fun hz => hr (.inl hz), _, hs.trans (if_neg hid), ?_, ?_⟩
      · change (q.addDelayTask (.removeSession req.targetPid) delay).1 = _
        rw [hi, hp]
        rfl
      · rw [hq, hi, hp]
        rfl

theorem delayFits_of_deadlineLaw (h : DeadlineLaw req time m (Queue.fresh 1 (fun _ => true) 0 : Queue (Task κ))) :
    DelayFits req.endTime time := by
  rw [delayFits_iff]
  have hlt := (cancelDelay req.endTime time maxCoredumpDelayTime).isLt
  obtain ⟨hz, -⟩ | ⟨-, session, hs, hk, hp⟩ :=
    createCoredump_schedules time habsent (Queue.fresh 1 (fun _ => true) 0 : Queue (Task κ))
  · refine .inr (by_contra fun hp => ?_)
    have hd : cancelDelay req.endTime time maxCoredumpDelayTime ≠ 0#32 := fun hz => hp (congrArg BitVec.toNat hz)
    classical
    rw [Queue.addDelayTask_fst, if_neg (by simpa [Queue.Refuses, Queue.fresh] using hd)] at hz
    simp only [Queue.fresh, calculateDelayTaskId, Nat.zero_shiftLeft, Nat.zero_mod, Nat.zero_or] at hz
    omega
  · obtain hg | ⟨-, session', entry, -, ho, -, -, he⟩ := h
    · cases hg.symm.trans hs
    · -- the queue has one task more, so the task of the law is the one that was added
      rw [hp] at ho
      rw [← singleton_perm_singleton.mp ho, newEntry_executeTime_of_lt _
        (by simp only [Queue.fresh, timestampBits]; omega)] at he
      left
      omega

/-- The deadline holds on a queue whose clock fits. -/
theorem deadlineLaw_of_delayFits (hf : DelayFits req.endTime time) {q : Queue (Task κ)}
    (hq : q.now + sessionLimit < 2^timestampBits) : DeadlineLaw req time m q := by
  obtain ⟨-, hg⟩ | ⟨hd, session, hs, hk, hp⟩ := createCoredump_schedules time habsent q
  · exact .inl hg
  · have hz : (cancelDelay req.endTime time maxCoredumpDelayTime).toNat ≠ 0 := fun hz => hd (BitVec.eq_of_toNat_eq hz)
    have hfit := ((delayFits_iff _ _).mp hf).resolve_right hz
    refine .inr ⟨by omega, session, _, hs, hp ▸ perm_orderedInsert _ _ _, hk.symm, rfl, ?_⟩
    rw [newEntry_executeTime_of_lt _ ((delay_le_limit hf _).trans_lt hq), hfit]

end Creation

section Runs

variable {other : κ → μ → Work (Task κ) μ} {pid : ℤ} {d : Daemon κ μ} {e : Entry (Task κ)} {input : Input κ μ}

/-- The entry is queued, and no entry that is due later stands before it. -/
abbrev Waiting (e : Entry (Task κ)) (q : Queue (Task κ)) : Prop := Stands (fun b => b.executeTime ≤ e.executeTime) e q

theorem waiting_orderedInsert {tasks : List (Entry (Task κ))} {q : Queue (Task κ)}
    (h : q.delayTasks = tasks.orderedInsert (fun _ other => e.executeTime < other.executeTime) e) : Waiting e q := by
  rw [orderedInsert_eq_take_drop] at h
  exact ⟨_, _, h, fun b hb => by simpa using mem_takeWhile_imp hb⟩

theorem turn_removes (h : (dueTask d).map Entry.work = some (.removeSession pid)) :
    (step other .turn d).memory.sessions pid = none := by
  have hd : d.draining = true := by
    by_contra hd
    simp [dueTask, hd] at h
  have hv : ((d.turn (Task.body other)).memory.view pid).1 = _ := congrArg Prod.fst (view_turn hd)
  simpa [step, Input.event, Loop.step, hd, Input.signal, h, Life.after, Signal.act, Services.view] using hv

theorem waiting_step (h : Waiting e d.queue) (hu : Undisturbed other pid e.id d input)
    (hp : (step other input d).memory.sessions pid ≠ none) : Waiting e (step other input d).queue := by
  refine Loop.step_tasks_invariant (fun q q' ht hs => by rwa [Waiting, Stands, ht]) (fun q op hs hop => hs.op ?_ hop) h
    (hu hp ?_)
  · rintro b c (rfl | hb) hc
    · exact hc.le
    · exact hc.le.trans hb
  · rintro rfl hdue
    exact hp (turn_removes hdue)

theorem waiting_run {life : List (Input κ μ)} (h : Waiting e d.queue)
    (hu : Every (step other) (Undisturbed other pid e.id) life d) :
    (∃ part, part <+: life ∧ (run other part d).memory.sessions pid = none) ∨ Waiting e (run other life d).queue := by
  induction life generalizing d with
  | nil => exact .inr h
  | cons input life ih =>
    by_cases hp : (step other input d).memory.sessions pid = none
    · exact .inl ⟨[input], by simp, hp⟩
    · obtain ⟨part, hpart, hg⟩ | hw := ih (waiting_step h hu.1 hp) hu.2
      · exact .inl ⟨input :: part, by simpa using hpart, hg⟩
      · exact .inr hw

/-- When a pass of `OnTimer` ends, what is still queued is due later. -/
theorem later_of_pass_ended (h : Waiting e d.queue) (hd : d.draining = true)
    (he : (step other .turn d).draining = false) : d.queue.now < e.executeTime := by
  obtain ⟨before, after, ht, hb⟩ := h
  have hfirst : ∃ front rest, d.queue.delayTasks = front :: rest ∧ front.executeTime ≤ e.executeTime := by
    cases before with
    | nil => exact ⟨e, after, ht, le_rfl⟩
    | cons b before => exact ⟨b, _, ht, hb b mem_cons_self⟩
  obtain ⟨front, rest, ht, hle⟩ := hfirst
  simp only [step, Input.event, Loop.step, hd, if_true, Loop.turn, ht] at he
  split at he
  · exact lt_of_lt_of_le ‹_› hle
  · cases hd.symm.trans he

theorem lifetimeLaw_of_delayFits {req : CreateCoredumpRequest} {time : ℕ} (d : Daemon κ μ)
    (habsent : d.memory.sessions req.targetPid = none) (hf : DelayFits req.endTime time)
    (hq : d.queue.now + sessionLimit < 2^timestampBits) :
    LifetimeLaw other req.targetPid (d.queue.now + sessionLimit) (d.perform (createCoredump req time d.memory)) := by
  intro session hs life hu hd he hl
  obtain ⟨-, hg⟩ | ⟨hz, session', hs', hk, ht⟩ := createCoredump_schedules (κ := κ) time habsent d.queue
  · cases hg.symm.trans hs
  cases Option.some.inj (hs'.symm.trans hs)
  have hlt := delay_le_limit hf d.queue.now
  have hx := newEntry_executeTime_of_lt (.removeSession req.targetPid) (hlt.trans_lt hq)
  rw [hk] at hu
  obtain hg | hw := waiting_run (waiting_orderedInsert (by
    rw [Nat.mod_eq_of_lt ((hlt.trans_lt hq).trans (by decide)), ← hx] at ht
    exact ht)) hu
  · exact hg
  · have := later_of_pass_ended hw hd he
    omega

end Runs

/-- After thirty seconds the timer runs the task; the pass ends with the turn after that. -/
def thirtySecondsLater : List (Input Empty Unit) := [.wait 30000000 0, .timer, .turn]

end Faultloggerd.Coredump
