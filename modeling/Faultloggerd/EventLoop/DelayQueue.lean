import Faultloggerd.Foundations.EventRuns
import Mathlib.Data.List.Sort

/-! # The delay task queue of the event loop

`DelayTaskQueue` keeps its tasks in a list ordered by the time they are due and has one timer, the
executor's. The event loop's thread runs `OnTimer` when the timer expires; between events, and inside
the tasks, code of the daemon adds and removes tasks.
-/
namespace Faultloggerd.EventLoop
open Foundations

variable {τ σ α β : Type}

/-- What a task or a handler does as far as the queue sees it. While it works the clock goes on, the device may be
suspended, and the daemon's other thread takes numbers of the shared sequence. -/
inductive Work (τ α : Type) where
  | done (result : α)
  | wait (us taken : ℕ) (rest : Work τ α)
  | suspend (us : ℕ) (rest : Work τ α)
  | addDelayTask (work : τ) (delayTimeInS : BitVec 32) (rest : ℕ → Work τ α)
  | removeDelayTask (delayTaskId : ℕ) (rest : Bool → Work τ α)

namespace Work

def bind : Work τ α → (α → Work τ β) → Work τ β
  | done result, next => next result
  | wait us taken rest, next => wait us taken (rest.bind next)
  | suspend us rest, next => suspend us (rest.bind next)
  | addDelayTask work delay rest, next => addDelayTask work delay fun taskId => (rest taskId).bind next
  | removeDelayTask taskId rest, next => removeDelayTask taskId fun removed => (rest removed).bind next

instance : Monad (Work τ) where
  pure := done
  bind := bind

end Work

/-- An entry of `delayTasks_`. The daemon keeps the id and the work; `due` and `serial` record, for the
proofs, the time asked for and which call made the entry. -/
structure Entry (τ : Type) where
  id : ℕ
  work : τ
  due : ℕ
  serial : ℕ

inductive Happening where
  | ran (serial due now : ℕ)
  | removed (serial : ℕ)
deriving DecidableEq

/-- The timer, made for `CLOCK_MONOTONIC`: `expiry` is a value of that clock, in nanoseconds. `suspended` records, for
the proofs, how long the device had been suspended when the timer was set. -/
structure Executor where
  expiry : Option ℕ
  suspended : ℕ

structure Queue (τ : Type) where
  /-- `GetMicroSecondsSinceBoot`, which reads `CLOCK_BOOTTIME` -/
  now : ℕ
  /-- how long the device has been suspended since it was booted -/
  suspended : ℕ
  /-- whether the system will give the next executors their timer and a place in the epoll set -/
  grants : ℕ → Bool
  delaySequence : ℕ
  executor : Option Executor
  delayTasks : List (Entry τ)
  added : ℕ
  history : List Happening

def timestampBits : ℕ := 60

def calculateDelayTaskId (sequence executeTimeInMicroSecond : ℕ) : ℕ :=
  (sequence <<< timestampBits) % 2^64 ||| executeTimeInMicroSecond

def Entry.executeTime (e : Entry τ) : ℕ :=
  e.id &&& (2^timestampBits-1)

namespace Queue

variable (q : Queue τ)

def fresh (now : ℕ) (grants : ℕ → Bool) (delaySequence : ℕ) : Queue τ :=
  ⟨now, 0, grants, delaySequence, none, [], 0, []⟩

/-- `CLOCK_MONOTONIC` stands still while the device is suspended. -/
def monotonic : ℕ := q.now - q.suspended

def wait (us taken : ℕ) : Queue τ :=
  {q with now := q.now+us, delaySequence := (q.delaySequence+taken) % 2^8}

def suspend (us : ℕ) : Queue τ :=
  {q with now := q.now + us, suspended := q.suspended + us}

/-- `timerfd_settime` with a time from now on the timer's own clock; no time at all disarms the timer. -/
def setTimeOption (delayTimeInNs : ℕ) : Queue τ :=
  {q with executor := q.executor.map fun _ =>
    ⟨if delayTimeInNs = 0 then none else some (q.monotonic * 1000 + delayTimeInNs), q.suspended⟩}

def initExecutor (delayTimeInS : BitVec 32) : Bool × Queue τ :=
  let asked := {q with grants := fun n => q.grants (n+1)}
  if q.grants 0 then
    (true, {asked with executor := some ⟨none, q.suspended⟩}.setTimeOption (delayTimeInS.toNat*1000000000 % 2^64))
  else
    (false, asked)

def withExecutor (delayTimeInS : BitVec 32) : Bool × Queue τ :=
  if q.executor.isNone then q.initExecutor delayTimeInS else (true, q)

def insertsFirst (executeTime : ℕ) : Bool :=
  q.delayTasks.head?.all fun first => decide (executeTime<first.executeTime)

def insertTask (work : τ) (delayTimeInS : BitVec 32) : ℕ × Queue τ :=
  let delayTimeInMicroSeconds := delayTimeInS.toNat*1000*1000
  let executeTime := (q.now+delayTimeInMicroSeconds) % 2^64
  let taskId := calculateDelayTaskId q.delaySequence executeTime
  let armed :=
    if q.insertsFirst executeTime then q.setTimeOption (delayTimeInMicroSeconds*1000 % 2^64) else q
  (taskId, {armed with
    delaySequence := (q.delaySequence+1) % 2^8
    delayTasks := q.delayTasks.orderedInsert (fun _ other => executeTime<other.executeTime)
      ⟨taskId, work, q.now+delayTimeInMicroSeconds, q.added⟩
    added := q.added+1})

def addDelayTask (work : τ) (delayTimeInS : BitVec 32) : ℕ × Queue τ :=
  if delayTimeInS = 0#32 then (0, q)
  else
    let prepared := q.withExecutor delayTimeInS
    if !prepared.1 || prepared.2.now == 0 then (0, prepared.2)
    else prepared.2.insertTask work delayTimeInS

theorem withExecutor_spec (delay : BitVec 32) : ∃ grants executor,
    q.withExecutor delay=(q.executor.isSome || q.grants 0, {q with grants := grants, executor := executor}) ∧
    (q.executor≠none → executor=q.executor) ∧ ((q.executor.isSome || q.grants 0)=true → executor≠none) := by
  unfold withExecutor initExecutor
  cases he : q.executor with
  | some executor =>
    refine ⟨q.grants, q.executor, ?_, fun _ => he, fun _ => he ▸ nofun⟩
    exact Prod.ext rfl rfl
  | none =>
    by_cases hg : q.grants 0
    · refine ⟨fun n => q.grants (n+1), some ⟨if delay.toNat*1000000000 % 2^64=0 then none
        else some (q.monotonic*1000+delay.toNat*1000000000 % 2^64), q.suspended⟩, ?_, fun hne => absurd rfl hne, nofun⟩
      simp only [hg]
      rfl
    · refine ⟨fun n => q.grants (n+1), none, ?_, fun hne => absurd rfl hne, ?_⟩
      · simp [hg]
      · simp [hg]

theorem withExecutor_eq (delay : BitVec 32) : ∃ grants executor, q.withExecutor delay =
    (q.executor.isSome || q.grants 0, {q with grants := grants, executor := executor}) := by
  obtain ⟨grants, executor, heq, -⟩ := q.withExecutor_spec delay
  exact ⟨grants, executor, heq⟩

def Refuses (delayTimeInS : BitVec 32) : Prop :=
  delayTimeInS = 0#32 ∨ (q.executor=none ∧ q.grants 0=false) ∨ q.now = 0

theorem addDelayTask_cases (work : τ) (delay : BitVec 32) :
    (q.Refuses delay ∧ (q.addDelayTask work delay).1=0 ∧ ((q.addDelayTask work delay).2=q ∨
        (q.addDelayTask work delay).2=(q.withExecutor delay).2)) ∨ (¬q.Refuses delay ∧
      q.addDelayTask work delay=(q.withExecutor delay).2.insertTask work delay) := by
  obtain ⟨grants, executor, hp⟩ := q.withExecutor_eq delay
  unfold addDelayTask Refuses
  by_cases hd : delay=0#32
  · rw [if_pos hd]
    exact .inl ⟨.inl hd, rfl, .inl rfl⟩
  · rw [if_neg hd, hp]
    by_cases hr : q.executor=none ∧ q.grants 0=false
    · simp [hr.1, hr.2]
    · have hready' : (q.executor.isSome || q.grants 0)=true := by
        cases he : q.executor with
        | some executor => rfl
        | none =>
          cases hg : q.grants 0 with
          | true => rfl
          | false => exact absurd ⟨he, hg⟩ hr
      by_cases hn : q.now=0
      · simp [hn]
      · refine .inr ⟨?_, ?_⟩
        · simp [hd, hr, hn]
        · simp [hready', hn]

theorem addDelayTask_fst (work : τ) (delay : BitVec 32) [Decidable (q.Refuses delay)] :
    (q.addDelayTask work delay).1=if q.Refuses delay then 0
      else calculateDelayTaskId q.delaySequence ((q.now+delay.toNat*1000*1000) % 2^64) := by
  obtain ⟨hr, hz, -⟩ | ⟨ht, hi⟩ := q.addDelayTask_cases work delay
  · rw [if_pos hr, hz]
  · obtain ⟨grants, executor, hp⟩ := q.withExecutor_eq delay
    rw [if_neg ht, hi, hp]
    rfl

def removeDelayTask (delayTaskId : ℕ) : Bool × Queue τ :=
  match q.delayTasks.find? (·.id == delayTaskId) with
  | none => (false, q)
  | some entry =>
    let isBegin := q.delayTasks.head?.any (·.id == delayTaskId)
    let erased := {q with
      delayTasks := q.delayTasks.eraseP (·.id == delayTaskId)
      history := .removed entry.serial::q.history}
    (true, if isBegin && erased.delayTasks.isEmpty then erased.setTimeOption 1 else erased)

def note (front : Entry τ) : Queue τ :=
  {q with history := .ran front.serial front.due q.now::q.history}

end Queue

namespace Work

def exec : Work τ α → Queue τ → α × Queue τ
  | done result, q => (result, q)
  | wait us taken rest, q => rest.exec (q.wait us taken)
  | suspend us rest, q => rest.exec (q.suspend us)
  | addDelayTask work delay rest, q => (rest (q.addDelayTask work delay).1).exec (q.addDelayTask work delay).2
  | removeDelayTask taskId rest, q => (rest (q.removeDelayTask taskId).1).exec (q.removeDelayTask taskId).2

@[simp] theorem exec_pure (a : α) (q : Queue τ) : (pure a : Work τ α).exec q=(a, q) := rfl

@[simp] theorem exec_bind (w : Work τ α) (next : α → Work τ β) (q : Queue τ) :
    (w >>= next).exec q=(next (w.exec q).1).exec (w.exec q).2 := by
  induction w generalizing q with
  | done res => rfl
  | wait us taken rest ih | suspend us rest ih => exact ih _
  | addDelayTask work delay rest ih => exact ih _ _
  | removeDelayTask taskId rest ih => exact ih _ _

@[simp] theorem exec_map (f : α → β) (w : Work τ α) (q : Queue τ) : (f <$> w).exec q=(f (w.exec q).1, (w.exec q).2) :=
  exec_bind w _ q

inductive Op (τ : Type) where
  | add (work : τ) (delayTimeInS : BitVec 32)
  | remove (delayTaskId : ℕ)

def Op.after (q : Queue τ) : Op τ → Queue τ
  | .add work delay => (q.addDelayTask work delay).2
  | .remove taskId => (q.removeDelayTask taskId).2

/-- Each thing the code asks meets a condition in the queue it is asked of. -/
def Every (P : Queue τ → Op τ → Prop) : Work τ α → Queue τ → Prop
  | done _, _ => True
  | wait us taken rest, q => rest.Every P (q.wait us taken)
  | suspend us rest, q => rest.Every P (q.suspend us)
  | addDelayTask work delay rest, q => P q (.add work delay) ∧
    (rest (q.addDelayTask work delay).1).Every P (q.addDelayTask work delay).2
  | removeDelayTask taskId rest, q => P q (.remove taskId) ∧
    (rest (q.removeDelayTask taskId).1).Every P (q.removeDelayTask taskId).2

theorem exec_invariant {P : Queue τ → Op τ → Prop} {Inv : Queue τ → Prop}
    (hw : ∀ q us taken, Inv q → Inv (q.wait us taken)) (hs : ∀ q us, Inv q → Inv (q.suspend us))
    (hop : ∀ q op, Inv q → P q op → Inv (op.after q)) (w : Work τ α) {q : Queue τ} (hq : Inv q)
    (h : w.Every P q) : Inv (w.exec q).2 := by
  induction w generalizing q with
  | done res => exact hq
  | wait us taken rest ih => exact ih (hw q us taken hq) h
  | suspend us rest ih => exact ih (hs q us hq) h
  | addDelayTask work delay rest ih | removeDelayTask taskId rest ih => exact ih _ (hop q _ hq h.1) h.2

end Work

/-- The queue, the memory the code of the daemon works on, and whether `OnTimer` is in its loop. -/
structure Loop (τ σ : Type) where
  queue : Queue τ
  memory : σ
  draining : Bool

inductive Event (τ σ : Type) where
  | wait (us taken : ℕ)
  | suspend (us : ℕ)
  | call (work : σ → Work τ σ)
  | timer
  | turn

namespace Loop

variable (body : τ → σ → Work τ σ)

def fresh (now : ℕ) (grants : ℕ → Bool) (delaySequence : ℕ) (memory : σ) : Loop τ σ :=
  ⟨Queue.fresh now grants delaySequence, memory, false⟩

def perform (l : Loop τ σ) (work : Work τ σ) : Loop τ σ :=
  {l with queue := (work.exec l.queue).2, memory := (work.exec l.queue).1}

def runFront (l : Loop τ σ) (front : Entry τ) : Loop τ σ :=
  let worked := {l with queue := l.queue.note front}.perform (body front.work l.memory)
  {worked with queue := (worked.queue.removeDelayTask front.id).2}

/-- One turn of the loop in `OnTimer`. With nothing left it returns false and the event loop destroys
the executor. -/
def turn (l : Loop τ σ) : Loop τ σ :=
  match l.queue.delayTasks with
  | [] => {l with queue := {l.queue with executor := none}, draining := false}
  | front :: _ =>
    if l.queue.now < front.executeTime then
      {l with
        queue := l.queue.setTimeOption ((front.executeTime-l.queue.now)*1000 % 2^64)
        draining := false}
    else l.runFront body front

def step : Event τ σ → Loop τ σ → Loop τ σ
  | .wait us taken, l => {l with queue := l.queue.wait us taken}
  | .suspend us, l => {l with queue := l.queue.suspend us}
  | .call work, l => if l.draining then l else l.perform (work l.memory)
  | .timer, l => if l.queue.executor.isSome then {l with draining := true} else l
  | .turn, l => if l.draining then l.turn body else l

end Loop

end Faultloggerd.EventLoop
