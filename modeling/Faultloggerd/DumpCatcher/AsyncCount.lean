import Faultloggerd.Foundations.EventRuns
import Mathlib.Tactic.SplitIfs

/-! # The limit of kernel-stack collections

`GetProcessStackWithTimeout` and `NotifyStartCollect` raise `asyncCount_` by a compare-and-exchange loop before they
start a thread for the collection; the thread, or a caller that cannot start one, lowers it again. Callers and tasks
stand at the points of the source between two accesses to shared data. The future of a promise is never deferred.
-/
namespace Faultloggerd.DumpCatcher.AsyncCount
open Foundations List

def maxAsyncTaskNum : ℕ := 2

inductive ErrorCode where
  | success
  | ecreate
  | eopen
  | eioctl
  | timeout
  | deferred
  | overLimit
  | resourceLimit
  | noProcess
  | unknown

inductive Entry where
  | getProcessStackWithTimeout
  | notifyStartCollect

/-- What a caller returns: the code of a `KernelResult`, or whether a collection was started. -/
inductive Ret where
  | result (code : ErrorCode)
  | started (ok : Bool)

/-- How an entry returns that cannot start a collection. -/
def Entry.refused : Entry → ErrorCode → Ret
  | .getProcessStackWithTimeout, code => .result code
  | .notifyStartCollect, _ => .started false

inductive Point where
  /-- in the loop, with what it has in `expected` -/
  | comparing (expected : ℕ)
  /-- admitted, before `new (std::nothrow)` -/
  | allocating
  /-- before `pthread_create` -/
  | creating
  /-- in `wait_for`, for the answer of a task -/
  | waiting (task : ℕ)
  | returned (ret : Ret)

structure Caller where
  entry : Entry
  point : Point

/-- What `CollectKernelStackTask` finds: no status file, no stack of any thread, with what `ToErrCode` makes of the
first error, or stacks. -/
inductive Collected where
  | noProcess
  | nothing (error : ErrorCode)
  | stacks

def Collected.code : Collected → ErrorCode
  | .noProcess => .noProcess
  | .nothing error => error
  | .stacks => .success

inductive Task where
  | collecting
  /-- after `set_value`, before `asyncCount_--` -/
  | answered (code : ErrorCode)
  | finished (code : ErrorCode)

def Task.answer : Task → Option ErrorCode
  | .collecting => none
  | .answered code | .finished code => some code

structure State where
  asyncCount : ℕ
  callers : List Caller
  tasks : List Task

def State.initial : State := ⟨0, [], []⟩

inductive Event where
  /-- a caller comes and loads the count -/
  | call (entry : Entry)
  /-- the next step of a caller, where `ok` says that the exchange does not fail spuriously, that the allocation or
  `pthread_create` succeeds, or that the time is not up -/
  | run (i : ℕ) (ok : Bool)
  /-- the next step of a task -/
  | collect (i : ℕ) (found : Collected)

namespace State

def move (s : State) (i : ℕ) (c : Caller) (point : Point) : State :=
  {s with callers := s.callers.set i ⟨c.entry, point⟩}

/-- `asyncCount_--` and the return of a caller that was admitted in vain. -/
def giveUp (s : State) (i : ℕ) (c : Caller) : State :=
  {s.move i c (.returned (c.entry.refused .resourceLimit)) with asyncCount := s.asyncCount - 1}

def handOver (s : State) (i : ℕ) (c : Caller) : State :=
  let point := match c.entry with
    | .getProcessStackWithTimeout => .waiting s.tasks.length
    | .notifyStartCollect => .returned (.started true)
  {s.move i c point with tasks := s.tasks ++ [.collecting]}

def runCaller (s : State) (i : ℕ) (ok : Bool) (c : Caller) : State :=
  match c.point with
  | .comparing expected =>
    if expected > maxAsyncTaskNum then s.move i c (.returned (c.entry.refused .overLimit))
    else if s.asyncCount = expected ∧ ok then {s.move i c .allocating with asyncCount := expected + 1}
    else s.move i c (.comparing s.asyncCount)
  | .allocating => if ok then s.move i c .creating else s.giveUp i c
  | .creating => if ok then s.handOver i c else s.giveUp i c
  | .waiting task =>
    if ok then
      match s.tasks[task]?.bind Task.answer with
      | none => s
      | some code => s.move i c (.returned (.result code))
    else s.move i c (.returned (.result .timeout))
  | .returned _ => s

def runTask (s : State) (i : ℕ) (found : Collected) : Task → State
  | .collecting => {s with tasks := s.tasks.set i (.answered found.code)}
  | .answered code => {s with asyncCount := s.asyncCount - 1, tasks := s.tasks.set i (.finished code)}
  | .finished _ => s

end State

def step : Event → State → State
  | .call entry, s => {s with callers := s.callers ++ [⟨entry, .comparing s.asyncCount⟩]}
  | .run i ok, s => (s.callers[i]?).elim s (s.runCaller i ok)
  | .collect i found, s => (s.tasks[i]?).elim s (s.runTask i found)

def Caller.admitted (c : Caller) : Bool :=
  match c.point with
  | .allocating | .creating => true
  | .comparing _ | .waiting _ | .returned _ => false

def Caller.active (c : Caller) : Bool :=
  match c.point with
  | .returned _ => false
  | .comparing _ | .allocating | .creating | .waiting _ => true

def Task.active : Task → Bool
  | .collecting | .answered _ => true
  | .finished _ => false

/-- The callers that were admitted and have not handed over or failed, and the tasks that have not finished. -/
def State.claimed (s : State) : ℕ := s.callers.countP Caller.admitted + s.tasks.countP Task.active

/-- The count is exact, within the limit, and 0 when nobody is active. -/
structure Law (s : State) : Prop where
  exact : s.asyncCount = s.claimed
  limit : s.asyncCount ≤ maxAsyncTaskNum
  idle : (∀ c ∈ s.callers, c.active = false) → (∀ t ∈ s.tasks, t.active = false) → s.asyncCount = 0

theorem law_iff (s : State) : Law s ↔ s.asyncCount = s.claimed ∧ s.asyncCount ≤ maxAsyncTaskNum := by
  refine ⟨fun h => ⟨h.exact, h.limit⟩, fun h => ⟨h.1, h.2, fun hc ht => ?_⟩⟩
  have hadmitted : s.callers.countP Caller.admitted = 0 := by
    refine countP_eq_zero.mpr fun c hm ha => ?_
    have hn := hc c hm
    unfold Caller.active at hn
    unfold Caller.admitted at ha
    split at hn <;> simp_all
  have htasks : s.tasks.countP Task.active = 0 := countP_eq_zero.mpr fun t hm => by simp [ht t hm]
  rw [h.1, State.claimed, hadmitted, htasks]

/-- No exchange succeeds at the limit. -/
def Below (s : State) (e : Event) : Prop :=
  ∀ i entry, e = .run i true → s.callers[i]? = some ⟨entry, .comparing s.asyncCount⟩ → s.asyncCount ≠ maxAsyncTaskNum

theorem countP_set_add {α : Type} (p : α → Bool) {l : List α} {i : ℕ} {a : α} (h : l[i]? = some a) (b : α) :
    (l.set i b).countP p + (p a).toNat = l.countP p + (p b).toNat := by
  induction l generalizing i with
  | nil => cases h
  | cons c l ih =>
    cases i with
    | zero =>
      cases h
      rw [set_cons_zero, countP_cons, countP_cons]
      cases p a <;> cases p b <;> rfl
    | succ i =>
      have := ih h
      rw [set_cons_succ, countP_cons, countP_cons]
      omega

variable {s : State}

/-- What a step can do to the count: it stays exact, and only an exchange that succeeds within the limit raises it. -/
structure Counted (s s' : State) (e : Event) : Prop where
  exact : s'.asyncCount = s'.claimed
  raised : s'.asyncCount ≤ s.asyncCount ∨ s.asyncCount ≤ maxAsyncTaskNum ∧ s'.asyncCount = s.asyncCount + 1 ∧
    ∃ i entry, e = .run i true ∧ s.callers[i]? = some ⟨entry, .comparing s.asyncCount⟩

section Callers

variable {i : ℕ} {c : Caller} (hi : s.callers[i]? = some c)
include hi

theorem claimed_move (point : Point) :
    (s.move i c point).claimed + c.admitted.toNat = s.claimed + (Caller.mk c.entry point).admitted.toNat := by
  have := countP_set_add Caller.admitted hi ⟨c.entry, point⟩
  simp only [State.move, State.claimed]
  omega

theorem claimed_giveUp (ha : c.admitted = true) : (s.giveUp i c).claimed + 1 = s.claimed := by
  have := claimed_move hi (.returned (c.entry.refused .resourceLimit))
  rw [ha] at this
  exact this

theorem claimed_handOver (ha : c.admitted = true) : (s.handOver i c).claimed = s.claimed := by
  have hm : ∀ point, (Caller.mk c.entry point).admitted = false → (s.move i c point).claimed + 1 = s.claimed := by
    intro point hp
    have := claimed_move hi point
    rwa [ha, hp] at this
  have ht : (s.tasks ++ [Task.collecting]).countP Task.active = s.tasks.countP Task.active + 1 := by
    rw [countP_append]
    rfl
  unfold State.handOver
  cases c.entry with
  | getProcessStackWithTimeout =>
    rw [← hm (.waiting s.tasks.length) rfl, State.claimed, ht]
    rfl
  | notifyStartCollect =>
    rw [← hm (.returned (.started true)) rfl, State.claimed, ht]
    rfl

theorem runCaller_counted (h : s.asyncCount = s.claimed) (ok : Bool) : Counted s (s.runCaller i ok c) (.run i ok) := by
  obtain ⟨entry, point⟩ := c
  -- a move that leaves the caller as much admitted as it was
  have hm : ∀ next, (Caller.mk entry next).admitted = (Caller.mk entry point).admitted →
      Counted s (s.move i ⟨entry, point⟩ next) (.run i ok) := by
    intro next hn
    have hc := claimed_move hi next
    rw [hn] at hc
    exact ⟨h.trans (Nat.add_right_cancel hc).symm, .inl (Nat.le_refl _)⟩
  have hg : (Caller.mk entry point).admitted = true → Counted s (s.giveUp i ⟨entry, point⟩) (.run i ok) := by
    intro ha
    have hc := claimed_giveUp hi ha
    exact ⟨show s.asyncCount - 1 = _ by omega, .inl (Nat.sub_le ..)⟩
  unfold State.runCaller
  cases point with
  | comparing expected =>
    dsimp only
    split_ifs with hl hx
    · exact hm _ rfl
    · obtain ⟨rfl, rfl⟩ := hx
      exact ⟨(congrArg (· + 1) h).trans (claimed_move hi .allocating).symm, .inr ⟨by omega, rfl, i, entry, rfl, hi⟩⟩
    · exact hm _ rfl
  | allocating =>
    dsimp only
    split_ifs
    · exact hm _ rfl
    · exact hg rfl
  | creating =>
    dsimp only
    split_ifs
    · exact ⟨h.trans (claimed_handOver hi rfl).symm, .inl (Nat.le_refl _)⟩
    · exact hg rfl
  | waiting task =>
    dsimp only
    split_ifs
    · split
      · exact ⟨h, .inl (Nat.le_refl _)⟩
      · exact hm _ rfl
    · exact hm _ rfl
  | returned ret => exact ⟨h, .inl (Nat.le_refl _)⟩

end Callers

theorem runTask_counted (h : s.asyncCount = s.claimed) {i : ℕ} {task : Task} (hi : s.tasks[i]? = some task)
    (found : Collected) : Counted s (s.runTask i found task) (.collect i found) := by
  have hc := countP_set_add Task.active hi
  unfold State.claimed at h
  cases task with
  | collecting =>
    have := hc (.answered found.code)
    exact ⟨h.trans (congrArg _ (Nat.add_right_cancel this).symm), .inl (Nat.le_refl _)⟩
  | answered code =>
    have hf : (s.tasks.set i (.finished code)).countP Task.active + 1 = s.tasks.countP Task.active :=
      hc (.finished code)
    refine ⟨?_, .inl (Nat.sub_le ..)⟩
    dsimp only [State.runTask, State.claimed]
    omega
  | finished code => exact ⟨h, .inl (Nat.le_refl _)⟩

theorem step_counted (h : s.asyncCount = s.claimed) (e : Event) : Counted s (step e s) e := by
  cases e with
  | call entry =>
    refine ⟨h.trans ?_, .inl (Nat.le_refl _)⟩
    simp [step, State.claimed, countP_append, Caller.admitted]
  | run i ok =>
    dsimp only [step]
    cases hi : s.callers[i]? with
    | none => exact ⟨h, .inl (Nat.le_refl _)⟩
    | some c => exact runCaller_counted hi h ok
  | collect i found =>
    dsimp only [step]
    cases hi : s.tasks[i]? with
    | none => exact ⟨h, .inl (Nat.le_refl _)⟩
    | some task => exact runTask_counted h hi found

theorem asyncCount_admission {i : ℕ} {entry : Entry} (hi : s.callers[i]? = some ⟨entry, .comparing s.asyncCount⟩)
    (hl : s.asyncCount ≤ maxAsyncTaskNum) : (step (.run i true) s).asyncCount = s.asyncCount + 1 := by
  simp [step, hi, State.runCaller, Nat.not_lt.mpr hl]

theorem law_step_iff (h : Law s) (e : Event) : Law (step e s) ↔ Below s e := by
  have hs := step_counted h.exact e
  rw [law_iff]
  constructor
  · rintro ⟨-, hl⟩ i entry rfl hi hmax
    have := asyncCount_admission hi h.limit
    omega
  · intro hb
    refine ⟨hs.exact, ?_⟩
    obtain hle | ⟨hl, hr, i, entry, rfl, hi⟩ := hs.raised
    · exact Nat.le_trans hle h.limit
    · have := hb i entry rfl hi
      omega

/-- In a run the count keeps the law if and only if no exchange succeeds at the limit. -/
theorem law_run_iff (events : List Event) : EventRuns.Every step (fun s e => Law (step e s)) events .initial ↔
    EventRuns.Every step Below events .initial :=
  EventRuns.every_congr Law (fun _ _ _ h => h) ((law_iff _).mpr ⟨rfl, by decide⟩) fun _ e h => law_step_iff h e

/-- In every run the count is exact, and at most one above the limit. -/
theorem count_bounded (events : List Event) : let s := EventRuns.run step events .initial
    s.asyncCount = s.claimed ∧ s.asyncCount ≤ maxAsyncTaskNum + 1 := by
  refine EventRuns.run_invariant (fun s : State => s.asyncCount = s.claimed ∧ s.asyncCount ≤ maxAsyncTaskNum + 1)
    (fun s e ⟨he, hl⟩ => ?_) ⟨rfl, by decide⟩ events
  have hs := step_counted he e
  refine ⟨hs.exact, ?_⟩
  obtain hle | ⟨hl, hr, -⟩ := hs.raised <;> omega

/-- The comparison admits a caller at the limit: three callers, and the count is 3. -/
theorem third_caller_admitted : ¬Law (EventRuns.run step [.call .notifyStartCollect, .run 0 true,
    .call .getProcessStackWithTimeout, .run 1 true, .call .notifyStartCollect, .run 2 true] .initial) := by
  intro h
  exact absurd h.limit (by decide)

end Faultloggerd.DumpCatcher.AsyncCount
