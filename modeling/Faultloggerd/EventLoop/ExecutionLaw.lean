import Faultloggerd.EventLoop.QueueSteps
import Mathlib.Data.Prod.Lex

/-! # When delay tasks run

Each task runs at most once, not before its time, not after it was removed, in the order of the times and of
the calls, and between events the timer is armed for the first task; as its clock stands still while the device is
suspended, it fires that much later. The times are kept in 60 bits: a task that is due later than that is taken for one
that is long overdue.
-/
namespace Faultloggerd.EventLoop
open Foundations Queue List Loop EventRuns Nat

variable {τ σ α : Type}

/-! ## The law -/

def Entry.key (e : Entry τ) : ℕ ×ₗ ℕ :=
  toLex (e.due, e.serial)

def Happening.ranSerial : Happening → Option ℕ
  | .ran serial _ _ => some serial
  | .removed _ => none

def Happening.ranKey : Happening → Option (ℕ ×ₗ ℕ)
  | .ran serial due _ => some (toLex (due, serial))
  | .removed _ => none

structure HistoryLaw (history : List Happening) : Prop where
  once : (history.filterMap Happening.ranSerial).Nodup
  on_time : ∀ serial due now, .ran serial due now ∈ history → due ≤ now
  in_order : (history.filterMap Happening.ranKey).Pairwise fun later earlier => earlier < later
  not_removed : history.Pairwise fun later earlier =>
    ∀ serial due now, later = .ran serial due now → earlier ≠ .removed serial

/-- `armed` compares on the boot clock: if the device is not suspended any more, the timer expires no later than the
first task is due, put off by the time the device has been suspended since the timer was set. -/
structure ExecutionLaw (l : Loop τ σ) : Prop where
  history : HistoryLaw l.queue.history
  armed : l.draining = false → ∀ first executor, l.queue.delayTasks.head? = some first →
    l.queue.executor = some executor → ∃ expiry, executor.expiry = some expiry ∧
      expiry + l.queue.suspended * 1000 ≤ (first.due + (l.queue.suspended - executor.suspended)) * 1000

/-! ## Where it holds -/

/-- A task that is added is due within 60 bits and gets an id that no other queued task has; the running
task is not the one to be removed. -/
def Allowed (running : Option ℕ) (q : Queue τ) : Work.Op τ → Prop
  | .add work delay => q.now+delay.toNat*1000*1000 < 2^timestampBits ∧
    ((q.addDelayTask work delay).2.delayTasks.map Entry.id).Nodup
  | .remove taskId => running ≠ some taskId

/-- What handlers and tasks ask of the queue is allowed. -/
def Admissible (body : τ → σ → Work τ σ) (l : Loop τ σ) : Event τ σ → Prop
  | .call work => l.draining = false → (work l.memory).Every (Allowed none) l.queue
  | .turn => l.draining = true → ∀ front, l.queue.delayTasks.head? = some front →
      front.executeTime ≤ l.queue.now → (body front.work l.memory).Every (Allowed (some front.id)) (l.queue.note front)
  | _ => True

/-! ## The order of the queue -/

def maxDelay : ℕ := 2^32*1000000

/-- The timer is set for the task: with the device awake it expires no later than the task is due. -/
def Armed (executor : Option Executor) (first : Entry τ) : Prop :=
  ∃ expiry suspended, executor = some ⟨some expiry, suspended⟩ ∧ expiry + suspended * 1000 ≤ first.due * 1000

structure Ordered (q : Queue τ) : Prop where
  numbered : q.Numbered
  ids : (q.delayTasks.map Entry.id).Nodup
  times : ∀ e ∈ q.delayTasks, e.executeTime = e.due
  near : ∀ e ∈ q.delayTasks, e.due ≤ q.now+maxDelay
  sorted : q.delayTasks.Pairwise fun a b => a.key < b.key
  clocks : q.suspended ≤ q.now
  armed : ∀ first, q.delayTasks.head? = some first → Armed q.executor first

section Order

variable {q : Queue τ} {new : Entry τ} {time : ℕ}

theorem key_lt_of_due_lt {a b : Entry τ} (h : a.due<b.due) : a.key<b.key := Prod.Lex.toLex_lt_toLex.mpr (.inl h)

theorem due_le_of_key_lt {a b : Entry τ} (h : a.key<b.key) : a.due≤b.due := by
  obtain hlt | ⟨heq, -⟩ := Prod.Lex.toLex_lt_toLex.mp h
  · exact le_of_lt hlt
  · exact le_of_eq heq

theorem orderedInsert_sorted {tasks : List (Entry τ)} (hd : new.due=time)
    (ht : ∀ e∈tasks, e.executeTime=e.due) (hs : ∀ e∈tasks, e.serial<new.serial)
    (h : tasks.Pairwise fun a b => a.key<b.key) :
    (tasks.orderedInsert (fun _ other => time<other.executeTime) new).Pairwise fun a b => a.key<b.key := by
  induction tasks with
  | nil => exact pairwise_singleton _ _
  | cons b tasks ih =>
    obtain ⟨hb, ht1⟩ := pairwise_cons.mp h
    have hb2 := ht b mem_cons_self
    rw [orderedInsert_cons]
    by_cases hlt : time<b.executeTime
    · rw [if_pos hlt]
      have hn : new.key<b.key := key_lt_of_due_lt (by omega)
      refine pairwise_cons.mpr ⟨fun c hc => ?_, h⟩
      obtain rfl | hc := mem_cons.mp hc
      · exact hn
      · exact hn.trans (hb c hc)
    · rw [if_neg hlt]
      have hn : b.key<new.key := by
        apply Prod.Lex.toLex_lt_toLex.mpr
        have hb1 := hs b mem_cons_self
        omega
      refine pairwise_cons.mpr ⟨fun c hc => ?_, ?_⟩
      · obtain rfl | hc := (mem_orderedInsert _).mp hc
        · exact hn
        · exact hb c hc
      · exact ih (fun e he => ht e (mem_cons_of_mem b he))
          (fun e he => hs e (mem_cons_of_mem b he)) ht1

theorem head?_insertTask (work : τ) (delay : BitVec 32) : (q.insertTask work delay).2.delayTasks.head? =
      if q.insertsFirst ((q.now+delay.toNat*1000*1000) % 2^64) then some (q.newEntry work delay)
      else q.delayTasks.head? := by
  rw [insertTask_delayTasks, insertsFirst]
  generalize (q.now+delay.toNat*1000*1000) % 2^64=time
  cases q.delayTasks with
  | nil => rfl
  | cons b tasks => by_cases hlt : time<b.executeTime <;> simp [hlt]

theorem Ordered.wait (h : Ordered q) (us taken : ℕ) : Ordered (q.wait us taken) where
  numbered := ⟨h.numbered.nodup, h.numbered.lt_added⟩
  ids := h.ids
  times := h.times
  near e he := by
    have hn := h.near e he
    simp only [Queue.wait]
    omega
  sorted := h.sorted
  clocks := Nat.le_add_right_of_le h.clocks
  armed := h.armed

theorem Ordered.suspend (h : Ordered q) (us : ℕ) : Ordered (q.suspend us) where
  numbered := ⟨h.numbered.nodup, h.numbered.lt_added⟩
  ids := h.ids
  times := h.times
  near := (h.wait us 0).near
  sorted := h.sorted
  clocks := Nat.add_le_add_right h.clocks us
  armed := h.armed

theorem Ordered.withExecutor (h : Ordered q) (delay : BitVec 32) : Ordered (q.withExecutor delay).2 := by
  obtain ⟨grants, executor, hp, hs, -⟩ := q.withExecutor_spec delay
  rw [hp]
  refine ⟨⟨h.numbered.nodup, h.numbered.lt_added⟩, h.ids, h.times, h.near, h.sorted, h.clocks, ?_⟩
  intro first hf
  obtain ⟨expiry, suspended, he, hle⟩ := h.armed first hf
  refine ⟨expiry, suspended, ?_, hle⟩
  rw [←he]
  exact hs (by rw [he]; nofun)

variable {delay : BitVec 32}

theorem insertTask_armed {work : τ} (h : Ordered q) (he : q.executor≠none) (hd : delay≠0#32) (first : Entry τ)
    (hf : (q.insertTask work delay).2.delayTasks.head?=some first) :
    Armed (q.insertTask work delay).2.executor first := by
  rw [head?_insertTask] at hf
  rw [insertTask_executor]
  split at hf
  · rename_i hf1
    cases hf
    obtain ⟨executor, hs⟩ := Option.ne_none_iff_exists'.mp he
    have hp : delay.toNat≠0 := by
      intro hz
      exact hd (BitVec.eq_of_toNat_eq hz)
    rw [if_pos hf1]
    refine ⟨q.monotonic*1000+delay.toNat*1000*1000*1000, q.suspended, ?_, ?_⟩
    · simp only [setTimeOption, hs, Option.map_some]
      rw [mod_eq_of_lt (by omega), if_neg (by omega)]
    · have hc := h.clocks
      simp only [newEntry, monotonic]
      omega
  · rename_i hf1
    rw [if_neg hf1]
    exact h.armed first hf

theorem Ordered.add {running : Option ℕ} {work : τ} (h : Ordered q)
    (ha : Allowed running q (.add work delay)) : Ordered (q.addDelayTask work delay).2 := by
  obtain ⟨grants, executor, hp, -, hr⟩ := q.withExecutor_spec delay
  obtain ⟨-, -, hs | hs⟩ | ⟨ht, hi1⟩ := q.addDelayTask_cases work delay
  · exact hs.symm ▸ h
  · exact hs.symm ▸ h.withExecutor delay
  · have he1 : executor≠none := by
      apply hr
      by_contra hn1
      simp only [Bool.or_eq_true, not_or, Bool.not_eq_true, Option.isSome_eq_false_iff,
        Option.isNone_iff_eq_none] at hn1
      exact ht (.inr (.inl hn1))
    have hp1 := h.withExecutor delay
    have hn := h.numbered.addDelayTask work delay
    have hi := ha.2
    rw [hi1] at hn hi ⊢
    rw [hp] at hp1 hn hi ⊢
    obtain ⟨hd, -⟩ := ha
    have hm : (q.now+delay.toNat*1000*1000) % 2^64 = q.now+delay.toNat*1000*1000 := mod_eq_of_lt (hd.trans (by decide))
    have hn2 : (q.newEntry work delay).executeTime=(q.newEntry work delay).due := by
      rw [newEntry_executeTime, hm, mod_eq_of_lt hd]
      rfl
    refine ⟨hn, hi, ?_, ?_, ?_, ?_, ?_⟩
    · intro e he
      obtain rfl | he := (mem_orderedInsert _).mp he
      · exact hn2
      · exact h.times e he
    · intro e he
      rw [(insertTask_now_history work delay).1]
      obtain rfl | he := (mem_orderedInsert _).mp he
      · change q.now+delay.toNat*1000*1000≤q.now+maxDelay
        unfold maxDelay
        omega
      · exact h.near e he
    · exact orderedInsert_sorted hm.symm h.times h.numbered.lt_added h.sorted
    · rw [insertTask_suspended, (insertTask_now_history work delay).1]
      exact h.clocks
    · exact insertTask_armed hp1 he1 fun hz => ht (.inl hz)

theorem Ordered.remove (h : Ordered q) (taskId : ℕ) : Ordered (q.removeDelayTask taskId).2 := by
  have hs : (q.removeDelayTask taskId).2.delayTasks.Sublist q.delayTasks := by
    rw [removeDelayTask_delayTasks]
    exact eraseP_sublist
  refine ⟨h.numbered.removeDelayTask taskId, (hs.map Entry.id).nodup h.ids,
    fun e he => h.times e (hs.subset he), fun e he => ?_, h.sorted.sublist hs, ?_, ?_⟩
  · rw [(removeDelayTask_added_now taskId).2]
    exact h.near e (hs.subset he)
  · rw [removeDelayTask_suspended, (removeDelayTask_added_now taskId).2]
    exact h.clocks
  · intro first hf
    have hm := hs.subset (mem_of_head? hf)
    have hl : (q.removeDelayTask taskId).2.delayTasks≠[] := by grind
    rw [removeDelayTask_executor hl]
    cases ht : q.delayTasks with
    | nil =>
      rw [ht] at hm
      cases hm
    | cons front rest =>
      have hf1 : q.delayTasks.head? = some front := by rw [ht]; rfl
      obtain ⟨expiry, suspended, he1, hle⟩ := h.armed front hf1
      refine ⟨expiry, suspended, he1, hle.trans ?_⟩
      have hs1 := h.sorted
      rw [ht] at hm hs1
      obtain rfl | hm := mem_cons.mp hm
      · exact le_refl _
      · have hd := due_le_of_key_lt ((pairwise_cons.mp hs1).1 first hm)
        omega

theorem Ordered.note (h : Ordered q) (front : Entry τ) : Ordered (q.note front) :=
  ⟨⟨h.numbered.nodup, h.numbered.lt_added⟩, h.ids, h.times, h.near, h.sorted, h.clocks, h.armed⟩

end Order

/-! ## The history -/

/-- What the history tells of the tasks that are queued now; `running` is the entry of the running task. -/
structure Recorded (running : Option (Entry τ)) (q : Queue τ) : Prop where
  law : HistoryLaw q.history
  past : ∀ serial due now, .ran serial due now ∈ q.history → due ≤ q.now ∧ serial < q.added
  behind : ∀ serial due now, .ran serial due now ∈ q.history → ∀ e ∈ q.delayTasks,
    running.map Entry.serial ≠ some e.serial → toLex (due, serial) < e.key ∧ serial ≠ e.serial
  removed : ∀ serial, .removed serial ∈ q.history → serial < q.added ∧ ∀ e ∈ q.delayTasks, serial ≠ e.serial

structure Sound (running : Option (Entry τ)) (q : Queue τ) : Prop where
  ordered : Ordered q
  recorded : Recorded running q
  front : ∀ e, running = some e → q.delayTasks.head? = some e ∧ e.due ≤ q.now

section History

variable {q : Queue τ} {running : Option (Entry τ)}

theorem Recorded.wait (h : Recorded running q) (us taken : ℕ) : Recorded running (q.wait us taken) where
  law := h.law
  past serial due now hr := by
    obtain ⟨hd, hs⟩ := h.past serial due now hr
    exact ⟨le_add_right_of_le hd, hs⟩
  behind := h.behind
  removed := h.removed

theorem Recorded.add (h : Recorded running q) (work : τ) (delay : BitVec 32) :
    Recorded running (q.addDelayTask work delay).2 := by
  by_cases hd : delay=0#32
  · rw [addDelayTask, if_pos hd]
    exact h
  have hp : delay.toNat≠0 := fun hz => hd (BitVec.eq_of_toNat_eq hz)
  obtain ⟨hn, hh⟩ := addDelayTask_now_history (q := q) work delay
  obtain ⟨ht, ha⟩ | ⟨ht, ha⟩ := q.addDelayTask_delayTasks work delay
  · refine ⟨hh ▸ h.law, ?_, ?_, ?_⟩
    · rw [hh, hn, ha]
      exact h.past
    · rw [hh, ht]
      exact h.behind
    · rw [hh, ht, ha]
      exact h.removed
  · refine ⟨hh ▸ h.law, ?_, ?_, ?_⟩
    · rw [hh, hn, ha]
      intro serial due now hr
      obtain ⟨hd1, hs⟩ := h.past serial due now hr
      exact ⟨hd1, lt_succ_of_lt hs⟩
    · rw [hh, ht]
      intro serial due now hr e he ho
      obtain rfl | he := (mem_orderedInsert _).mp he
      · obtain ⟨hd1, hs⟩ := h.past serial due now hr
        refine ⟨Prod.Lex.toLex_lt_toLex.mpr (.inl ?_), Nat.ne_of_lt hs⟩
        change due<q.now+delay.toNat*1000*1000
        omega
      · exact h.behind serial due now hr e he ho
    · rw [hh, ht, ha]
      intro serial hr1
      obtain ⟨hs, hq⟩ := h.removed serial hr1
      refine ⟨lt_succ_of_lt hs, fun e he => ?_⟩
      obtain rfl | he := (mem_orderedInsert _).mp he
      · exact Nat.ne_of_lt hs
      · exact hq e he

variable {history : List Happening}

theorem mem_of_mem_cons_removed {removed serial due now : ℕ} (h : .ran serial due now∈.removed removed::history)
    : .ran serial due now∈history := by
  simpa using h

theorem HistoryLaw.cons_removed (h : HistoryLaw history) (serial : ℕ) : HistoryLaw (.removed serial::history) where
  once := h.once
  on_time serial due now hran := h.on_time serial due now (mem_of_mem_cons_removed hran)
  in_order := h.in_order
  not_removed := pairwise_cons.mpr ⟨nofun, h.not_removed⟩

variable {e front : Entry τ}

theorem removed_not_left {taskId : ℕ} {entry : Entry τ} (h : q.Numbered)
    (hf : q.delayTasks.find? (·.id == taskId)=some entry)
    (he : e∈q.delayTasks.eraseP (·.id == taskId)) : entry.serial≠e.serial := by
  obtain ⟨hid, before, after, ht, hb⟩ := find?_eq_some_iff_append.mp hf
  have hn := h.nodup
  have hn1 : ¬before.any (·.id == taskId) := by grind
  rw [ht, eraseP_append, if_neg hn1, eraseP_cons_of_pos (by simpa using hid)] at he
  rw [ht, map_append] at hn
  have hl := (nodup_cons.mp (perm_middle.nodup_iff.mp hn)).1
  rw [←map_append] at hl
  intro hs
  exact hl (hs ▸ mem_map_of_mem he)

theorem Recorded.remove (h : Recorded running q) (hn : q.Numbered) (taskId : ℕ) :
    Recorded running (q.removeDelayTask taskId).2 := by
  have hh := removeDelayTask_history (q := q) taskId
  obtain ⟨ha, hn2⟩ := removeDelayTask_added_now (q := q) taskId
  have ht := removeDelayTask_delayTasks (q := q) taskId
  cases hf : q.delayTasks.find? (·.id == taskId) with
  | none =>
    have hs1 : (q.removeDelayTask taskId).2=q := by
      rw [removeDelayTask, hf]
    exact hs1.symm ▸ h
  | some entry =>
    rw [hf] at hh
    have hr : ∀ {serial due now}, Happening.ran serial due now ∈
        (q.removeDelayTask taskId).2.history → .ran serial due now∈q.history := by grind
    have hl : ∀ e∈(q.removeDelayTask taskId).2.delayTasks, e∈q.delayTasks := by grind
    refine ⟨?_, ?_, ?_, ?_⟩
    · rw [hh]
      exact h.law.cons_removed entry.serial
    · rw [hn2, ha]
      exact fun serial due now hm => h.past serial due now (hr hm)
    · exact fun serial due now hm e he => h.behind serial due now (hr hm) e (hl e he)
    · intro serial hm
      rw [ha]
      rw [hh] at hm
      obtain hn1 | hm := mem_cons.mp hm
      · cases hn1
        refine ⟨hn.lt_added entry (mem_of_find?_eq_some hf), fun e he => ?_⟩
        rw [ht] at he
        exact removed_not_left hn hf he
      · obtain ⟨hs, hq⟩ := h.removed serial hm
        exact ⟨hs, fun e he => hq e (hl e he)⟩

/-! ## Code that keeps the law -/

section

variable (h : Sound running q)
include h

theorem Sound.wait (us taken : ℕ) : Sound running (q.wait us taken) where
  ordered := h.ordered.wait us taken
  recorded := h.recorded.wait us taken
  front e he := ⟨(h.front e he).1, le_add_right_of_le (h.front e he).2⟩

theorem Sound.suspend (us : ℕ) : Sound running (q.suspend us) where
  ordered := h.ordered.suspend us
  recorded := ⟨h.recorded.law, (h.recorded.wait us 0).past, h.recorded.behind, h.recorded.removed⟩
  front := (h.wait us 0).front

theorem Sound.op {op : Work.Op τ} (hop : Allowed (running.map Entry.id) q op) :
    Sound running (op.after q) := by
  cases op with
  | add work delay =>
    refine ⟨h.ordered.add hop, h.recorded.add work delay, fun e he => ?_⟩
    obtain ⟨hf, hd⟩ := h.front e he
    change (q.addDelayTask work delay).2.delayTasks.head? = some e ∧ e.due≤(q.addDelayTask work delay).2.now
    rw [(addDelayTask_now_history work delay).1]
    refine ⟨?_, hd⟩
    obtain ⟨ht, -⟩ | ⟨ht, -⟩ := q.addDelayTask_delayTasks work delay
    · rw [ht, hf]
    · obtain ⟨rest, hr⟩ := head?_eq_some_iff.mp hf
      have ht1 := h.ordered.times e (mem_of_head? hf)
      have hl : ¬(q.now+delay.toNat*1000*1000) % 2^64<e.executeTime := by
        rw [mod_eq_of_lt (hop.1.trans (by decide))]
        omega
      rw [ht, hr, orderedInsert_cons, if_neg hl]
      rfl
  | remove taskId =>
    refine ⟨h.ordered.remove taskId, h.recorded.remove h.ordered.numbered taskId, fun e he => ?_⟩
    obtain ⟨hf, hd⟩ := h.front e he
    obtain ⟨rest, hr⟩ := head?_eq_some_iff.mp hf
    have ho : e.id≠taskId := by
      intro hid
      rw [he] at hop
      exact hop (congrArg some hid)
    change (q.removeDelayTask taskId).2.delayTasks.head? = some e ∧ e.due≤(q.removeDelayTask taskId).2.now
    rw [(removeDelayTask_added_now taskId).2, removeDelayTask_delayTasks, hr, eraseP_cons_of_neg (by simpa using ho)]
    exact ⟨rfl, hd⟩

theorem Sound.exec (w : Work τ α)
    (hw : w.Every (Allowed (running.map Entry.id)) q) : Sound running (w.exec q).2 :=
  w.exec_invariant (fun _ us taken hq => hq.wait us taken) (fun _ us hq => hq.suspend us)
    (fun _ _ hq hop => hq.op hop) h hw

end

/-! ## Turns of the loop -/

theorem HistoryLaw.cons_ran {now : ℕ} (h : HistoryLaw history) (hd : e.due≤now)
    (hr1 : ∀ serial due now, .ran serial due now∈history → toLex (due, serial)<e.key ∧ serial≠e.serial)
    (hr : ∀ serial, .removed serial∈history → serial≠e.serial) : HistoryLaw (.ran e.serial e.due now::history) where
  once := by
    refine nodup_cons.mpr ⟨fun hm => ?_, h.once⟩
    obtain ⟨ha, hm, hs⟩ := mem_filterMap.mp hm
    cases ha with
    | ran serial due now => exact (hr1 serial due now hm).2 (Option.some.inj hs)
    | removed serial => cases hs
  on_time serial due time hm := by
    obtain hn | hm := mem_cons.mp hm
    · cases hn
      exact hd
    · exact h.on_time serial due time hm
  in_order := by
    refine pairwise_cons.mpr ⟨fun key hk1 => ?_, h.in_order⟩
    obtain ⟨ha, hm, hk⟩ := mem_filterMap.mp hk1
    cases ha with
    | ran serial due now =>
      cases hk
      exact (hr1 serial due now hm).1
    | removed serial => cases hk
  not_removed := by
    refine pairwise_cons.mpr ⟨fun old hm serial due time hn he => ?_, h.not_removed⟩
    cases hn
    exact hr e.serial (he ▸ hm) rfl

theorem Sound.note (h : Sound none q) (hf : q.delayTasks.head?=some front)
    (hd : front.executeTime≤q.now) : Sound (some front) (q.note front) := by
  have hm := mem_of_head? hf
  rw [h.ordered.times front hm] at hd
  obtain ⟨rest, hr2⟩ := head?_eq_some_iff.mp hf
  have hn : ∀ {serial due now}, .ran serial due now∈(q.note front).history →
      (serial=front.serial ∧ due=front.due) ∨ .ran serial due now∈q.history := by
    intro serial due now hr
    obtain hn | hr := mem_cons.mp hr
    · cases hn
      exact .inl ⟨rfl, rfl⟩
    · exact .inr hr
  refine ⟨h.ordered.note front, ⟨?_, ?_, ?_, ?_⟩, fun e he => ?_⟩
  · exact h.recorded.law.cons_ran hd
      (fun serial due now hr => h.recorded.behind serial due now hr front hm nofun)
      (fun serial hr1 => (h.recorded.removed serial hr1).2 front hm)
  · intro serial due now hr
    obtain ⟨rfl, rfl⟩ | hr := hn hr
    · exact ⟨hd, h.ordered.numbered.lt_added front hm⟩
    · exact h.recorded.past serial due now hr
  · intro serial due now hr e he ho
    obtain ⟨rfl, rfl⟩ | hr := hn hr
    · have hs := h.ordered.sorted
      change e∈q.delayTasks at he
      rw [hr2] at hs he
      obtain rfl | he := mem_cons.mp he
      · exact absurd rfl ho
      · exact ⟨(pairwise_cons.mp hs).1 e he, fun hs1 => ho (congrArg some hs1)⟩
    · exact h.recorded.behind serial due now hr e he nofun
  · intro serial hr1
    exact h.recorded.removed serial (by simpa [Queue.note] using hr1)
  · cases he
    exact ⟨hf, hd⟩

theorem Sound.finish (h : Sound (some front) q) : Sound none (q.removeDelayTask front.id).2 := by
  obtain ⟨rest, hr1⟩ := head?_eq_some_iff.mp (h.front front rfl).1
  have hf : q.delayTasks.find? (·.id == front.id)=some front := by
    rw [hr1, find?_cons_of_pos (by simp)]
  have hr := h.recorded.remove h.ordered.numbered front.id
  refine ⟨h.ordered.remove front.id, ⟨hr.law, hr.past, ?_, hr.removed⟩, nofun⟩
  intro serial due now hr2 e he _
  apply hr.behind serial due now hr2 e he
  rw [removeDelayTask_delayTasks] at he
  intro hs
  exact removed_not_left h.ordered.numbered hf he (Option.some.inj hs)

end History

section Runs

variable {body : τ → σ → Work τ σ} {l : Loop τ σ}

theorem Sound.rearm {q : Queue τ} (h : Sound none q) (executor : Option Executor)
    (ha : ∀ first, q.delayTasks.head? = some first → Armed executor first) :
    Sound none {q with executor := executor} where
  ordered := ⟨⟨h.ordered.numbered.nodup, h.ordered.numbered.lt_added⟩, h.ordered.ids, h.ordered.times,
    h.ordered.near, h.ordered.sorted, h.ordered.clocks, ha⟩
  recorded := ⟨h.recorded.law, h.recorded.past, h.recorded.behind, h.recorded.removed⟩
  front := nofun

theorem turn_sound (h : Sound none l.queue)
    (hb : ∀ front, l.queue.delayTasks.head?=some front → front.executeTime≤l.queue.now →
      (body front.work l.memory).Every (Allowed (some front.id)) (l.queue.note front)) :
    Sound none (l.turn body).queue := by
  unfold turn
  cases ht : l.queue.delayTasks with
  | nil =>
    have he1 : l.queue.delayTasks.head? = none := by rw [ht]; rfl
    exact h.rearm none fun first hf1 => nomatch he1.symm.trans hf1
  | cons front rest =>
    have hf : l.queue.delayTasks.head? = some front := by rw [ht]; rfl
    have hm := mem_of_head? hf
    have ht1 := h.ordered.times front hm
    have hn := h.ordered.near front hm
    dsimp only
    split
    · obtain ⟨expiry, suspended, he, -⟩ := h.ordered.armed front hf
      have hc := h.ordered.clocks
      apply h.rearm
      intro first hf1
      cases hf.symm.trans hf1
      refine ⟨l.queue.monotonic*1000+(front.executeTime-l.queue.now)*1000, l.queue.suspended, ?_,
        by unfold monotonic; omega⟩
      unfold maxDelay at hn
      simp only [he, Option.map_some]
      rw [mod_eq_of_lt (by omega), if_neg (by omega)]
    · rename_i hd
      have hd := not_lt.mp hd
      exact ((h.note hf hd).exec _ (hb front hf hd)).finish

theorem step_sound (h : Sound none l.queue) {event : Event τ σ} (he : Admissible body l event) :
    Sound none (l.step body event).queue := by
  cases event with
  | wait us taken => exact h.wait us taken
  | suspend us => exact h.suspend us
  | call work =>
    simp only [step]
    split
    · exact h
    · rename_i hi
      exact h.exec _ (he (by simpa using hi))
  | timer =>
    simp only [step]
    split <;> exact h
  | turn =>
    simp only [step]
    split
    · rename_i hd
      exact turn_sound h (he hd)
    · exact h

theorem fresh_sound (now : ℕ) (grants : ℕ → Bool) (delaySequence : ℕ) :
    Sound none (fresh now grants delaySequence : Queue τ) where
  ordered := ⟨⟨nodup_nil, nofun⟩, nodup_nil, nofun, nofun, List.Pairwise.nil, Nat.zero_le _, nofun⟩
  recorded := ⟨⟨nodup_nil, nofun, List.Pairwise.nil, List.Pairwise.nil⟩, nofun, nofun, nofun⟩
  front := nofun

theorem Sound.law (h : Sound none l.queue) : ExecutionLaw l := by
  refine ⟨h.recorded.law, fun _ first executor hf he => ?_⟩
  obtain ⟨expiry, suspended, hs, hle⟩ := h.ordered.armed first hf
  rw [he] at hs
  cases hs
  exact ⟨expiry, rfl, by grind⟩

end Runs

def chainBody : Bool → Unit → Work Bool Unit
  | true, _ => .addDelayTask false 1#32 fun _ => .done ()
  | false, _ => .done ()

def chainRun : List (Event Bool Unit) :=
  [.call fun _ => .addDelayTask true 1#32 fun _ => .done (), .wait 1000000 0, .timer, .turn, .turn]

/-- A task is added a second ahead when the clock is about to leave its 60 bits, and the timer is read. -/
def lateRun : List (Event Bool Unit) :=
  [.call fun _ => .addDelayTask false 1#32 fun _ => .done (), .timer, .turn]

end Faultloggerd.EventLoop
