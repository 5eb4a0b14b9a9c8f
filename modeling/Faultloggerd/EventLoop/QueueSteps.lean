import Faultloggerd.EventLoop.DelayQueue

/-! # What the operations of the delay queue do to its entries -/
namespace Faultloggerd.EventLoop
open List Nat

variable {τ α : Type}

theorem executeTime_eq_mod (e : Entry τ) : e.executeTime=e.id % 2^timestampBits :=
  and_two_pow_sub_one_eq_mod e.id timestampBits

theorem calculateDelayTaskId_mod (sequence time : ℕ) :
    calculateDelayTaskId sequence time % 2^timestampBits=time % 2^timestampBits := by
  have hs : (sequence <<< timestampBits) % 2^64 % 2^timestampBits=0 := by
    rw [Nat.mod_mod_of_dvd _ (Nat.pow_dvd_pow 2 (by decide)), Nat.shiftLeft_eq, Nat.mul_mod_left]
  rw [calculateDelayTaskId, or_mod_two_pow, hs, zero_or]

namespace Queue

variable {q : Queue τ}

def newEntry (q : Queue τ) (work : τ) (delayTimeInS : BitVec 32) : Entry τ :=
  let delayTimeInMicroSeconds := delayTimeInS.toNat*1000*1000
  ⟨calculateDelayTaskId q.delaySequence ((q.now+delayTimeInMicroSeconds) % 2^64), work,
    q.now+delayTimeInMicroSeconds, q.added⟩

variable (work : τ) (delay : BitVec 32)

theorem newEntry_executeTime : (q.newEntry work delay).executeTime =
      (q.now+delay.toNat*1000*1000) % 2^64 % 2^timestampBits := by
  rw [executeTime_eq_mod, newEntry, calculateDelayTaskId_mod]

theorem insertTask_delayTasks : (q.insertTask work delay).2.delayTasks=q.delayTasks.orderedInsert
      (fun _ other => (q.now+delay.toNat*1000*1000) % 2^64<other.executeTime) (q.newEntry work delay) := rfl

theorem insertTask_executor : (q.insertTask work delay).2.executor =
      (if q.insertsFirst ((q.now+delay.toNat*1000*1000) % 2^64) then
        q.setTimeOption (delay.toNat*1000*1000*1000 % 2^64) else q).executor := rfl

theorem insertTask_now_history : (q.insertTask work delay).2.now=q.now ∧
      (q.insertTask work delay).2.history=q.history := by
  unfold insertTask
  dsimp only
  split <;> exact ⟨rfl, rfl⟩

theorem insertTask_suspended : (q.insertTask work delay).2.suspended = q.suspended := by
  unfold insertTask
  dsimp only
  split <;> rfl

theorem addDelayTask_now_history : (q.addDelayTask work delay).2.now=q.now ∧
      (q.addDelayTask work delay).2.history=q.history := by
  obtain ⟨grants, executor, hp⟩ := q.withExecutor_eq delay
  obtain ⟨-, -, hs | hs⟩ | ⟨-, hi⟩ := q.addDelayTask_cases work delay
  · rw [hs]
    exact ⟨rfl, rfl⟩
  · rw [hs, hp]
    exact ⟨rfl, rfl⟩
  · rw [hi, hp]
    exact insertTask_now_history work delay

theorem addDelayTask_delayTasks : ((q.addDelayTask work delay).2.delayTasks=q.delayTasks ∧
      (q.addDelayTask work delay).2.added=q.added) ∨
    ((q.addDelayTask work delay).2.delayTasks=q.delayTasks.orderedInsert
        (fun _ other => (q.now+delay.toNat*1000*1000) % 2^64<other.executeTime)
        (q.newEntry work delay) ∧ (q.addDelayTask work delay).2.added=q.added+1) := by
  obtain ⟨grants, executor, hp⟩ := q.withExecutor_eq delay
  obtain ⟨-, -, hs | hs⟩ | ⟨-, hi⟩ := q.addDelayTask_cases work delay
  · rw [hs]
    exact .inl ⟨rfl, rfl⟩
  · rw [hs, hp]
    exact .inl ⟨rfl, rfl⟩
  · rw [hi, hp]
    exact .inr ⟨rfl, rfl⟩

variable (taskId : ℕ)

theorem removeDelayTask_delayTasks : (q.removeDelayTask taskId).2.delayTasks=q.delayTasks.eraseP (·.id == taskId) := by
  unfold removeDelayTask
  split
  · rename_i hn
    rw [eraseP_of_forall_not (List.find?_eq_none.mp hn)]
  · dsimp only
    split <;> rfl

theorem removeDelayTask_added_now : (q.removeDelayTask taskId).2.added=q.added ∧
      (q.removeDelayTask taskId).2.now=q.now := by
  unfold removeDelayTask
  split
  · exact ⟨rfl, rfl⟩
  · dsimp only
    split <;> exact ⟨rfl, rfl⟩

theorem removeDelayTask_suspended : (q.removeDelayTask taskId).2.suspended = q.suspended := by
  unfold removeDelayTask
  split
  · rfl
  · dsimp only
    split <;> rfl

theorem removeDelayTask_executor {taskId : ℕ} (h : (q.removeDelayTask taskId).2.delayTasks≠[]) :
    (q.removeDelayTask taskId).2.executor=q.executor := by
  rw [removeDelayTask_delayTasks] at h
  unfold removeDelayTask
  split
  · rfl
  · dsimp only
    rw [if_neg (by simp [h])]

theorem removeDelayTask_history : (q.removeDelayTask taskId).2.history =
      ((q.delayTasks.find? (·.id == taskId)).map fun e => .removed e.serial).toList++q.history := by
  unfold removeDelayTask
  split
  · rename_i hn
    rw [hn]
    rfl
  · rename_i entry hs
    rw [hs]
    dsimp only
    split <;> rfl

structure Numbered (q : Queue τ) : Prop where
  nodup : (q.delayTasks.map Entry.serial).Nodup
  lt_added : ∀ e ∈ q.delayTasks, e.serial < q.added

theorem Numbered.addDelayTask (h : q.Numbered) (work : τ) (delay : BitVec 32) :
    (q.addDelayTask work delay).2.Numbered := by
  obtain ⟨ht, ha⟩ | ⟨ht, ha⟩ := q.addDelayTask_delayTasks work delay
  · exact ⟨ht ▸ h.nodup, by rw [ht, ha]; exact h.lt_added⟩
  · have hp := perm_orderedInsert
      (fun _ other => (q.now+delay.toNat*1000*1000) % 2^64<other.executeTime)
      (q.newEntry work delay) q.delayTasks
    rw [←ht] at hp
    refine ⟨((hp.map Entry.serial).nodup_iff).mpr (nodup_cons.mpr ⟨?_, h.nodup⟩), ?_⟩
    · intro hm
      obtain ⟨e, he, hs⟩ := mem_map.mp hm
      exact absurd (h.lt_added e he) (not_lt.mpr (le_of_eq hs.symm))
    · intro e he
      rw [ha]
      obtain rfl | he := mem_cons.mp (hp.mem_iff.mp he)
      · exact lt_succ_self _
      · exact lt_succ_of_lt (h.lt_added e he)

theorem Numbered.removeDelayTask (h : q.Numbered) (taskId : ℕ) : (q.removeDelayTask taskId).2.Numbered := by
  have hs := eraseP_sublist (p := (·.id == taskId)) (l := q.delayTasks)
  rw [←removeDelayTask_delayTasks] at hs
  refine ⟨(hs.map Entry.serial).nodup h.nodup, fun e he => ?_⟩
  rw [(removeDelayTask_added_now taskId).1]
  exact h.lt_added e (hs.subset he)

end Queue

theorem Work.exec_numbered (w : Work τ α) {q : Queue τ} (h : q.Numbered) : (w.exec q).2.Numbered := by
  induction w generalizing q with
  | done res => exact h
  | wait us taken rest ih | suspend us rest ih => exact ih ⟨h.nodup, h.lt_added⟩
  | addDelayTask work delay rest ih => exact ih _ (h.addDelayTask work delay)
  | removeDelayTask taskId rest ih => exact ih _ (h.removeDelayTask taskId)

namespace Loop

variable {σ : Type} (body : τ → σ → Work τ σ) (P : Queue τ → Work.Op τ → Prop) {l : Loop τ σ}

/-- Each thing that a step asks of the queue meets a condition in the queue it is asked of; the last thing is that
`OnTimer` removes the task it has run. -/
def Asks (l : Loop τ σ) : Event τ σ → Prop
  | .call work => l.draining = false → (work l.memory).Every P l.queue
  | .turn => l.draining = true → ∀ front, l.queue.delayTasks.head? = some front → front.executeTime ≤ l.queue.now →
    (body front.work l.memory).Every P (l.queue.note front) ∧
      P ((body front.work l.memory).exec (l.queue.note front)).2 (.remove front.id)
  | _ => True

variable {body P}

theorem step_tasks_invariant {Inv : Queue τ → Prop} {event : Event τ σ}
    (hc : ∀ q q' : Queue τ, q'.delayTasks = q.delayTasks → Inv q → Inv q')
    (hop : ∀ q op, Inv q → P q op → Inv (op.after q)) (h : Inv l.queue) (ha : l.Asks body P event) :
    Inv (l.step body event).queue := by
  have hexec {α : Type} (w : Work τ α) {q : Queue τ} (hq : Inv q) (hw : w.Every P q) : Inv (w.exec q).2 :=
    w.exec_invariant (fun q us taken => hc q (q.wait us taken) rfl) (fun q us => hc q (q.suspend us) rfl) hop hq hw
  cases event with
  | wait us taken | suspend us => exact hc l.queue _ rfl h
  | call work =>
    simp only [step]
    split
    · exact h
    · exact hexec _ h (ha (Bool.eq_false_iff.mpr ‹_›))
  | timer =>
    simp only [step]
    split <;> exact h
  | turn =>
    simp only [step]
    split
    · have ha := ha ‹_›
      unfold turn
      cases ht : l.queue.delayTasks with
      | nil => exact hc l.queue _ rfl h
      | cons front rest =>
        dsimp only
        split
        · exact hc l.queue _ rfl h
        · obtain ⟨hw, hr⟩ := ha front (by rw [ht]; rfl) (not_lt.mp ‹_›)
          exact hop _ (.remove front.id) (hexec _ (hc l.queue (l.queue.note front) rfl h) hw) hr
    · exact h

end Loop

end Faultloggerd.EventLoop
