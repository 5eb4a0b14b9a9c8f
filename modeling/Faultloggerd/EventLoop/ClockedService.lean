import Faultloggerd.EventLoop.QueueSteps

/-! # Services that look at the clock

A service handles requests and gives the delay queue tasks that only change its memory. Handlers and tasks read the
clock when they start.
-/
namespace Faultloggerd.EventLoop
open Foundations List

variable {ι τ σ : Type}

structure ClockedService (ι τ σ : Type) where
  handle : ι → ℕ → σ → Work τ σ
  body : ℕ → τ → σ → σ

inductive Input (ι : Type) where
  | wait (us taken : ℕ)
  | request (request : ι)
  | timer
  | turn

namespace ClockedService

variable (v : ClockedService ι τ σ)

def event (now : ℕ) : Input ι → Event τ σ
  | .wait us taken => .wait us taken
  | .request request => .call (v.handle request now)
  | .timer => .timer
  | .turn => .turn

def step (input : Input ι) (l : Loop τ σ) : Loop τ σ :=
  l.step (fun task m => .done (v.body l.queue.now task m)) (v.event l.queue.now input)

def Quiet (before after : Loop τ σ) : Prop :=
  after.memory = before.memory ∧ after.queue.delayTasks = before.queue.delayTasks ∧
    after.queue.now = before.queue.now ∧ after.queue.added = before.queue.added

def RanFront (before after : Loop τ σ) (front : Entry τ) : Prop :=
  before.queue.delayTasks = front::after.queue.delayTasks ∧ front.executeTime ≤ before.queue.now ∧
    after.memory = v.body before.queue.now front.work before.memory ∧
    after.queue.now = before.queue.now ∧ after.queue.added = before.queue.added

theorem step_turn (l : Loop τ σ) : Quiet l (v.step .turn l) ∨ ∃ front, v.RanFront l (v.step .turn l) front := by
  change Quiet l (if l.draining then l.turn _ else l) ∨ ∃ front, v.RanFront l (if l.draining then l.turn _ else l) front
  split
  · rw [Loop.turn]
    cases ht : l.queue.delayTasks with
    | nil => exact .inl ⟨rfl, rfl, rfl, rfl⟩
    | cons front rest =>
      dsimp only
      split
      · exact .inl ⟨rfl, rfl, rfl, rfl⟩
      · rename_i hd
        have hr := Queue.removeDelayTask_delayTasks (q := l.queue.note front) front.id
        obtain ⟨ha, hn⟩ := Queue.removeDelayTask_added_now (q := l.queue.note front) front.id
        refine .inr ⟨front, ?_, Nat.le_of_not_lt hd, rfl, hn, ha⟩
        change l.queue.delayTasks=front::((l.queue.note front).removeDelayTask front.id).2.delayTasks
        rw [hr]
        change l.queue.delayTasks=front::l.queue.delayTasks.eraseP _
        rw [ht, eraseP_cons_of_pos (by simp)]
  · exact .inl ⟨rfl, rfl, rfl, rfl⟩

theorem step_cases (input : Input ι) (l : Loop τ σ) :
    (∃ us taken, input=.wait us taken ∧ v.step input l={l with queue := l.queue.wait us taken}) ∨
      (∃ request, input=.request request ∧ l.draining=false ∧
        v.step input l=l.perform (v.handle request l.queue.now l.memory)) ∨
      Quiet l (v.step input l) ∨ input=.turn ∧ ∃ front, v.RanFront l (v.step input l) front := by
  cases input with
  | wait us taken => exact .inl ⟨us, taken, rfl, rfl⟩
  | request request =>
    cases hd : l.draining with
    | false =>
      refine .inr (.inl ⟨request, rfl, rfl, ?_⟩)
      change (if l.draining then l else _)=_
      rw [hd]
      rfl
    | true =>
      refine .inr (.inr (.inl ?_))
      change Quiet l (if l.draining then l else _)
      rw [hd]
      exact ⟨rfl, rfl, rfl, rfl⟩
  | timer =>
    refine .inr (.inr (.inl ?_))
    change Quiet l (if l.queue.executor.isSome then _ else l)
    split <;> exact ⟨rfl, rfl, rfl, rfl⟩
  | turn =>
    obtain hq | hr := v.step_turn l
    · exact .inr (.inr (.inl hq))
    · exact .inr (.inr (.inr ⟨rfl, hr⟩))

end ClockedService

namespace Queue

variable {q : Queue τ}

theorem addDelayTask_of_takes (work : τ) {delay : BitVec 32} (h : ¬q.Refuses delay) :
    (q.addDelayTask work delay).2.delayTasks=q.delayTasks.orderedInsert
        (fun _ other => (q.now+delay.toNat*1000*1000) % 2^64<other.executeTime)
        (q.newEntry work delay) ∧ (q.addDelayTask work delay).2.added=q.added+1 := by
  obtain ⟨hr, -⟩ | ⟨-, hi⟩ := q.addDelayTask_cases work delay
  · exact absurd hr h
  · obtain ⟨grants, executor, hp⟩ := q.withExecutor_eq delay
    rw [hi, hp]
    exact ⟨rfl, rfl⟩

theorem mem_addDelayTask {work : τ} {delay : BitVec 32} {e : Entry τ}
    (h : e∈(q.addDelayTask work delay).2.delayTasks) : e∈q.delayTasks ∨ e=q.newEntry work delay := by
  obtain ⟨ht, -⟩ | ⟨ht, -⟩ := q.addDelayTask_delayTasks work delay
  · rw [ht] at h
    exact .inl h
  · rw [ht] at h
    exact ((mem_orderedInsert _).mp h).symm

theorem countP_addDelayTask_le (p : Entry τ → Bool) (work : τ) (delay : BitVec 32) :
    (q.addDelayTask work delay).2.delayTasks.countP p ≤
      q.delayTasks.countP p+if p (q.newEntry work delay) then 1 else 0 := by
  obtain ⟨ht, -⟩ | ⟨ht, -⟩ := q.addDelayTask_delayTasks work delay
  · rw [ht]
    exact Nat.le_add_right _ _
  · rw [ht, (perm_orderedInsert _ _ _).countP_eq, countP_cons]

end Queue

end Faultloggerd.EventLoop
