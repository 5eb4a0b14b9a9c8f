import Faultloggerd.Coredump.SessionLife
import Faultloggerd.EventLoop.RunningEntry

/-! # The task that removes a session

The task that `ScheduleCancelTime` queues reaches `RemoveDelayTask` by way of `RemoveSession` and
`CancelTimeout`, with the id that the session keeps: its own.
-/
namespace Faultloggerd.Coredump
open Foundations EventLoop Option

variable {κ μ : Type} (other : κ → μ → Work (Task κ) μ)

/-- Whenever `OnTimer` invokes a task, the task's entry stays in the queue until the task returns. -/
def EntryLaw (d : Daemon κ μ) (inputs : List (Input κ μ)) : Prop :=
  ∀ before input after, inputs = before++input::after → input = .turn →
    ∀ front, dueTask (run other before d) = some front →
      (Task.body other front.work (run other before d).memory).Keeps front.serial
        ((run other before d).queue.note front)

/-- The next task to run is not the one that its own session remembers, and no task of another service
that removes itself. -/
def SparesOwn (d : Daemon κ μ) (input : Input κ μ) : Prop :=
  input = .turn → ∀ front, dueTask d = some front →
    match front.work with
    | .removeSession i => ∀ session, d.memory.sessions i = some session → session.delayTaskId ≠ front.id
    | .other task => (other task d.memory.rest).Spares front.id (d.queue.note front)

section Proofs

variable {other} {d : Daemon κ μ} {front : Entry (Task κ)}

theorem dueTask_head (h : dueTask d=some front) : d.queue.delayTasks.head?=some front := by
  unfold dueTask at h
  split at h
  · exact (filter_eq_some_iff.mp h).1
  · cases h

theorem removeSession_spares (i : ℤ) (m : Services μ) (taskId : ℕ) (q : Queue (Task κ)) :
    (removeSession i m).Spares taskId q ↔ ∀ session, m.sessions i=some session → session.delayTaskId≠taskId := by
  unfold removeSession
  cases hf : m.sessions i with
  | none => exact ⟨nofun, fun _ => trivial⟩
  | some session =>
    have hr : (cancelTimeout i m).Spares taskId q ↔ session.delayTaskId≠taskId := by
      rw [cancelTimeout, hf]
      refine (iff_of_eq (and_true _)).trans (not_congr ?_)
      exact ⟨fun heq => Work.Op.remove.inj heq, fun heq => congrArg _ heq⟩
    unfold Work.Spares at hr ⊢
    rw [Work.every_bind, hr]
    refine (iff_of_eq (and_true _)).trans ⟨fun hne found hs => ?_, fun ha => ha session rfl⟩
    cases hs
    exact hne

theorem elsewhere_spares (work : μ → Work (Task κ) μ) (m : Services μ) (taskId : ℕ) (q : Queue (Task κ)) :
    (elsewhere work m).Spares taskId q ↔ (work m.rest).Spares taskId q := by
  unfold elsewhere Work.Spares
  rw [Work.every_bind]
  exact iff_of_eq (and_true _)

theorem step_numbered (h : d.queue.Numbered) (input : Input κ μ) : (step other input d).queue.Numbered :=
  Loop.step_numbered h input.event

theorem run_numbered (h : d.queue.Numbered) (inputs : List (Input κ μ)) : (run other inputs d).queue.Numbered :=
  EventRuns.run_invariant (fun d : Daemon κ μ => d.queue.Numbered)
    (fun _ input h => step_numbered h input) h inputs

theorem body_keeps_iff (h : d.queue.Numbered) (hd : dueTask d=some front) :
    (Task.body other front.work d.memory).Keeps front.serial (d.queue.note front) ↔ match front.work with
      | .removeSession i => ∀ session, d.memory.sessions i=some session → session.delayTaskId≠front.id
      | .other task => (other task d.memory.rest).Spares front.id (d.queue.note front) := by
  rw [Work.keeps_iff _ (placed_front h (dueTask_head hd))]
  cases front.work with
  | removeSession i => exact removeSession_spares i d.memory _ _
  | other task => exact elsewhere_spares _ d.memory _ _

end Proofs

/-- A running task keeps its entry exactly in the runs in which none removes its own. -/
theorem entry_law_iff (now : ℕ) (grants : ℕ → Bool) (delaySequence : ℕ) (rest : μ) (inputs : List (Input κ μ)) :
    EntryLaw other (Daemon.fresh now grants delaySequence rest) inputs ↔
      EventRuns.Every (step other) (SparesOwn other) inputs (Daemon.fresh now grants delaySequence rest) := by
  have hf : (Daemon.fresh now grants delaySequence rest : Daemon κ μ).queue.Numbered := ⟨List.nodup_nil, nofun⟩
  rw [EventRuns.every_iff]
  refine forall_congr' fun before => forall_congr' fun input => forall_congr' fun after =>
    imp_congr_right fun _ => imp_congr_right fun _ => forall_congr' fun front => imp_congr_right fun hd => ?_
  exact body_keeps_iff (run_numbered hf before) hd

/-- The queue has only the task that removes the session, and it is due. -/
def overdueSession : List (Input Empty Unit) :=
  [.request ⟨some 7, false, 1000⟩ ⟨serverSocketName, 3, some ⟨100, 0⟩⟩ ⟨42, 31000, doCoreDump⟩, .wait 30000000 0,
    .timer]

theorem overdue_session_erases_running_entry :
    let start : Daemon Empty Unit := Daemon.fresh 1000000 (fun _ => true) 0 ()
    ¬EntryLaw nofun start (overdueSession++[.turn]) := by
  intro start hl
  obtain ⟨front, hd⟩ := isSome_iff_exists.mp
    (by decide : (dueTask (run nofun overdueSession start)).isSome=true)
  obtain ⟨session, hf⟩ := isSome_iff_exists.mp
    (by decide : ((run nofun overdueSession start).memory.sessions 42).isSome=true)
  have hid : ((run nofun overdueSession start).memory.sessions 42).map CoredumpSession.delayTaskId =
      (dueTask (run nofun overdueSession start)).map Entry.id := by
    decide
  have hw : (dueTask (run nofun overdueSession start)).map Entry.work = some (.removeSession 42) := by
    decide
  rw [hd] at hid hw
  rw [hf] at hid
  have hn : start.queue.Numbered := ⟨List.nodup_nil, nofun⟩
  have hk := (body_keeps_iff (run_numbered hn overdueSession) hd).mp
    (hl overdueSession .turn [] rfl rfl front hd)
  rw [some.inj hw] at hk
  exact hk session hf (some.inj hid)

end Faultloggerd.Coredump
