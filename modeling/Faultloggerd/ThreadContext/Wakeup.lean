import Faultloggerd.ThreadContext.Collector

/-! # Notifications that no one waits for

The collector signals the thread before it takes the lock to wait, and waits without looking at the status. So a handler
that is quick enough notifies no one, and the collector waits for a notification that was sent before.
-/
namespace Faultloggerd.ThreadContext
open State Foundations.EventRuns Function

/-- The handler of the call has copied and notified, and the collector is still going to wait for a notification. -/
def LostWakeup (s : State) : Prop :=
  (s.handlers s.call).point = .notified ∧ (s.collector = .signalled ∨ s.collector = .waiting false)

/-- The event loses no wakeup. -/
def KeepsWakeup (getpid : ℤ) (s : State) (e : Event) : Prop := ¬LostWakeup (step getpid e s)

/-- The handler of the call does not take the lock of `CopyStackBuf` before the collector waits. -/
def WaitedFor (s : State) (e : Event) : Prop :=
  ∀ env cpySz, e = .handle s.call env → (s.handlers s.call).point = .sized cpySz → s.collector ≠ .signalled

section Steps
variable {s : State} {getpid : ℤ}

theorem handle_cases (getpid : ℤ) (c : ℕ) (env : Surroundings) (s : State) : s.handle getpid c env=s ∨
      (∃ mix point, s.handle getpid c env={s with mix := mix}.move c point ∧ point≠.notified) ∨
      ∃ mix cpySz, (s.handlers c).point=.sized cpySz ∧
        s.handle getpid c env={s with mix := mix, collector := s.collector.notify}.move c .notified := by
  rw [handle]
  split
  case h_1 =>
    split_ifs <;> exact .inr (.inl ⟨_, _, rfl, nofun⟩)
  case h_2 =>
    split_ifs
    · exact .inr (.inl ⟨s.mix, _, rfl, nofun⟩)
    · split
      · exact .inr (.inl ⟨s.mix, _, rfl, nofun⟩)
      · exact .inr (.inl ⟨_, _, rfl, nofun⟩)
  case h_3 => exact .inr (.inl ⟨_, _, rfl, nofun⟩)
  case h_4 =>
    split_ifs <;> exact .inr (.inl ⟨s.mix, _, rfl, nofun⟩)
  case h_5 => exact .inr (.inl ⟨s.mix, _, rfl, nofun⟩)
  case h_6 cpySz hat => exact .inr (.inr ⟨_, cpySz, hat, rfl⟩)
  all_goals exact .inl rfl

theorem not_lost_of_collector (hs : s.collector≠.signalled) (hw : s.collector≠.waiting false) : ¬LostWakeup s :=
  fun h => h.2.elim hs hw

theorem notify_lost {c : Collector} (h : c.notify=.signalled ∨ c.notify=.waiting false) : c=.signalled := by
  cases c with
  | signalled => rfl
  | _ => simp [Collector.notify] at h

theorem not_lost_handle (h : ¬LostWakeup s) {c : ℕ} {env : Surroundings} (hc2 : WaitedFor s (.handle c env)) :
    ¬LostWakeup (s.handle getpid c env) := by
  rintro ⟨hp, hc1⟩
  rcases handle_cases getpid c env s with hs1 | ⟨mix, point, hm, hne⟩ | ⟨mix, cpySz, hat, hm⟩
  · rw [hs1] at hp hc1
    exact h ⟨hp, hc1⟩
  · rw [hm] at hp hc1
    change (update s.handlers c _ s.call).point=_ at hp
    by_cases hc : s.call=c
    · rw [hc, update_self] at hp
      exact hne hp
    · rw [update_of_ne hc] at hp
      exact h ⟨hp, hc1⟩
  · rw [hm] at hp hc1
    change (update s.handlers c _ s.call).point=_ at hp
    have hs := notify_lost hc1
    by_cases hc : s.call=c
    · subst hc
      exact hc2 env cpySz rfl hat hs
    · rw [update_of_ne hc] at hp
      exact h ⟨hp, .inl hs⟩

theorem waitedFor_of_not_lost {env : Surroundings} (h : ¬LostWakeup (s.handle getpid s.call env)) {cpySz : ℕ}
    (hat : (s.handlers s.call).point=.sized cpySz) : s.collector≠.signalled := by
  intro hs
  have hm : ∃ mix, s.handle getpid s.call env =
      {s with mix := mix, collector := s.collector.notify}.move s.call .notified := by
    rw [handle, hat]
    exact ⟨_, rfl⟩
  obtain ⟨mix, hm⟩ := hm
  rw [hm] at h
  refine h ⟨?_, .inl ?_⟩
  · change (update s.handlers s.call _ s.call).point=_
    rw [update_self]
  · rw [hs]
    rfl

theorem not_lost_start (h : ¬LostWakeup s) (tid : ℤ) : ¬LostWakeup (s.start tid) := by
  rw [start]
  split_ifs
  · exact h
  · exact not_lost_of_collector nofun nofun

theorem not_lost_signal (h : ¬LostWakeup s) (sent : Bool) : ¬LostWakeup (s.signalRequestThread sent) := by
  rw [signalRequestThread]
  split_ifs
  · rintro ⟨hp, -⟩
    change (update s.handlers s.call _ s.call).point=_ at hp
    rw [update_self] at hp
    cases hp
  · exact not_lost_of_collector nofun nofun
  · exact h

theorem not_lost_collect (h : ¬LostWakeup s) : ¬LostWakeup s.collect := by
  rw [collect]
  split
  case h_1 hat => exact fun hl => h ⟨hl.1, .inl hat⟩
  case h_4 => exact h
  all_goals exact not_lost_of_collector nofun nofun

theorem keepsWakeup_iff (getpid : ℤ) (s : State) (e : Event) (h : ¬LostWakeup s) :
    KeepsWakeup getpid s e ↔ WaitedFor s e := by
  cases e with
  | handle c env =>
    refine ⟨fun hk env' cpySz he hat => ?_, fun hc => not_lost_handle h hc⟩
    cases he
    exact waitedFor_of_not_lost hk hat
  | start tid => exact iff_of_true (not_lost_start h tid) nofun
  | signalRequestThread sent => exact iff_of_true (not_lost_signal h sent) nofun
  | collect => exact iff_of_true (not_lost_collect h) nofun
  | timeout =>
    refine iff_of_true ?_ nofun
    rw [KeepsWakeup, step, timeout]
    split
    · exact not_lost_of_collector nofun nofun
    · exact h
  | spurious =>
    refine iff_of_true ?_ nofun
    rw [KeepsWakeup, step, spurious]
    split
    · exact not_lost_of_collector nofun nofun
    · exact h
  | setStackRang stackTop | release =>
    refine iff_of_true ?_ nofun
    rw [KeepsWakeup, step]
    split_ifs <;> exact h

end Steps

/-- No notification is lost in a run if and only if the handler of the call always finds the collector waiting. -/
theorem no_lost_wakeup_iff (getpid : ℤ) (events : List Event) :
    Every (step getpid) (KeepsWakeup getpid) events .initial ↔ Every (step getpid) WaitedFor events .initial :=
  every_congr (fun s => ¬LostWakeup s) (fun _ _ _ hk => hk) (by rintro ⟨h, -⟩; cases h) (keepsWakeup_iff getpid)

/-- The handler notifies before the collector waits. -/
def quickHandler : List Event :=
  [Event.start 7, Event.signalRequestThread true] ++
    List.replicate 6 (Event.handle 1 ⟨some 4160, ⟨1, 4096, 2, 3⟩, 64, fun _ => 0⟩)++[Event.collect]

theorem quick_answer_missed : LostWakeup (run (step 5) quickHandler .initial) := ⟨by decide, .inr (by decide)⟩

end Faultloggerd.ThreadContext
