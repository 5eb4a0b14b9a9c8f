import Faultloggerd.EventLoop.QueueSteps

/-! # The entry of the running task

`OnTimer` invokes the front task in place, so the closure it runs lives in the entry. The entry goes away
under the running task exactly when the task asks to remove its own id.
-/
namespace Faultloggerd.EventLoop
open Foundations List Nat

variable {τ σ α β : Type}

/-- From the first to the last thing the code asks of the queue, the entry is there. -/
def Work.Keeps (serial : ℕ) (w : Work τ α) (q : Queue τ) : Prop :=
  w.Every (fun q op => serial∈(op.after q).delayTasks.map Entry.serial) q

def Work.Spares (delayTaskId : ℕ) (w : Work τ α) (q : Queue τ) : Prop :=
  w.Every (fun _ op => op ≠ .remove delayTaskId) q

/-- The entry is in the queue, and the entries before it meet a condition. -/
def Stands (P : Entry τ → Prop) (e : Entry τ) (q : Queue τ) : Prop :=
  ∃ before after, q.delayTasks = before ++ e :: after ∧ ∀ b ∈ before, P b

/-- The entry is in the queue, and only entries that are due earlier stand before it. -/
structure Placed (e : Entry τ) (q : Queue τ) : Prop where
  numbered : q.Numbered
  place : Stands (fun b => b.executeTime < e.executeTime) e q

section Placed

variable {e : Entry τ} {q : Queue τ}

theorem Placed.mem (h : Placed e q) : e.serial∈q.delayTasks.map Entry.serial := by
  obtain ⟨before, after, ht, -⟩ := h.place
  rw [ht]
  simp

theorem id_ne_of_executeTime_lt {b : Entry τ} (h : b.executeTime<e.executeTime) : b.id≠e.id := by
  intro hid
  rw [executeTime_eq_mod, executeTime_eq_mod, hid] at h
  exact lt_irrefl _ h

section Stands

variable {P : Entry τ → Prop}

theorem orderedInsert_place {time : ℕ} {new : Entry τ} (hp : ∀ b, b = e ∨ P b → time < b.executeTime → P new)
    (before after : List (Entry τ)) (h : ∀ b ∈ before, P b) : ∃ before' after', (before ++ e :: after).orderedInsert
        (fun _ other => time < other.executeTime) new = before' ++ e :: after' ∧ ∀ b ∈ before', P b := by
  induction before with
  | nil =>
    by_cases hlt : time < e.executeTime
    · refine ⟨[new], after, by simp [hlt], ?_⟩
      simpa using hp e (.inl rfl) hlt
    · exact ⟨[], after.orderedInsert (fun _ other => time < other.executeTime) new, by simp [hlt], nofun⟩
  | cons b before ih =>
    have hb := h b mem_cons_self
    by_cases hlt : time < b.executeTime
    · exact ⟨new :: b :: before, after, by simp [hlt], forall_mem_cons.mpr ⟨hp b (.inr hb) hlt, h⟩⟩
    · obtain ⟨before', after', hi, hb'⟩ := ih fun c hc => h c (mem_cons_of_mem b hc)
      exact ⟨b :: before', after', by simp [hlt, hi], forall_mem_cons.mpr ⟨hb, hb'⟩⟩

theorem Stands.add (h : Stands P e q) (hp : ∀ b c : Entry τ, b = e ∨ P b → c.executeTime < b.executeTime → P c)
    (work : τ) (delay : BitVec 32) : Stands P e (q.addDelayTask work delay).2 := by
  obtain ⟨before, after, ht, hb⟩ := h
  obtain ⟨hs, -⟩ | ⟨hi, -⟩ := q.addDelayTask_delayTasks work delay
  · exact ⟨before, after, hs.trans ht, hb⟩
  · rw [Stands, hi, ht]
    refine orderedInsert_place (fun b hb hlt => hp b _ hb (lt_of_le_of_lt ?_ hlt)) before after hb
    rw [Queue.newEntry_executeTime]
    exact mod_le _ _

theorem Stands.remove_other (h : Stands P e q) {taskId : ℕ} (hid : taskId ≠ e.id) :
    Stands P e (q.removeDelayTask taskId).2 := by
  obtain ⟨before, after, ht, hb⟩ := h
  rw [Stands, Queue.removeDelayTask_delayTasks, ht, eraseP_append]
  split
  · exact ⟨before.eraseP _, after, rfl, fun b hm => hb b (mem_of_mem_eraseP hm)⟩
  · refine ⟨before, after.eraseP (·.id == taskId), ?_, hb⟩
    rw [eraseP_cons_of_neg (by simpa using fun heq => hid heq.symm)]

theorem Stands.op (h : Stands P e q) (hp : ∀ b c : Entry τ, b = e ∨ P b → c.executeTime < b.executeTime → P c)
    {op : Work.Op τ} (hop : op ≠ .remove e.id) : Stands P e (op.after q) := by
  cases op with
  | add work delay => exact h.add hp work delay
  | remove taskId => exact h.remove_other fun hid => hop (hid ▸ rfl)

end Stands

theorem earlier_of_earlier (b c : Entry τ) (hb : b = e ∨ b.executeTime < e.executeTime)
    (hc : c.executeTime < b.executeTime) : c.executeTime < e.executeTime := by
  obtain rfl | hb := hb
  · exact hc
  · exact hc.trans hb

theorem Placed.remove_own (h : Placed e q) : e.serial∉(q.removeDelayTask e.id).2.delayTasks.map Entry.serial := by
  obtain ⟨before, after, ht, hb1⟩ := h.place
  have hn := h.numbered.nodup
  have hn1 : ¬before.any (·.id == e.id) := by
    simp only [any_eq_true, beq_iff_eq, not_exists, not_and]
    exact fun b hb => id_ne_of_executeTime_lt (hb1 b hb)
  rw [Queue.removeDelayTask_delayTasks, ht, eraseP_append, if_neg hn1, eraseP_cons_of_pos (by simp)]
  rw [ht, map_append] at hn
  rw [map_append]
  exact (nodup_cons.mp (perm_middle.nodup_iff.mp hn)).1

theorem Placed.op (h : Placed e q) {op : Work.Op τ} (hop : op ≠ .remove e.id) : Placed e (op.after q) := by
  refine ⟨?_, h.place.op earlier_of_earlier hop⟩
  cases op with
  | add work delay => exact h.numbered.addDelayTask work delay
  | remove taskId => exact h.numbered.removeDelayTask taskId

theorem Placed.mem_after_iff (h : Placed e q) (op : Work.Op τ) :
    e.serial∈(op.after q).delayTasks.map Entry.serial ↔ op≠.remove e.id := by
  refine ⟨fun hm hop => ?_, fun hop => (h.op hop).mem⟩
  subst hop
  exact h.remove_own hm

theorem Work.keeps_iff (w : Work τ α) (h : Placed e q) : w.Keeps e.serial q ↔ w.Spares e.id q := by
  induction w generalizing q with
  | done res => exact Iff.rfl
  | wait us taken rest ih | suspend us rest ih => exact ih ⟨⟨h.numbered.nodup, h.numbered.lt_added⟩, h.place⟩
  | addDelayTask work delay rest ih =>
    have hne : Work.Op.add work delay ≠ .remove e.id := nofun
    exact and_congr (h.mem_after_iff _) (ih (q.addDelayTask work delay).1 (h.op hne))
  | removeDelayTask taskId rest ih =>
    refine (and_congr_left' (h.mem_after_iff _)).trans (and_congr_right fun hop => ?_)
    exact ih _ (h.op hop)

end Placed

theorem Work.every_bind {P : Queue τ → Work.Op τ → Prop} (w : Work τ α) (next : α → Work τ β)
    (q : Queue τ) : (w >>= next).Every P q ↔ w.Every P q ∧ (next (w.exec q).1).Every P (w.exec q).2 := by
  induction w generalizing q with
  | done res => exact (iff_of_eq (true_and _)).symm
  | wait us taken rest ih | suspend us rest ih => exact ih _
  | addDelayTask work delay rest ih => exact (and_congr_right fun _ => ih _ _).trans and_assoc.symm
  | removeDelayTask taskId rest ih => exact (and_congr_right fun _ => ih _ _).trans and_assoc.symm

section Runs

variable {body : τ → σ → Work τ σ} {l : Loop τ σ}

theorem Loop.step_numbered (h : l.queue.Numbered) (event : Event τ σ) : (l.step body event).queue.Numbered := by
  cases event with
  | wait us taken | suspend us => exact ⟨h.nodup, h.lt_added⟩
  | call work =>
    simp only [Loop.step]
    split
    · exact h
    · exact Work.exec_numbered _ h
  | timer =>
    simp only [Loop.step]
    split <;> exact h
  | turn =>
    simp only [Loop.step]
    split
    · unfold Loop.turn
      split
      · exact ⟨h.nodup, h.lt_added⟩
      · split
        · exact ⟨h.nodup, h.lt_added⟩
        · rename_i front _ _ _
          have hn : (l.queue.note front).Numbered := ⟨h.nodup, h.lt_added⟩
          exact (Work.exec_numbered _ hn).removeDelayTask _
    · exact h

theorem placed_front {q : Queue τ} {front : Entry τ} (h : q.Numbered)
    (hf : q.delayTasks.head?=some front) : Placed front (q.note front) := by
  obtain ⟨rest, ht⟩ := List.head?_eq_some_iff.mp hf
  exact ⟨⟨h.nodup, h.lt_added⟩, ⟨[], rest, ht, nofun⟩⟩

end Runs

end Faultloggerd.EventLoop
