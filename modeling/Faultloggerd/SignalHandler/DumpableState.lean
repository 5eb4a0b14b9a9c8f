import Faultloggerd.Foundations.EventRuns
import Mathlib.Algebra.Group.Int.Defs
import Mathlib.Data.Finset.Card
import Mathlib.Data.Fintype.Basic

/-! # The dumpable flag of a process

`DFX_SetDumpableState` and `DFX_RestoreDumpableState` count the threads that want the process dumpable. The first one
saves the flag and sets it, the last one puts it back. The count, the saved value and the flag are three words, and a
thread that comes or goes between two accesses of another one finds them out of step.
-/
namespace Faultloggerd.SignalHandler.DumpableState
open Foundations.EventRuns

inductive Point where
  /-- outside, with nothing to undo -/
  | idle
  /-- the exchange of 0 for 1 succeeded -/
  | won
  /-- `PR_GET_DUMPABLE` has answered -/
  | asked (state : ℤ)
  | saved
  /-- `PR_SET_DUMPABLE` has failed -/
  | refused
  /-- the exchange failed -/
  | lost
  /-- `DFX_SetDumpableState` has returned true -/
  | holding
  /-- `DFX_RestoreDumpableState` has found a positive count -/
  | entered
  | released
  /-- the count was 0 after the decrement -/
  | last
  | restoring (state : ℤ)
deriving DecidableEq

structure Process (τ : Type) where
  /-- the flag that `PR_SET_DUMPABLE` sets -/
  dumpable : ℤ
  dumpCount : ℤ
  dumpState : ℤ
  point : τ → Point

/-- One access of a thread; `accepted` is the answer to `PR_SET_DUMPABLE` where the access is that call. -/
structure Access (τ : Type) where
  thread : τ
  accepted : Bool

/-- The arithmetic of `atomic_int` wraps. -/
def toInt32 (n : ℤ) : ℤ :=
  n.bmod (2^32)

variable {τ : Type}

def Process.initial (dumpable : ℤ) : Process τ :=
  ⟨dumpable, 0, 0, fun _ => .idle⟩

variable [DecidableEq τ]

def Process.move (t : τ) (next : Point) (p : Process τ) : Process τ :=
  {p with point := Function.update p.point t next}

def Process.step (access : Access τ) (p : Process τ) : Process τ :=
  let t := access.thread
  match p.point t with
  -- `DFX_SetDumpableState`
  | .idle =>
    if p.dumpCount = 0 then {p.move t .won with dumpCount := 1}
    else p.move t .lost
  | .won => p.move t (.asked p.dumpable)
  | .asked state => {p.move t .saved with dumpState := state}
  | .saved =>
    if access.accepted then {p.move t .holding with dumpable := 1}
    else p.move t .refused
  | .refused => {p.move t .idle with dumpCount := toInt32 (p.dumpCount-1)}
  | .lost => {p.move t .holding with dumpCount := toInt32 (p.dumpCount+1)}
  -- `DFX_RestoreDumpableState`
  | .holding => if 0 < p.dumpCount then p.move t .entered else p.move t .idle
  | .entered => {p.move t .released with dumpCount := toInt32 (p.dumpCount-1)}
  | .released => if p.dumpCount = 0 then p.move t .last else p.move t .idle
  | .last => p.move t (.restoring p.dumpState)
  | .restoring state =>
    if access.accepted then {p.move t .idle with dumpable := state}
    else p.move t .idle

def Point.Starting : Point → Prop
  | .won | .asked _ | .saved => True
  | _ => False

def Point.Leaving : Point → Prop
  | .released | .last | .restoring _ => True
  | _ => False

instance (point : Point) : Decidable point.Starting := by
  cases point <;> unfold Point.Starting <;> infer_instance

instance (point : Point) : Decidable point.Leaving := by
  cases point <;> unfold Point.Leaving <;> infer_instance

/-- The exchange does not succeed while another thread is leaving; a thread whose exchange failed increments while the
count is positive and the first thread has set the flag; the count does not overflow and the calls that set the flag
succeed. -/
def Undisturbed (p : Process τ) (access : Access τ) : Prop :=
  match p.point access.thread with
  | .idle => p.dumpCount = 0 → ∀ u, ¬(p.point u).Leaving
  | .lost => p.dumpCount ≠ 0 ∧ p.dumpCount < 2^31-1 ∧ ∀ u, ¬(p.point u).Starting
  | .saved | .restoring _ => access.accepted = true
  | _ => True

instance [Fintype τ] (p : Process τ) (access : Access τ) : Decidable (Undisturbed p access) := by
  unfold Undisturbed
  split <;> infer_instance

/-- In one of three phases: nobody wants the flag, the first thread is setting it, or it is set. `original` is the value
that the flag had before. -/
inductive Phase (original : ℤ) (p : Process τ) : Prop
  | resting
      (count : p.dumpCount=0)
      (points : ∀ t, p.point t = .idle ∨ p.point t = .lost ∨ p.point t = .released ∨ p.point t = .last ∨
        p.point t = .restoring original)
      (state : ∀ t, (p.point t).Leaving → p.dumpState=original)
      (flag : p.dumpable=original ∨ ∃ t, (p.point t).Leaving)
  | starting (t : τ)
      (count : p.dumpCount=1)
      (flag : p.dumpable=original)
      (first : p.point t = .won ∨ p.point t = .asked original ∨ p.point t = .saved ∧ p.dumpState=original)
      (others : ∀ u, u≠t → p.point u = .idle ∨ p.point u = .lost)
  | held (holders : Finset τ)
      (count : p.dumpCount=holders.card)
      (nonempty : holders.Nonempty)
      (bound : p.dumpCount<2^31)
      (flag : p.dumpable=1)
      (state : p.dumpState=original)
      (points : ∀ t, p.point t = .idle ∨ p.point t = .lost ∨ p.point t = .released ∨ p.point t = .holding ∨
        p.point t = .entered)
      (counted : ∀ t, t∈holders ↔ p.point t = .holding ∨ p.point t = .entered)

section Step

variable {orig : ℤ} {p : Process τ} {access : Access τ}

@[simp] theorem move_self (t : τ) (next : Point) : (p.move t next).point t=next := Function.update_self ..

theorem move_of_ne {t u : τ} (next : Point) (hu : u≠t) : (p.move t next).point u=p.point u :=
  Function.update_of_ne hu ..

theorem toInt32_of_bounds {n : ℤ} (hl : 0≤n) (hh : n<2^31) : toInt32 n=n := by
  unfold toInt32
  rw [Int.bmod_eq_of_le] <;> omega

theorem forall_move {P : τ → Point → Prop} {t : τ} {next : Point} (hn : P t next)
    (ho : ∀ u, u≠t → P u (p.point u)) (u : τ) : P u ((p.move t next).point u) := by
  by_cases hu : u=t
  · rw [hu, move_self]
    exact hn
  · rw [move_of_ne next hu]
    exact ho u hu

@[simp] abbrev Point.Rests (original : ℤ) (next : Point) : Prop :=
  next = .idle ∨ next = .lost ∨ next = .released ∨ next = .last ∨ next = .restoring original

@[simp] abbrev Point.Holds (next : Point) : Prop :=
  next = .idle ∨ next = .lost ∨ next = .released ∨ next = .holding ∨ next = .entered

theorem step_resting (hc : p.dumpCount=0) (hp : ∀ t, (p.point t).Rests orig)
    (hs1 : ∀ t, (p.point t).Leaving → p.dumpState=orig)
    (hf : p.dumpable=orig ∨ ∃ t, (p.point t).Leaving) (hc1 : Undisturbed p access) : Phase orig (p.step access) := by
  have hm : ∀ next : Point, next.Rests orig → ∀ u, ((p.move access.thread next).point u).Rests orig :=
    fun next hn => forall_move (P := fun _ => Point.Rests orig) hn fun u _ => hp u
  obtain hat | hat | hat | hat | hat := hp access.thread <;> simp only [Undisturbed, hat] at hc1 <;>
    simp [Process.step, hat]
  · -- the exchange succeeds: no thread is leaving, so the flag has its old value
    have hq := hc1 hc
    have ho1 : p.dumpable=orig := hf.resolve_right fun ⟨u, hu⟩ => hq u hu
    rw [if_pos hc]
    refine .starting access.thread rfl ho1 (.inl (move_self ..)) fun u hu => ?_
    have ho := hq u
    rw [move_of_ne .won hu]
    obtain h | h | h | h | h := hp u
    · exact .inl h
    · exact .inr h
    all_goals
      rw [h] at ho
      exact absurd trivial ho
  · exact absurd hc hc1.1
  · rw [if_pos hc]
    refine .resting hc (hm _ (by simp)) ?_ (.inr ⟨access.thread, ?_⟩)
    · intro _ _
      exact hs1 access.thread (by rw [hat]; trivial)
    · rw [move_self]
      trivial
  · have hs := hs1 access.thread (by rw [hat]; trivial)
    rw [hs]
    refine .resting hc (hm _ (by simp)) (fun _ _ => hs) (.inr ⟨access.thread, ?_⟩)
    rw [move_self]
    trivial
  · have hs := hs1 access.thread (by rw [hat]; trivial)
    rw [if_pos hc1]
    exact .resting hc (hm _ (by simp)) (fun _ _ => hs) (.inl rfl)

theorem step_starting {t : τ} (hc : p.dumpCount=1) (hf : p.dumpable=orig)
    (hf1 : p.point t=.won ∨ p.point t=.asked orig ∨ p.point t=.saved ∧ p.dumpState=orig)
    (ho : ∀ u, u≠t → p.point u=.idle ∨ p.point u=.lost) (hc1 : Undisturbed p access) : Phase orig (p.step access) := by
  have hs : (p.point t).Starting := by
    obtain h | h | ⟨h, -⟩ := hf1 <;> rw [h] <;> trivial
  by_cases ht : access.thread=t
  · subst ht
    have hk : ∀ next u, u≠access.thread → (p.move access.thread next).point u=.idle ∨
        (p.move access.thread next).point u=.lost := by
      intro next u hu
      rw [move_of_ne next hu]
      exact ho u hu
    obtain hat | hat | ⟨hat, hs1⟩ := hf1 <;> simp only [Undisturbed, hat] at hc1 <;> simp [Process.step, hat]
    · refine .starting access.thread hc hf (.inr (.inl ?_)) (hk _)
      rw [move_self, hf]
    · exact .starting access.thread hc hf (.inr (.inr ⟨move_self .., rfl⟩)) (hk _)
    · rw [if_pos hc1]
      refine .held {access.thread} hc (Finset.singleton_nonempty _) ?_ rfl hs1 ?_ ?_
      · change p.dumpCount<2^31
        omega
      · refine forall_move (P := fun _ => Point.Holds) (by simp) fun u hu => ?_
        exact (ho u hu).imp_right .inl
      · refine forall_move (P := fun u next => u∈({access.thread} : Finset τ) ↔ next=.holding ∨ next=.entered)
          (by simp) fun u hu => ?_
        obtain h | h := ho u hu <;> simp [h, hu]
  · obtain hat | hat := ho access.thread ht <;> simp only [Undisturbed, hat] at hc1 <;> simp [Process.step, hat]
    · rw [if_neg (by omega)]
      refine .starting t hc hf ?_ ?_
      · rw [move_of_ne .lost (Ne.symm ht)]
        exact hf1
      · intro u hu
        exact forall_move (P := fun u next => u≠t → next=.idle ∨ next=.lost) (fun _ => .inr rfl)
          (fun u _ => ho u) u hu
    · exact absurd hs (hc1.2.2 t)

theorem step_held {ho : Finset τ} (hc1 : p.dumpCount=ho.card) (hn2 : ho.Nonempty)
    (hb : p.dumpCount<2^31) (hf : p.dumpable=1) (hs : p.dumpState=orig)
    (hp : ∀ t, (p.point t).Holds) (hc : ∀ t, t∈ho ↔ p.point t=.holding ∨ p.point t=.entered)
    (hc3 : Undisturbed p access) : Phase orig (p.step access) := by
  have hp1 : 0<p.dumpCount := by grind
  have hm1 : ∀ next : Point, next.Holds → ∀ u, ((p.move access.thread next).point u).Holds :=
    fun next hn => forall_move (P := fun _ => Point.Holds) hn fun u _ => hp u
  -- a move that does not change whether the thread counts
  have hs1 : ∀ next : Point, next.Holds → (access.thread∈ho ↔ next=.holding ∨ next=.entered) →
      Phase orig (p.move access.thread next) := by
    intro next hn hm
    exact .held ho hc1 hn2 hb hf hs (hm1 next hn)
      (forall_move (P := fun u next => u∈ho ↔ next=.holding ∨ next=.entered) hm
        fun u _ => hc u)
  obtain hat | hat | hat | hat | hat := hp access.thread <;> simp only [Undisturbed, hat] at hc3 <;>
    simp only [Process.step, hat] <;> have hm := hc access.thread <;> rw [hat] at hm
  · rw [if_neg (by omega)]
    exact hs1 .lost (by simp) (by simpa using hm)
  · have hn3 : access.thread ∉ ho := by simpa using hm
    have hc2 := Finset.card_insert_of_notMem hn3
    refine .held (insert access.thread ho) ?_ (Finset.insert_nonempty ..) ?_ hf hs
      (hm1 .holding (by simp)) ?_
    · rw [toInt32_of_bounds (by omega) (by omega), hc2, hc1]
      rfl
    · change toInt32 (p.dumpCount+1)<2^31
      rw [toInt32_of_bounds (by omega) (by omega)]
      omega
    · refine forall_move (P := fun u next => u∈insert access.thread ho ↔ next=.holding ∨ next=.entered)
        (by simp) fun u hu => ?_
      rw [Finset.mem_insert, or_iff_right hu]
      exact hc u
  · rw [if_neg (by omega)]
    exact hs1 .idle (by simp) (by simpa using hm)
  · rw [if_pos hp1]
    exact hs1 .entered (by simp) (by simpa using hm)
  · have hin : access.thread∈ho := by simpa using hm
    have hc2 := Finset.card_erase_add_one hin
    have hl : toInt32 (p.dumpCount-1)=(ho.erase access.thread).card := by
      rw [toInt32_of_bounds (by omega) (by omega)]
      omega
    have hr : ∀ u, u∈ho.erase access.thread ↔ (p.move access.thread .released).point u=.holding ∨
        (p.move access.thread .released).point u=.entered := by
      refine forall_move (P := fun u next => u∈ho.erase access.thread ↔ next=.holding ∨ next=.entered)
        (by simp) fun u hu => ?_
      rw [Finset.mem_erase, and_iff_right hu]
      exact hc u
    obtain he | hl1 := (ho.erase access.thread).eq_empty_or_nonempty
    · -- the last thread that counts leaves
      refine .resting ?_ (fun u => ?_) (fun _ _ => hs) (.inr ⟨access.thread, ?_⟩)
      · rw [hl, he]
        rfl
      · have hn1 := hr u
        rw [he] at hn1
        obtain h | h | h | h | h := hm1 .released (by simp) u
        · exact .inl h
        · exact .inr (.inl h)
        · exact .inr (.inr (.inl h))
        · simp [h] at hn1
        · simp [h] at hn1
      · rw [move_self]
        trivial
    · refine .held _ hl hl1 ?_ hf hs (hm1 .released (by simp)) hr
      grind

theorem phase_step (h : Phase orig p) (hc : Undisturbed p access) : Phase orig (p.step access) := by
  cases h with
  | resting count points state flag => exact step_resting count points state flag hc
  | starting t count flag first others => exact step_starting count flag first others hc
  | held ho count nonempty bound flag state points counted =>
    exact step_held count nonempty bound flag state points counted hc

end Step

theorem phase_initial {τ : Type} (dumpable : ℤ) : Phase dumpable (Process.initial dumpable : Process τ) :=
  .resting rfl (fun _ => .inl rfl) (fun _ h => h.elim) (.inl rfl)

theorem phase_run {dumpable : ℤ} {accesses : List (Access τ)}
    (h : Every Process.step Undisturbed accesses (Process.initial dumpable)) :
    Phase dumpable (run Process.step accesses (Process.initial dumpable)) :=
  run_invariant_of_every (Phase dumpable) (fun _ _ => phase_step) (phase_initial dumpable) h

/-- The flag is 1 while a thread holds it, and once every thread is through it is what it was. -/
def Kept (original : ℤ) (p : Process τ) : Prop :=
  (∀ t, p.point t = .holding → p.dumpable=1) ∧ ((∀ t, p.point t = .idle) → p.dumpable=original)

theorem kept_of_phase {orig : ℤ} {p : Process τ} (h : Phase orig p) : Kept orig p := by
  cases h with
  | resting count points state flag =>
    refine ⟨fun t ht => ?_, fun hi => flag.resolve_right fun ⟨t, ht⟩ => ?_⟩
    · simpa [ht] using points t
    · rw [hi t] at ht
      exact ht
  | starting t count flag first others =>
    refine ⟨fun u hu => ?_, fun _ => flag⟩
    by_cases hut : u=t
    · subst hut
      simp [hu] at first
    · simpa [hu] using others u hut
  | held ho count nonempty bound flag state points counted =>
    refine ⟨fun _ _ => flag, fun hi => ?_⟩
    obtain ⟨t, ht⟩ := nonempty
    simpa [hi t] using (counted t).mp ht

/-- In every run whose threads keep out of each other's way the flag is kept. -/
theorem dumpable_kept {τ : Type} [DecidableEq τ] (dumpable : ℤ) (accesses : List (Access τ))
    (h : Every Process.step Undisturbed accesses (Process.initial dumpable)) :
    Kept dumpable (run Process.step accesses (Process.initial dumpable)) := kept_of_phase (phase_run h)

def accessesOf (threads : List Bool) : List (Access Bool) :=
  threads.map fun t => ⟨t, true⟩

theorem dumpable_kept_two_threads :
    Every Process.step Undisturbed (accessesOf [false, false, false, false, true, true, false, false, true, true,
        true, true, true, false]) (Process.initial 0) ∧
      Kept 0 (run Process.step (accessesOf [false, false, false, false, true, true, false, false, true, true,
        true, true, true, false]) (Process.initial 0)) := by
  refine (and_iff_left_of_imp (dumpable_kept 0 _)).mpr ?_
  decide

/-- A second thread returns before the first one has set the flag; a thread whose exchange failed increments after the
last one has put the flag back; a thread that comes between the decrement of the last one and its check saves the
changed flag. -/
theorem dumpable_lost : ¬Kept 0 (run Process.step (accessesOf [false, true, true]) (Process.initial 0)) ∧
      ¬Kept 0 (run Process.step (accessesOf [false, false, false, false, true, false, false, false, false, false, true])
        (Process.initial 0)) ∧
      ¬Kept 0 (run Process.step (accessesOf [false, false, false, false, false, false, true, false, true, true, true,
        true, true, true, true, true]) (Process.initial 0)) := by
  refine ⟨fun h => ?_, fun h => ?_, fun h => ?_⟩
  · exact absurd (h.1 true (by decide)) (by decide)
  · exact absurd (h.1 true (by decide)) (by decide)
  · exact absurd (h.2 (by decide)) (by decide)

end Faultloggerd.SignalHandler.DumpableState
