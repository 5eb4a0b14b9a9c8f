import Faultloggerd.Dwarf.Memory
import Faultloggerd.Foundations.EventRuns
import Mathlib.Tactic.Common

/-! # Threads that share an accessor: `DfxAccessorsLocal::AccessMem`

A word goes through the pipe of the accessor, with a step of its own for writing and for reading. As long as no call
writes while another word is unread, the word that a call reads is the one it wrote.
-/
namespace Faultloggerd.LocalAccess

open Dwarf Foundations.EventRuns

/-- What a call of `AccessMem` is given: the address and, from the context, the known stack range. -/
structure Call where
  addr : Word
  stackCheck : Bool
  stackBottom : Word
  stackTop : Word

/-- The calls, which addresses `write` can read from, and how many words the pipe holds. -/
structure Process where
  call : ℕ → Call
  readable : Word → Bool
  room : ℕ

/-- How far a call has come. -/
inductive Phase where
  | start
  | piped
  | written
  /-- The value, or `UNW_ERROR_INVALID_MEMORY`. -/
  | returned (val : Option Word)
deriving DecidableEq

structure Accessor where
  pipeReady : Bool := false
  pipe : List Word := []
  phase : ℕ → Phase := fun _ => .start

/-- A call takes its next step; `created` is what `pipe2` would say. -/
structure Event where
  call : ℕ
  created : Bool

def Accessor.set (s : Accessor) (c : ℕ) (phase : Phase) : Accessor :=
  {s with phase := Function.update s.phase c phase}

variable (p : Process) (memory : Word → Word)

/-- The word at the address that a call asks for. -/
def wanted (c : ℕ) : Word := memory (p.call c).addr

/-- Up to `CreatePipe`: the checks of the range, and the direct read inside of it. -/
def enter (e : Event) (s : Accessor) : Accessor :=
  let call := p.call e.call
  if call.stackCheck = false then s.set e.call (.returned (some (wanted p memory e.call)))
  else if call.stackTop < call.stackBottom then s.set e.call (.returned none)
  else if 2^64 ≤ call.addr.toNat + 8 then s.set e.call (.returned none)
  else if call.stackBottom ≤ call.addr ∧ call.addr + 8 < call.stackTop then
    s.set e.call (.returned (some (wanted p memory e.call)))
  else if s.pipeReady ∨ e.created then {s with pipeReady := true}.set e.call .piped
  else s.set e.call (.returned none)

def accessMem (e : Event) (s : Accessor) : Accessor :=
  match s.phase e.call with
  | .start => enter p memory e s
  | .piped =>
    if p.readable (p.call e.call).addr ∧ s.pipe.length < p.room then
      {s with pipe := s.pipe ++ [wanted p memory e.call]}.set e.call .written
    else s.set e.call (.returned none)
  | .written =>
    match s.pipe with
    | val :: pipe => {s with pipe}.set e.call (.returned (some val))
    | [] => s.set e.call (.returned none)
  | .returned _ => s

/-- Every call that succeeds returns the word at its address. -/
def OwnWords (events : List Event) : Prop :=
  ∀ c val, (run (accessMem p memory) events {}).phase c = .returned (some val) → val = wanted p memory c

/-- A call that is about to write finds no unread word in the pipe. -/
def Alone (s : Accessor) (e : Event) : Prop :=
  s.phase e.call = .piped → s.pipe = []

instance (s : Accessor) (e : Event) : Decidable (Alone s e) := inferInstanceAs (Decidable (_ → _))

section Runs

variable {p memory} {s : Accessor} {e : Event}

/-- Nothing is in the pipe and no call has written, or the one call that has written finds its own word there. -/
structure Sole (p : Process) (memory : Word → Word) (s : Accessor) : Prop where
  own : ∀ c val, s.phase c = .returned (some val) → val = wanted p memory c
  pipe : (s.pipe = [] ∧ ∀ c, s.phase c ≠ .written) ∨
    ∃ c, s.pipe = [wanted p memory c] ∧ ∀ d, s.phase d = .written ↔ d = c

section

variable (h : Sole p memory s)
include h

/-- A call that has not written moves on without writing, or returns its own word or an error. -/
theorem Sole.set {c : ℕ} {phase : Phase} (hc : s.phase c ≠ .written) (hw : phase ≠ .written)
    (hv : ∀ val, phase = .returned (some val) → val = wanted p memory c) : Sole p memory (s.set c phase) := by
  have hother : ∀ d, (s.set c phase).phase d = .written ↔ s.phase d = .written := by
    intro d
    by_cases hd : d = c
    · simp [Accessor.set, hd, hw, hc]
    · simp [Accessor.set, Function.update_of_ne hd]
  refine ⟨fun d val hd => ?_, ?_⟩
  · by_cases hdc : d = c
    · subst hdc
      exact hv val (by simpa [Accessor.set] using hd)
    · exact h.own d val (by simpa [Accessor.set, Function.update_of_ne hdc] using hd)
  · simp only [ne_eq, hother]
    exact h.pipe

theorem Sole.enter (hc : s.phase e.call ≠ .written) : Sole p memory (enter p memory e s) := by
  have ready : Sole p memory {s with pipeReady := true} := ⟨h.own, h.pipe⟩
  unfold LocalAccess.enter
  dsimp only
  split_ifs
  · exact h.set hc nofun fun val hv => by cases hv; rfl
  · exact h.set hc nofun nofun
  · exact h.set hc nofun nofun
  · exact h.set hc nofun fun val hv => by cases hv; rfl
  · exact ready.set hc nofun nofun
  · exact h.set hc nofun nofun

theorem Sole.write (hp : s.pipe = []) :
    Sole p memory ({s with pipe := s.pipe ++ [wanted p memory e.call]}.set e.call .written) := by
  have hno : ∀ d, s.phase d ≠ .written := by
    obtain ⟨-, hno⟩ | ⟨c, hs, -⟩ := h.pipe
    · exact hno
    · exact absurd (hp.symm.trans hs) nofun
  refine ⟨fun d val hd => ?_, .inr ⟨e.call, by simp [Accessor.set, hp], fun d => ?_⟩⟩ <;> by_cases hdc : d = e.call
  · simp [Accessor.set, hdc] at hd
  · exact h.own d val (by simpa [Accessor.set, Function.update_of_ne hdc] using hd)
  · simp [Accessor.set, hdc]
  · simp [Accessor.set, hdc, hno d]

/-- The call that reads is the one that has written, and the word is its own. -/
theorem Sole.read (hc : s.phase e.call = .written) :
    s.pipe = [wanted p memory e.call] ∧
      Sole p memory ({s with pipe := []}.set e.call (.returned (some (wanted p memory e.call)))) := by
  obtain ⟨-, hno⟩ | ⟨c, hs, hw⟩ := h.pipe
  · exact absurd hc (hno _)
  · cases (hw _).mp hc
    refine ⟨hs, fun d val hd => ?_, .inl ⟨rfl, fun d hd => ?_⟩⟩ <;> by_cases hdc : d = e.call
    · simpa [Accessor.set, hdc, eq_comm] using hd
    · exact h.own d val (by simpa [Accessor.set, Function.update_of_ne hdc] using hd)
    · simp [Accessor.set, hdc] at hd
    · exact hdc ((hw d).mp (by simpa [Accessor.set, Function.update_of_ne hdc] using hd))

theorem Sole.step (ha : Alone s e) : Sole p memory (accessMem p memory e s) := by
  unfold accessMem
  cases hc : s.phase e.call with
  | start => exact h.enter (by simp [hc])
  | piped =>
    dsimp only
    split_ifs
    · exact h.write (ha hc)
    · exact h.set (by simp [hc]) nofun nofun
  | written =>
    obtain ⟨hs, hr⟩ := h.read hc
    simpa only [hs] using hr
  | returned val => exact h

end

end Runs

/-- In every interleaving in which a word is written only when no other is unread, each call that succeeds returns the
word at its own address. -/
theorem ownWords_of_alone (events : List Event) (h : Every (accessMem p memory) Alone events {}) :
    OwnWords p memory events := by
  have hnew : Sole p memory {} := by
    refine ⟨fun _ _ h => ?_, .inl ⟨rfl, fun _ h => ?_⟩⟩
    all_goals cases h
  exact (run_invariant_of_every (Sole p memory) (fun _ _ hs ha => hs.step ha) hnew h).own

/-- Call `c` asks for the address `c + 1` pages up, all of them readable and outside an empty stack. -/
def pages : Process where
  call c := ⟨0x1000 * (BitVec.ofNat 64 c + 1), true, 0, 0⟩
  readable _ := true
  room := 8192

def steps (calls : List ℕ) : List Event := calls.map (⟨·, true⟩)

/-- Both calls have entered before the first one writes; they write and read in turn. -/
theorem inTurn_own : OwnWords pages id (steps [0, 1, 0, 0, 1, 1]) ∧
    (run (accessMem pages id) (steps [0, 1, 0, 0, 1, 1]) {}).phase 1 = .returned (some 0x2000) :=
  ⟨ownWords_of_alone _ _ _ (by decide), by decide⟩

/-- The second call writes before the first one, and reads after it. -/
theorem interleaved_swap : ¬OwnWords pages id (steps [0, 1, 1, 0, 0, 1]) := by
  intro ho
  have := ho 0 0x2000 rfl
  exact absurd this (by decide)

end Faultloggerd.LocalAccess
