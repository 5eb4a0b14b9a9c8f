import Faultloggerd.Foundations.EventRuns
import Faultloggerd.Foundations.NestedFrames
import Mathlib.Data.Int.Notation

/-! # Which signals reach the dump (`dfx_signal_handler.c`)

A signal can arrive on any thread at any time, also while that thread is handling another one. `DFX_SignalHandler`
lets one invocation at a time into its section: it returns when its own thread is the recorded one, locks a mutex that
refuses its owner, records the thread and the signal, dumps, and undoes the first two. An invocation here is a frame
on its thread's stack, at one point of the function, and every step moves the top frame of one thread by one point.
-/
namespace Faultloggerd.SignalHandler
open List Foundations.EventRuns Foundations.NestedFrames Function

def sigpipe : ℕ := 13
def sigdump : ℕ := 35
def sigleakStack : ℕ := 42
def sigdumpCodeMinidump : ℤ := 7
def dumpTypeRemote : ℤ := -1
def dumpTypeRemoteJson : ℤ := -2
def sigleakStackFdsan : ℕ := 1
def sigleakStackJemalloc : ℕ := 2
def sigleakStackArktsEnvsan : ℕ := 4

structure Siginfo where
  code : ℤ
  /-- The message that the signal carries is there and has not timed out. -/
  debugMessage : Bool

structure Invocation where
  signo : ℕ
  si : Option Siginfo

def isDumpSignal (signo : ℕ) : Bool := signo == sigdump || signo == sigleakStack

def isPrintLogSignal (signo : ℕ) : Bool := signo == sigpipe

def preSigdumpCheck (signo : ℕ) (si : Siginfo) : Bool :=
  if signo ≠ sigdump then true
  else if si.code = -sigdumpCodeMinidump then false
  else if si.code ≠ dumpTypeRemote ∧ si.code ≠ dumpTypeRemoteJson then false
  else true

def fillDebugMessageLocked (signo : ℕ) (si : Siginfo) : Bool :=
  let code := si.code.natAbs
  if signo ≠ sigleakStack ∨
      code ≠ sigleakStackFdsan ∧ code ≠ sigleakStackJemalloc ∧ code ≠ sigleakStackArktsEnvsan then true
  else si.debugMessage

def fillDumpRequest (i : Invocation) : Bool :=
  match i.si with
  | none => true
  | some si => if i.signo = sigleakStack then fillDebugMessageLocked i.signo si else true

inductive Point where
  | enter | checkTid | tryLock | setTid | checkPrev | setPrev | fill | dispatch | dispatching | clearTid | unlock
deriving DecidableEq

structure Frame where
  invocation : Invocation
  point : Point

def Point.inside : Point → Bool
  | .enter | .checkTid | .tryLock => false
  | _ => true

def Frame.inside (f : Frame) : Bool := f.point.inside

structure Handler where
  signalHandlerMutex : Option ℕ
  handlingTid : ℕ
  prevHandledSignal : ℕ
  frames : ℕ → List Frame
  /-- The threads and signals for which `DispatchDumpRequest` was started, oldest first. -/
  started : List (ℕ×ℕ)

namespace Handler

def initial : Handler where
  signalHandlerMutex := none
  handlingTid := 0
  prevHandledSignal := sigdump
  frames _ := []
  started := []

def setFrames (t : ℕ) (l : List Frame) (s : Handler) : Handler :=
  {s with frames := Function.update s.frames t l}

/-- The top frame of `t` takes its next step; `rest` are the frames under it. -/
def advance (t : ℕ) (f : Frame) (rest : List Frame) (s : Handler) : Handler :=
  let goto := fun point => s.setFrames t ({f with point := point} :: rest)
  let leave := s.setFrames t rest
  match f.point with
  | .enter =>
    match f.invocation.si with
    | none => leave
    | some si => if preSigdumpCheck f.invocation.signo si then goto .checkTid else leave
  | .checkTid => if t = s.handlingTid then leave else goto .tryLock
  | .tryLock =>
    match s.signalHandlerMutex with
    | none => {goto .setTid with signalHandlerMutex := some t}
    -- the owner is refused at once, any other thread waits
    | some u => if u = t then leave else s
  | .setTid => {goto .checkPrev with handlingTid := t}
  | .checkPrev =>
    if !isDumpSignal s.prevHandledSignal && !isPrintLogSignal s.prevHandledSignal then goto .clearTid
    else goto .setPrev
  | .setPrev => {goto .fill with prevHandledSignal := f.invocation.signo}
  | .fill => if fillDumpRequest f.invocation then goto .dispatch else goto .clearTid
  | .dispatch => {goto .dispatching with started := s.started ++ [(t, f.invocation.signo)]}
  | .dispatching => goto .clearTid
  | .clearTid => {goto .unlock with handlingTid := 0}
  | .unlock => {leave with signalHandlerMutex := if s.signalHandlerMutex=some t then none else s.signalHandlerMutex}

end Handler

inductive Event where
  | signal (t : ℕ) (i : Invocation)
  | advance (t : ℕ)
  /-- The wait for the mutex runs out of time, or the clock cannot be read. -/
  | giveUp (t : ℕ)

def step : Event → Handler → Handler
  | .signal t i, s => s.setFrames t (⟨i, .enter⟩ :: s.frames t)
  | .advance t, s =>
    match s.frames t with
    | [] => s
    | f :: rest => s.advance t f rest
  | .giveUp t, s =>
    match s.frames t with
    | [] => s
    | f :: rest => if f.point = .tryLock then s.setFrames t rest else s

def Handler.Dispatching (s : Handler) (t : ℕ) : Prop := ∃ f ∈ s.frames t, f.point = .dispatching

def isLastSignal (signo : ℕ) : Bool := !isDumpSignal signo && !isPrintLogSignal signo

/-- One thread dispatches at a time, and not twice; nothing is dispatched after a crash signal; the lock is given back.
-/
structure DispatchLaw (s : Handler) : Prop where
  exclusive : ∀ t u, s.Dispatching t → s.Dispatching u → t = u
  notReentered : ∀ t, (s.frames t).countP (fun f => f.point = .dispatching) ≤ 1
  never_again : ∀ before t signo after, s.started = before++(t, signo)::after →
    signo ≠ sigdump → signo ≠ sigleakStack → signo ≠ sigpipe → after = []
  idle : (∀ t, s.frames t=[]) → s.signalHandlerMutex = none ∧ s.handlingTid = 0

def Holds (s : Handler) (t : ℕ) (f : Frame) : Prop :=
  match f.point with
  | .enter | .checkTid | .tryLock => True
  | .setTid | .unlock => s.handlingTid = 0
  | .checkPrev | .clearTid => s.handlingTid = t
  | .setPrev => s.handlingTid = t ∧ isLastSignal s.prevHandledSignal = false
  | .fill | .dispatch => s.handlingTid = t ∧ s.prevHandledSignal = f.invocation.signo ∧
      ∀ e ∈ s.started, isLastSignal e.2 = false
  | .dispatching => s.handlingTid = t

structure Inv (s : Handler) : Prop where
  held : HeldBy Frame.inside s.frames s.signalHandlerMutex
  free : s.signalHandlerMutex = none → s.handlingTid = 0
  holds : ∀ t, ∀ f ∈ s.frames t, Holds s t f
  /-- While the recorded signal allows another dump, none was started for a last signal. -/
  open_ : isLastSignal s.prevHandledSignal = false → ∀ e ∈ s.started, isLastSignal e.2 = false
  last : ∀ before e after, s.started = before++e::after → isLastSignal e.2 = true → after = []

theorem holds_of_outside {s : Handler} {t : ℕ} {f : Frame} (h : f.inside=false) : Holds s t f := by
  obtain ⟨i, point⟩ := f
  cases point with
  | enter | checkTid | tryLock => trivial
  | _ => cases h

theorem inv_initial : Inv Handler.initial where
  held _ := rfl
  free _ := rfl
  holds _ _ hf := by cases hf
  open_ _ _ he := by cases he
  last before e after h := by
    have := congrArg List.length h
    simp [Handler.initial] at this

section Steps
variable {s s' : Handler} {t : ℕ} {f g : Frame} {rest : List Frame}

variable (h : Inv s)
include h

theorem Inv.setFrames {l : List Frame}
    (hh : HeldBy Frame.inside (update s.frames t l) s.signalHandlerMutex)
    (hn : ∀ f∈l, f∈s.frames t ∨ f.inside=false) : Inv (s.setFrames t l) where
  held := hh
  free := h.free
  open_ := h.open_
  last := h.last
  holds := (forall_update_iff s.frames fun u l => ∀ f∈l, Holds s u f).mpr
    ⟨fun f hf => (hn f hf).elim (h.holds t f) holds_of_outside, fun u _ => h.holds u⟩

section

variable (ht : s.frames t=f::rest)
include ht

theorem Inv.pop (hf : f.inside=false) : Inv (s.setFrames t rest) :=
  h.setFrames (heldBy_pop h.held ht hf) fun _ hg => .inl (ht ▸ mem_cons_of_mem f hg)

theorem Inv.moveOutside (hf : f.inside=false)
    (hg : g.inside=false) : Inv (s.setFrames t (g::rest)) := by
  refine h.setFrames (heldBy_replace h.held ht (hg.trans hf.symm)) fun e he => ?_
  rcases mem_cons.mp he with rfl | he
  · exact .inr hg
  · exact .inl (ht ▸ mem_cons_of_mem f he)

/-- A step of the frame inside: every other frame is outside, so only the new frame has something to keep. -/
theorem Inv.moveInside (hf : f.inside=true)
    (hf1 : s'.frames=update s.frames t (g::rest))
    (hm : s'.signalHandlerMutex=s.signalHandlerMutex) (hg : g.inside=true) (hh : Holds s' t g)
    (ho2 : isLastSignal s'.prevHandledSignal=false → ∀ e∈s'.started, isLastSignal e.2=false)
    (hl : ∀ before e after, s'.started=before++e::after → isLastSignal e.2=true → after=[]) : Inv s' where
  held := by
    rw [hf1, hm]
    exact heldBy_replace h.held ht (hg.trans hf.symm)
  free hn := by
    have ho1 := heldBy_owner h.held (ht ▸ mem_cons_self : f∈s.frames t) hf
    rw [hm, ho1] at hn
    cases hn
  open_ := ho2
  last := hl
  holds u e he := by
    have ho := heldBy_others (u := u) (g := e) h.held ht hf
    rw [hf1] at he
    rw [update_apply] at he ho
    split_ifs at he ho with hu
    · rcases mem_cons.mp he with rfl | he
      · exact hu ▸ hh
      · exact holds_of_outside (ho he)
    · exact holds_of_outside (ho he)

theorem Inv.release (hp : f.point=.unlock) :
    Inv {s.setFrames t rest with signalHandlerMutex := none} := by
  have hin : f.inside=true := by rw [Frame.inside, hp]; rfl
  have ho : ∀ u, ∀ g∈update s.frames t rest u, g.inside=false := fun u g hg => heldBy_others h.held ht hin hg
  refine ⟨heldBy_leave h.held ht hin, fun _ => ?_, fun u g hg => holds_of_outside (ho u g hg), h.open_, h.last⟩
  have hf := h.holds t f (ht ▸ mem_cons_self)
  rwa [Holds, hp] at hf

theorem Inv.acquire (hm : s.signalHandlerMutex=none) :
    Inv {s.setFrames t ({f with point := .setTid}::rest) with signalHandlerMutex := some t} := by
  have hh : HeldBy Frame.inside s.frames none := hm ▸ h.held
  have hin : ({f with point := .setTid} : Frame).inside=true := rfl
  have hn1 := heldBy_enter (g := {f with point := .setTid}) hh ht hin
  refine ⟨hn1, nofun, fun u g hg => ?_, h.open_, h.last⟩
  by_cases hg' : g.inside=true
  · -- the only frame inside is the new one
    change g∈update s.frames t ({f with point := .setTid} :: rest) u at hg
    have hn : g ∉ s.frames u := fun hm1 => countP_eq_zero.mp (hh u) g hm1 hg'
    rw [update_apply] at hg
    split_ifs at hg with hu
    · rcases mem_cons.mp hg with rfl | hg
      · exact h.free hm
      · exact absurd (hu ▸ ht ▸ mem_cons_of_mem f hg) hn
    · exact absurd hg hn
  · exact holds_of_outside (by simpa using hg')

end

end Steps

theorem inv_advance {s : Handler} (h : Inv s) {t : ℕ} {f : Frame} {rest : List Frame}
    (ht : s.frames t=f::rest) : Inv (s.advance t f rest) := by
  have hf := h.holds t f (ht ▸ mem_cons_self)
  obtain ⟨i, point⟩ := f
  cases point with
  | enter =>
    rw [Handler.advance]
    dsimp only
    split
    · exact h.pop ht rfl
    · split_ifs
      · exact h.moveOutside ht rfl rfl
      · exact h.pop ht rfl
  | checkTid =>
    rw [Handler.advance]
    dsimp only
    split_ifs
    · exact h.pop ht rfl
    · exact h.moveOutside ht rfl rfl
  | tryLock =>
    rw [Handler.advance]
    dsimp only
    split
    · rename_i hm
      exact h.acquire ht hm
    · split_ifs
      · exact h.pop ht rfl
      · exact h
  | setTid | clearTid => exact h.moveInside ht rfl rfl rfl rfl rfl h.open_ h.last
  | checkPrev =>
    rw [Handler.advance]
    dsimp only
    split_ifs with hp
    · exact h.moveInside ht rfl rfl rfl rfl hf h.open_ h.last
    · have ho : isLastSignal s.prevHandledSignal=false := by simpa [isLastSignal] using hp
      exact h.moveInside ht rfl rfl rfl rfl ⟨hf, ho⟩ h.open_ h.last
  | setPrev =>
    have hn := h.open_ hf.2
    exact h.moveInside ht rfl rfl rfl rfl ⟨hf.1, rfl, hn⟩ (fun _ => hn) h.last
  | fill =>
    rw [Handler.advance]
    dsimp only
    split_ifs
    · exact h.moveInside ht rfl rfl rfl rfl hf h.open_ h.last
    · exact h.moveInside ht rfl rfl rfl rfl hf.1 h.open_ h.last
  | dispatch =>
    obtain ⟨ht1, hp, hn⟩ := hf
    refine h.moveInside ht rfl rfl rfl rfl ht1 (fun ho e he => ?_) fun before e after hs hl => ?_
    · rcases mem_append.mp he with he | he
      · exact hn e he
      · rw [mem_singleton.mp he]
        change isLastSignal s.prevHandledSignal=false at ho
        rwa [hp] at ho
    · -- a last signal can only be the entry just added
      by_contra ha
      obtain ⟨front, b, rfl⟩ := eq_nil_or_concat after |>.resolve_left ha
      have ho2 : s.started=before++e::front := by
        rw [concat_eq_append, ←cons_append, ←append_assoc] at hs
        exact (append_inj' hs rfl).1
      have := hn e (by simp [ho2])
      rw [hl] at this
      cases this
  | dispatching => exact h.moveInside ht rfl rfl rfl rfl hf h.open_ h.last
  | unlock =>
    have ho1 := heldBy_owner h.held (ht ▸ mem_cons_self : (⟨i, .unlock⟩ : Frame)∈s.frames t) rfl
    rw [Handler.advance]
    rw [if_pos ho1]
    exact h.release ht rfl

theorem inv_step (s : Handler) (e : Event) (h : Inv s) : Inv (step e s) := by
  cases e with
  | signal t i =>
    refine h.setFrames (heldBy_push h.held rfl) fun f hf => ?_
    rcases mem_cons.mp hf with rfl | hf
    · exact .inr rfl
    · exact .inl hf
  | advance t =>
    rw [step]
    split
    · exact h
    · rename_i f rest ht
      exact inv_advance h ht
  | giveUp t =>
    rw [step]
    split
    · exact h
    · rename_i f rest ht
      split_ifs with hp
      · exact h.pop ht (by rw [Frame.inside, hp]; rfl)
      · exact h

theorem inside_of_dispatching {f : Frame} (h : f.point=.dispatching) : f.inside=true := by
  rw [Frame.inside, h]
  rfl

/-- The law holds after every sequence of signals and steps of the threads. -/
theorem dispatch_law (events : List Event) : DispatchLaw (run step events Handler.initial) := by
  have h : Inv (run step events Handler.initial) := run_invariant Inv inv_step inv_initial events
  refine ⟨?_, fun t => ?_, ?_, fun hi => ?_⟩
  · rintro t u ⟨f, hf, hfp⟩ ⟨g, hg, hgp⟩
    have ht := heldBy_owner h.held hf (inside_of_dispatching hfp)
    have hu := heldBy_owner h.held hg (inside_of_dispatching hgp)
    rw [ht] at hu
    exact Option.some.inj hu
  · refine Nat.le_trans (countP_mono_left fun f _ hf => ?_) (heldBy_count_le h.held t)
    exact inside_of_dispatching (by simpa using hf)
  · intro before t signo after hs hd hl hp
    apply h.last before (t, signo) after hs
    simp [isLastSignal, isDumpSignal, isPrintLogSignal, hd, hl, hp]
  · have hm : (run step events Handler.initial).signalHandlerMutex=none := by
      cases ho : (run step events Handler.initial).signalHandlerMutex with
      | none => rfl
      | some t =>
        have hh := h.held
        rw [ho] at hh
        have := hh.1
        rw [hi t] at this
        cases this
    exact ⟨hm, h.free hm⟩

example : (run step (.signal 7 ⟨11, some ⟨0, true⟩⟩::List.replicate 8 (.advance 7)) Handler.initial).started =
    [(7, 11)] := rfl

end Faultloggerd.SignalHandler
