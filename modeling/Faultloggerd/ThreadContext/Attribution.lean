import Faultloggerd.ThreadContext.Collector

/-! # Whose context is returned

The shared object has no number of the call, so a late handler of an earlier call stores what the current call then
takes for its answer. As long as late handlers keep out, a call that returns true has the context of its own thread.
-/
namespace Faultloggerd.ThreadContext
open Function State Foundations.EventRuns

/-- The registers and every stack byte were stored by the handler of the current call on its thread. -/
structure Answered (s : State) : Prop where
  registers : s.mix.registersBy = some ⟨s.call, s.tid⟩
  stack : ∀ i < s.mix.stackCopiedLen, (s.mix.stackBuf i).storedBy = some ⟨s.call, s.tid⟩

/-- When the call returns true, what is stored is its answer. -/
def Attributed (s : State) (e : Event) : Prop :=
  e = .collect → s.collector = .woken → s.mix.checkStatusValidate .copySuccess s.tid = true → Answered s

def Point.active : Point → Bool
  | .checked | .ranged | .registered | .tested | .sized _ => true
  | .unsent | .pending | .notified | .returned => false

/-- While a call is in progress, no handler of an earlier one gets on, unless to find that the request is not for it. -/
def Punctual (s : State) (e : Event) : Prop :=
  ∀ c env, e = .handle c env → c ≠ s.call → s.collector.inCall = true → (s.handlers c).point.active = false ∧
    ((s.handlers c).point = .pending → s.mix.checkStatusValidate .waitCtx (s.handlers c).tid=false)

theorem punctual_handle (s : State) (c : ℕ) (env : Surroundings) : Punctual s (.handle c env) ↔
    (c ≠ s.call → s.collector.inCall = true → (s.handlers c).point.active = false ∧
      ((s.handlers c).point = .pending → s.mix.checkStatusValidate .waitCtx (s.handlers c).tid = false)) := by
  refine ⟨fun h => h c env rfl, fun h d env' he => ?_⟩
  cases he
  exact h

instance (s : State) : ∀ e, Decidable (Punctual s e)
  | .handle c env => decidable_of_iff _ (punctual_handle s c env).symm
  | .setStackRang _ | .release | .start _ | .signalRequestThread _ | .collect | .timeout | .spurious => .isTrue nofun

def Point.stored : Point → Bool
  | .registered | .tested | .sized _ | .notified => true
  | .unsent | .pending | .checked | .ranged | .returned => false

structure InCall (s : State) : Prop where
  own : (s.handlers s.call).tid = s.tid
  registers : (s.handlers s.call).point.stored = true → s.mix.registersBy = some ⟨s.call, s.tid⟩
  success : s.mix.status = .copySuccess → Answered s

def Inv (s : State) : Prop := s.collector.inCall = true → InCall s

section Steps
variable {s : State} {getpid : ℤ}

theorem move_self (c : ℕ) (point : Point) : (s.move c point).handlers c=⟨(s.handlers c).tid, point⟩ := update_self ..

theorem move_of_ne {c d : ℕ} (point : Point) (hd : d≠c) : (s.move c point).handlers d=s.handlers d :=
  update_of_ne hd ..

theorem inCall_notify (c : Collector) : c.notify.inCall=c.inCall := by
  cases c <;> rfl

section

variable (h : InCall s)
include h

theorem InCall.move {point : Point}
    (hp : point.stored=true → (s.handlers s.call).point.stored=true) : InCall (s.move s.call point) where
  own := by
    change ((s.move s.call point).handlers s.call).tid=_
    rw [move_self]
    exact h.own
  registers hstored := by
    change ((s.move s.call point).handlers s.call).point.stored=true at hstored
    rw [move_self] at hstored
    exact h.registers (hp hstored)
  success hs := ⟨(h.success hs).registers, (h.success hs).stack⟩

theorem InCall.move_other {c : ℕ} (hc : c≠s.call) (point : Point) : InCall (s.move c point) where
  own := by
    change ((s.move c point).handlers s.call).tid=_
    rw [move_of_ne point hc.symm]
    exact h.own
  registers hstored := by
    change ((s.move c point).handlers s.call).point.stored=true at hstored
    rw [move_of_ne point hc.symm] at hstored
    exact h.registers hstored
  success hs := ⟨(h.success hs).registers, (h.success hs).stack⟩

theorem InCall.stackTop (stackTop : ℕ) : InCall {s with mix := {s.mix with stackTop := stackTop}} :=
  ⟨h.own, h.registers, fun hs => ⟨(h.success hs).registers, (h.success hs).stack⟩⟩

theorem InCall.collector (c : Collector) : InCall {s with collector := c} :=
  ⟨h.own, h.registers, fun hs => ⟨(h.success hs).registers, (h.success hs).stack⟩⟩

theorem InCall.copyRegister (ctx : Registers) : InCall
    ({s with mix := s.mix.copyRegister ⟨s.call, (s.handlers s.call).tid⟩ ctx}.move s.call .registered) where
  own := by
    change ((s.move s.call .registered).handlers s.call).tid=_
    rw [move_self]
    exact h.own
  registers _ := by
    change some (⟨s.call, (s.handlers s.call).tid⟩ : Origin)=some ⟨s.call, s.tid⟩
    rw [h.own]
  success hs := by
    refine ⟨?_, (h.success hs).stack⟩
    change some (⟨s.call, (s.handlers s.call).tid⟩ : Origin)=some ⟨s.call, s.tid⟩
    rw [h.own]

theorem InCall.copyStackBuf (hs : (s.handlers s.call).point.stored=true) (cpySz readable : ℕ)
    (mem : ℕ → UInt8) (c : Collector) : InCall ({s with
      mix := s.mix.copyStackBuf ⟨s.call, (s.handlers s.call).tid⟩ cpySz readable mem
      collector := c}.move s.call .notified) where
  own := by
    change ((s.move s.call .notified).handlers s.call).tid=_
    rw [move_self]
    exact h.own
  registers _ := h.registers hs
  success _ := by
    refine ⟨h.registers hs, fun i hi => ?_⟩
    change i< min readable (min s.mix.stackBufSize cpySz) at hi
    change (if i< min readable (min s.mix.stackBufSize cpySz) then _ else _ : StackByte).storedBy=some ⟨s.call, s.tid⟩
    rw [if_pos hi, h.own]

theorem InCall.handle (env : Surroundings) : InCall (s.handle getpid s.call env) := by
  rw [State.handle]
  split
  case _ hat =>
    split_ifs <;> exact h.move nofun
  case _ hat =>
    split_ifs
    · exact h.move nofun
    · split
      · exact h.move nofun
      · exact (h.stackTop _).move nofun
  case _ hat => exact h.copyRegister env.context
  case _ hat =>
    split_ifs
    · exact h.move nofun
    · exact h.move fun _ => by rw [hat]; rfl
  case _ hat => exact h.move fun _ => by rw [hat]; rfl
  case _ cpySz hat => exact h.copyStackBuf (by rw [hat]; rfl) cpySz env.readable env.memory _
  all_goals exact h

theorem InCall.handle_other {c : ℕ} (hc : c≠s.call) (env : Surroundings) (ha : (s.handlers c).point.active=false)
    (hc1 : (s.handlers c).point=.pending → s.mix.checkStatusValidate .waitCtx (s.handlers c).tid=false) :
    InCall (s.handle getpid c env) := by
  rw [State.handle]
  split
  case _ hat =>
    rw [if_neg (by rw [hc1 hat]; simp)]
    exact h.move_other hc .returned
  all_goals first
    | exact h
    | (rename_i hat; rw [hat] at ha; cases ha)

end

theorem handle_collector (c : ℕ) (env : Surroundings) :
    (s.handle getpid c env).collector.inCall=s.collector.inCall := by
  rw [handle]
  split
  case h_6 => exact inCall_notify s.collector
  all_goals first
    | rfl
    | (split_ifs <;> first | rfl | (split <;> rfl))

theorem Inv.handle (h : Inv s) {c : ℕ} {env : Surroundings} (hc3 : Punctual s (.handle c env)) :
    Inv (s.handle getpid c env) := by
  intro hc1
  rw [handle_collector] at hc1
  by_cases hc : c=s.call
  · rw [hc]
    exact (h hc1).handle env
  · obtain ⟨ha, hc2⟩ := hc3 c env rfl hc hc1
    exact (h hc1).handle_other hc env ha hc2

theorem Inv.start (h : Inv s) (tid : ℤ) : Inv (s.start tid) := by
  rw [State.start]
  split_ifs with hc
  · exact h
  · intro _
    refine ⟨?_, fun hs => ?_, nofun⟩
    · change (update s.handlers (s.call+1) _ (s.call+1)).tid=tid
      rw [update_self]
    · change (update s.handlers (s.call+1) _ (s.call+1)).point.stored=true at hs
      rw [update_self] at hs
      cases hs

theorem Inv.signalRequestThread (h : Inv s) (sent : Bool) : Inv (s.signalRequestThread sent) := by
  rw [State.signalRequestThread]
  split_ifs with hs hs1
  · intro _
    have hc := h (by rw [hs]; rfl)
    exact (hc.collector .signalled).move nofun
  · nofun
  · exact h

theorem Inv.collect (h : Inv s) : Inv s.collect := by
  rw [State.collect]
  split
  case _ hat => exact fun _ => (h (by rw [hat]; rfl)).collector _
  case _ hat => exact fun _ => (h (by rw [hat]; rfl)).collector _
  case _ => nofun
  case _ => exact h

end Steps

theorem inv_step (getpid : ℤ) (s : State) (e : Event) (h : Inv s) (hc1 : Punctual s e) : Inv (step getpid e s) := by
  cases e with
  | setStackRang stackTop | release =>
    rw [step]
    split_ifs with hc
    · exact h
    · exact fun h => absurd h hc
  | start tid => exact h.start tid
  | signalRequestThread sent => exact h.signalRequestThread sent
  | collect => exact h.collect
  | timeout =>
    rw [step, timeout]
    split
    · nofun
    · exact h
  | spurious =>
    rw [step, spurious]
    split
    case _ hat => exact fun _ => (h (by rw [hat]; rfl)).collector _
    case _ => exact h
  | handle c env => exact h.handle hc1

theorem Inv.attributed {s : State} (h : Inv s) (e : Event) : Attributed s e := by
  intro _ hw hc
  refine (h (by rw [hw]; rfl)).success ?_
  rw [LocalThreadContextMix.checkStatusValidate, decide_eq_true_iff] at hc
  exact hc.1

/-- In every interleaving in which no late handler meets a later call, every call that returns true has its answer. -/
theorem context_attributed (getpid : ℤ) (events : List Event) (h : Every (step getpid) Punctual events .initial) :
    Every (step getpid) Attributed events .initial :=
  every_imp Inv (inv_step getpid) nofun (fun _ e hs _ => hs.attributed e) h

def onThread (sp : ℕ) : Surroundings := ⟨some (sp+64), ⟨1, sp, 2, 3⟩, 64, fun _ => 0⟩

/-- The call for thread 7 times out before its handler runs. During the call for thread 8 it runs and finds that the
request is not for it. -/
def answeredCall : List Event :=
  [.start 7, .signalRequestThread true, .collect, .timeout, .release,
    .start 8, .signalRequestThread true, .collect, .handle 1 (onThread 4096)] ++
    List.replicate 6 (Event.handle 2 (onThread 8192)) ++ [Event.collect]

theorem answered_call_attributed : Every (step 5) Attributed (answeredCall ++ [Event.collect]) .initial ∧
    (run (step 5) (answeredCall ++ [Event.collect]) .initial).tid = 8 ∧
    (run (step 5) (answeredCall ++ [Event.collect]) .initial).collector = .returned true :=
  ⟨context_attributed 5 _ (by decide), by decide, by decide⟩

/-- The handler of thread 7 is past its check when the first call times out, and stores its registers after those of
thread 8, which the second call asks for. -/
def lateHandler : List Event :=
  [.start 7, .signalRequestThread true, .collect, .handle 1 (onThread 4096), .timeout, .release,
    .start 8, .signalRequestThread true, .collect, .handle 2 (onThread 8192), .handle 2 (onThread 8192),
    .handle 2 (onThread 8192), .handle 1 (onThread 4096), .handle 1 (onThread 4096), .handle 2 (onThread 8192),
    .handle 2 (onThread 8192), .handle 2 (onThread 8192), .collect]

theorem foreign_registers_returned : ¬Every (step 5) Attributed (lateHandler++[Event.collect]) .initial := by
  intro h
  rw [every_append] at h
  have := (h.2.1 rfl (by decide) (by decide)).registers
  exact absurd this (by decide)

end Faultloggerd.ThreadContext
