import Faultloggerd.DumpCatcher.Catcher

/-! # What a call learns from the calls before it

Two objects with different histories give the same outcome in the same world, if the slow policy answers the same and
the call reports no kernel stack that it has not fetched itself.
-/
namespace Faultloggerd.DumpCatcher
open Foundations Polling Option Prod

inductive Call where
  | dumpCatch (w : World) (request : Request)
  | dumpCatchWithTimeout (w : World) (request : Request)

namespace Catcher

def perform (s : Catcher) : Call → Option Catcher
  | .dumpCatch w request => (s.dumpCatch w request).map Prod.snd
  | .dumpCatchWithTimeout w request => (s.dumpCatchWithTimeout w request).map Prod.snd

def after (calls : List Call) : Option Catcher :=
  calls.foldlM perform initial

def slowAnswer (calls : List Call) (w : World) (request : Request) : Option Bool :=
  (after calls).map (inSlowPeriod request.pid w.slowAsked)

def outcome (calls : List Call) (w : World) (request : Request) : Option Outcome :=
  (after calls).bind fun s => (s.dumpCatchWithTimeout w request).map Prod.fst

end Catcher

/-- The poll ends with a result that needs no kernel stack, or the collector was told to start before it failed. -/
def PollsOwnStack (w : World) (timeout : ℤ) : Prop :=
  0 < timeout ∧ (timeout<1000 ∨ w.bufFd=true ∧ w.resFd=true ∧
    ∀ p, Polling.loop w.notifyStartCollect (w.startTime+timeout.toNat) w.polls .initial=some p →
      p.notified≠none ∨ p.pollRet = .ok ∨ p.pollRet = .noParseSymbol ∨ p.pollRet = .parseSymbolTimeout)

/-- A refused dump comes with a kernel stack only for two users, and never without permission or process. -/
def RequestsOwnStack (w : World) (request : Request) : Prop :=
  match w.sdkDump with
  | .requestSuccess => PollsOwnStack w (request.timeout-w.sdkDumpTime)
  | .requestReject | .sdkDumpNoproc => False
  | _ => w.uid = hiviewUid ∨ w.uid = foundationUid

/-- The call succeeds, or fails after it has asked for the kernel stack itself. -/
structure ReportsOwnStack (w : World) (request : Request) (slow : Bool) : Prop where
  valid : ¬(request.pid≤0 ∨ request.tid<0 ∨ request.timeout≤waitGetKernelStackTimeout)
  there : ¬((!w.isLinuxKernel)=true ∧ w.exited=true)
  self : request.pid = w.currentPid → (w.dumpLocal request.msg).1 = true
  other : request.pid ≠ w.currentPid →
    isFrozen w.cgroup = some .timeoutKernelFrozen ∨ slow = true ∨ RequestsOwnStack w request

namespace Catcher

variable {w : World} {request : Request} {s1 s2 : Catcher}

def visible (dumped : DumpCatchErrorCode×Text×Catcher) : Outcome :=
  dealWithDumpCatchRet dumped.1 dumped.2.1 dumped.2.2

def NeedsNoStack (ret : DumpCatchErrorCode) : Prop :=
  ret = .esuccess ∨ ret = .dumpEsymbolNoParse ∨ ret = .dumpEsymbolParseTimeout ∨ ret = .threadCountOverlimit

variable {msg : Text}

theorem dealWithDumpCatchRet_of_stack {ret : DumpCatchErrorCode} (h : s1.stack=s2.stack) :
    dealWithDumpCatchRet ret msg s1=dealWithDumpCatchRet ret msg s2 := by
  rw [dealWithDumpCatchRet, dealWithDumpCatchRet, h]

theorem dealWithDumpCatchRet_of_needsNoStack {ret : DumpCatchErrorCode} (h : NeedsNoStack ret) :
    dealWithDumpCatchRet ret msg s1=dealWithDumpCatchRet ret msg s2 := by
  unfold NeedsNoStack at h
  rw [dealWithDumpCatchRet, dealWithDumpCatchRet, if_pos h, if_pos h]

variable {pollRet : DumpPollRes} {pipe : PipeData}

theorem pollCode_needsNoStack (h : pollRet=.ok ∨ pollRet=.noParseSymbol ∨ pollRet=.parseSymbolTimeout) :
    NeedsNoStack (pollCode w pollRet msg pipe).1 := by
  obtain rfl | rfl | rfl := h
  · unfold pollCode
    dsimp only
    split
    · exact .inr (.inr (.inr rfl))
    · exact .inl rfl
  · exact .inr (.inl rfl)
  · exact .inr (.inr (.inl rfl))

theorem pollCode_fails (h : ¬(pollRet=.ok ∨ pollRet=.noParseSymbol ∨ pollRet=.parseSymbolTimeout)) :
    (pollCode w pollRet msg pipe).2=true := by
  cases pollRet with
  | ok => exact absurd (.inl rfl) h
  | noParseSymbol => exact absurd (.inr (.inl rfl)) h
  | parseSymbolTimeout => exact absurd (.inr (.inr rfl)) h
  | returned =>
    unfold pollCode
    dsimp only
    split
    · rfl
    · split
      · rfl
      · split <;> rfl
  | fd | failed | timeout | init => rfl

variable (pid : ℤ)

theorem dealWithPollRet_code (pollRet : DumpPollRes) (msg : Text) (pipe : PipeData) (s : Catcher) :
    (s.dealWithPollRet w pid pollRet msg pipe).1=(pollCode w pollRet msg pipe).1 := by
  unfold dealWithPollRet
  dsimp only
  split <;> rfl

theorem dealWithPollRet_msg (pollRet : DumpPollRes) (msg : Text) (pipe : PipeData) (s1 s2 : Catcher) :
    (s1.dealWithPollRet w pid pollRet msg pipe).2.1=(s2.dealWithPollRet w pid pollRet msg pipe).2.1 := by
  unfold dealWithPollRet
  dsimp only
  cases (pollCode w pollRet msg pipe).2 <;> rfl

theorem dealWithPollRet_stack {pid : ℤ} (hf : (pollCode w pollRet msg pipe).2=true)
    (h : s1.notifyCollect=s2.notifyCollect) :
    (s1.dealWithPollRet w pid pollRet msg pipe).2.2.stack=(s2.dealWithPollRet w pid pollRet msg pipe).2.2.stack := by
  have hs : ∀ s : Catcher, (s.dealWithPollRet w pid pollRet msg pipe).2.2.stack =
      (s.dealAfterPollFail w msg pipe).2.stack := by
    intro s
    unfold dealWithPollRet
    rw [if_pos hf]
    split <;> rfl
  rw [hs, hs, dealAfterPollFail, dealAfterPollFail, h]

theorem visible_dealWithPollRet {pid : ℤ}
    (h : s1.notifyCollect=s2.notifyCollect ∨ pollRet=.ok ∨ pollRet=.noParseSymbol ∨ pollRet=.parseSymbolTimeout) :
    visible (s1.dealWithPollRet w pid pollRet msg pipe)=visible (s2.dealWithPollRet w pid pollRet msg pipe) := by
  unfold visible
  rw [dealWithPollRet_code, dealWithPollRet_code, dealWithPollRet_msg pid pollRet msg pipe s1 s2]
  by_cases he : pollRet=.ok ∨ pollRet=.noParseSymbol ∨ pollRet=.parseSymbolTimeout
  · exact dealWithDumpCatchRet_of_needsNoStack (pollCode_needsNoStack he)
  · have hn := h.resolve_right he
    exact dealWithDumpCatchRet_of_stack (dealWithPollRet_stack (pollCode_fails he) hn)

theorem visible_doDumpRemotePid {timeout : ℤ} (isJson : Bool) (msg : Text) (s1 s2 : Catcher)
    (h : PollsOwnStack w timeout) : (s1.doDumpRemotePid w timeout isJson msg >>= fun polled =>
        pure (polled.2.2.2.dealWithPollRet w pid polled.1 polled.2.1 polled.2.2.1)).map visible =
      (s2.doDumpRemotePid w timeout isJson msg >>= fun polled =>
        pure (polled.2.2.2.dealWithPollRet w pid polled.1 polled.2.1 polled.2.2.1)).map visible := by
  obtain ⟨hp, ho⟩ := h
  unfold doDumpRemotePid
  rw [if_neg (Int.not_le.mpr hp), if_neg (Int.not_le.mpr hp)]
  unfold doDumpRemotePoll
  by_cases hs : timeout<1000
  · rw [if_pos hs, if_pos hs]
    by_cases hf : (!w.bufFd || !w.resFd)=true
    · rw [if_pos hf, if_pos hf]
      exact congrArg some (visible_dealWithPollRet (.inl rfl))
    · rw [if_neg hf, if_neg hf]
      cases loop w.notifyStartCollect (w.startTime+timeout.toNat) w.polls .initial with
      | none => rfl
      | some p => exact congrArg some (visible_dealWithPollRet (.inl rfl))
  · obtain ⟨hb, hr, hn⟩ := ho.resolve_left hs
    rw [if_neg hs, if_neg hs, if_neg (by simp [hb, hr]), if_neg (by simp [hb, hr])]
    cases hl : loop w.notifyStartCollect (w.startTime+timeout.toNat) w.polls .initial with
    | none => rfl
    | some p =>
      refine congrArg some (visible_dealWithPollRet ?_)
      obtain hs1 | he := hn p hl
      · obtain ⟨notified, hs1⟩ := ne_none_iff_exists'.mp hs1
        refine .inl ?_
        rw [hs1]
        rfl
      · exact .inr he

theorem visible_dealWithSdkDumpRet {pid : ℤ} (hf : w.sdkDump≠.requestSuccess) (h : RequestsOwnStack w request) :
    visible (s1.dealWithSdkDumpRet w pid msg)=visible (s2.dealWithSdkDumpRet w pid msg) := by
  unfold RequestsOwnStack at h
  have hs (hu : w.uid=hiviewUid ∨ w.uid=foundationUid) : (s1.getKernelStack w).stack=(s2.getKernelStack w).stack := by
    rw [getKernelStack, getKernelStack, if_pos hu, if_pos hu]
  unfold dealWithSdkDumpRet
  cases hr : w.sdkDump with
  | requestSuccess => exact absurd hr hf
  | requestReject | sdkDumpNoproc =>
    rw [hr] at h
    exact h.elim
  | sdkDumpRepeat | sdkProcessCrashed | connectFailed | sendDataFailed | other =>
    rw [hr] at h
    exact dealWithDumpCatchRet_of_stack (hs h)

theorem visible_doDumpCatchRemote
    (hs : s1.inSlowPeriod request.pid w.slowAsked=s2.inSlowPeriod request.pid w.slowAsked)
    (hv : ¬(request.pid≤0 ∨ request.tid<0 ∨ request.timeout≤waitGetKernelStackTimeout))
    (h : isFrozen w.cgroup=some .timeoutKernelFrozen ∨ s1.inSlowPeriod request.pid w.slowAsked=true ∨
      RequestsOwnStack w request) :
    (s1.doDumpCatchRemote w request).map visible=(s2.doDumpCatchRemote w request).map visible := by
  unfold doDumpCatchRemote
  rw [if_neg hv, if_neg hv]
  by_cases hf : isFrozen w.cgroup=some .timeoutKernelFrozen
  · rw [if_pos hf, if_pos hf]
    exact congrArg some (dealWithDumpCatchRet_of_stack rfl)
  · rw [if_neg hf, if_neg hf, ←hs]
    by_cases hp : s1.inSlowPeriod request.pid w.slowAsked=true
    · rw [if_pos hp, if_pos hp]
      exact congrArg some (dealWithDumpCatchRet_of_stack rfl)
    · have ho := (h.resolve_left hf).resolve_left hp
      rw [if_neg hp, if_neg hp]
      by_cases hr : w.sdkDump=.requestSuccess
      · rw [if_neg (not_not.mpr hr), if_neg (not_not.mpr hr)]
        unfold RequestsOwnStack at ho
        rw [hr] at ho
        exact visible_doDumpRemotePid request.pid request.isJson request.msg _ _ ho
      · rw [if_pos hr, if_pos hr]
        exact congrArg some (visible_dealWithSdkDumpRet hr ho)

theorem visible_dumpOrFail (hs1 : s1.inSlowPeriod request.pid w.slowAsked=s2.inSlowPeriod request.pid w.slowAsked)
    (h : ReportsOwnStack w request (s1.inSlowPeriod request.pid w.slowAsked)) :
    (s1.dumpOrFail w request).map visible=(s2.dumpOrFail w request).map visible := by
  unfold dumpOrFail
  rw [if_neg h.valid, if_neg h.valid, if_neg h.there, if_neg h.there]
  by_cases hs : request.pid=w.currentPid
  · rw [if_pos hs, if_pos hs]
    dsimp only
    rw [if_pos (h.self hs)]
    exact congrArg some (dealWithDumpCatchRet_of_needsNoStack (.inl rfl))
  · rw [if_neg hs, if_neg hs]
    exact visible_doDumpCatchRemote hs1 h.valid (h.other hs)

theorem dumpCatchWithTimeout_fst (w : World) (request : Request) (s : Catcher) :
    (s.dumpCatchWithTimeout w request).map fst=(s.dumpOrFail w request).map visible := by
  unfold dumpCatchWithTimeout
  cases s.dumpOrFail w request <;> rfl

/-- After any two histories, a call that reports no other kernel stack than its own gives the same outcome in the same
world, if the slow policy answers the same. -/
theorem outcome_history (before₁ before₂ : List Call) (w : World) (request : Request) (slow : Bool)
    (h₁ : slowAnswer before₁ w request=some slow) (h₂ : slowAnswer before₂ w request=some slow)
    (hown : ReportsOwnStack w request slow) : outcome before₁ w request = outcome before₂ w request := by
  unfold slowAnswer at h₁ h₂
  unfold outcome
  cases hs₁ : after before₁ with
  | none =>
    rw [hs₁] at h₁
    cases h₁
  | some s₁ =>
    cases hs₂ : after before₂ with
    | none =>
      rw [hs₂] at h₂
      cases h₂
    | some s₂ =>
      rw [hs₁] at h₁
      rw [hs₂] at h₂
      have hs1₁ : s₁.inSlowPeriod request.pid w.slowAsked=slow := some.inj h₁
      have hs1₂ : s₂.inSlowPeriod request.pid w.slowAsked=slow := some.inj h₂
      change (s₁.dumpCatchWithTimeout w request).map fst=(s₂.dumpCatchWithTimeout w request).map fst
      rw [dumpCatchWithTimeout_fst, dumpCatchWithTimeout_fst]
      exact visible_dumpOrFail (hs1₁.trans hs1₂.symm) (hs1₁.symm ▸ hown)

def answered : PollAnswer :=
  .ready ⟨true, false, false, some (text "Tid:7")⟩ ⟨true, false, false, some ⟨.esuccess, 0⟩⟩ 0

def promptWorld : World where
  isLinuxKernel := true
  exited := false
  currentPid := 1
  dumpLocal msg := (false, msg)
  cgroup := some []
  cgroupAfter := some []
  uid := 0
  sdkDump := .requestSuccess
  sdkDumpTime := 0
  bufFd := true
  resFd := true
  startTime := 0
  polls := [answered]
  notifyEarly := true
  notifyStartCollect := true
  processStack _ := ⟨.success, text "kernel stack"⟩
  collectedStack := ⟨.timeout, []⟩
  statusGone := false
  signalBlocked := none
  processStatus := []
  processWchan := []
  slowAsked := 0
  slowTold := 0

def dumpOf (pid : ℤ) : Request := ⟨pid, 0, 3000, false, []⟩

def frozenCall : Call :=
  .dumpCatchWithTimeout {promptWorld with cgroup := some (text "Frozen")} (dumpOf 8)

theorem outcome_history_prompt :
    slowAnswer [] promptWorld (dumpOf 7) = some false ∧ slowAnswer [frozenCall] promptWorld (dumpOf 7) = some false ∧
      outcome [] promptWorld (dumpOf 7) = outcome [frozenCall] promptWorld (dumpOf 7) := by
  have ho : ReportsOwnStack promptWorld (dumpOf 7) false := by
    refine ⟨by decide, by decide, by decide, fun _ => .inr (.inr ⟨by decide, .inr ⟨rfl, rfl, fun p hp => ?_⟩⟩)⟩
    have hr : (loop true 3000 [answered] .initial).map pollRet=some .ok := by
      decide +kernel
    have hp : loop true 3000 [answered] .initial=some p := hp
    rw [hp] at hr
    exact .inr (.inl (some.inj hr))
  have h₁ : slowAnswer [] promptWorld (dumpOf 7)=some false := rfl
  have h₂ : slowAnswer [frozenCall] promptWorld (dumpOf 7)=some false := by decide +kernel
  exact ⟨h₁, h₂, outcome_history _ _ _ _ _ h₁ h₂ ho⟩

/-- Within five seconds after a dump of the process that took too long, the slow policy has the same call return the
kernel stack. -/
theorem outcome_depends_on_history :
    (outcome [] promptWorld (dumpOf 7)).map Outcome.result = some 0 ∧
      (outcome [.dumpCatchWithTimeout {promptWorld with polls := [.expired 3000]} (dumpOf 7)] promptWorld
        (dumpOf 7)).map Outcome.result = some 1 := by
  decide +kernel

end Catcher

end Faultloggerd.DumpCatcher
