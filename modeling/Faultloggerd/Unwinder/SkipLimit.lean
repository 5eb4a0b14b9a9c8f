import Faultloggerd.Unwinder.Model

/-! # Skipped frames and the frame limit

`Unwind(ctx, max, skip)` against the window of `max` frames behind the first `skip` of the whole
stack. The reset clears `frames_` and leaves `pcs_`, and below `skip` frames it never comes.
-/
namespace Faultloggerd.Unwinder
open List Option Nat Dwarf Foundations.FuelLoop

section Recording

variable {a : Arch} {e : Env} {cache : Bool} {u : Impl a}

/-! ## One frame is recorded at most once -/

structure Recorded (u u' : Impl a) : Prop where
  reset : u'.isResetFrames = u.isResetFrames
  lists : (∃ f : DfxFrame, u'.frames=u.frames++[f] ∧ u'.pcs=u.pcs++[f.pc]) ∨
    u'.frames = u.frames ∧ u'.pcs = u.pcs ∧ 2 < u.frames.length

theorem Recorded.congr {u' u'' : Impl a} (h : Recorded u u') (hf : u''.frames=u'.frames)
    (hp : u''.pcs=u'.pcs) (hr : u''.isResetFrames=u'.isResetFrames) : Recorded u u'' where
  reset := hr.trans h.reset
  lists := by
    rw [hf, hp]
    exact h.lists

theorem Recorded.addFrame (u : Impl a) (frame : StepFrame) (map : Option DfxMap) :
    Recorded u (u.addFrame frame map) where
  reset := rfl
  lists := .inl ⟨_, rfl, rfl⟩

def Located.impl : Located a → Impl a
  | .done _ _ u => u
  | .found _ _ _ u => u

theorem updateCache_lists (cache : Bool) (pc : Word) (map : Option DfxMap)
    (rs : Option (RegLocState a.toTarget)) (u : Impl a) : (updateCache cache pc map rs u).frames=u.frames ∧
      (updateCache cache pc map rs u).pcs=u.pcs ∧
      (updateCache cache pc map rs u).isResetFrames=u.isResetFrames := by
  unfold updateCache
  cases rs with
  | none => exact ⟨rfl, rfl, rfl⟩
  | some rs => split_ifs <;> exact ⟨rfl, rfl, rfl⟩

theorem parseUnwindTable_lists {pc : Word} {out : Option (RegLocState a.toTarget)×Impl a}
    (h : parseUnwindTable e pc u=some out) : out.2.frames=u.frames ∧ out.2.pcs=u.pcs ∧
      out.2.isResetFrames=u.isResetFrames := by
  unfold parseUnwindTable at h
  cases ht : e.findUnwindTable pc with
  | none =>
    rw [ht] at h
    cases h
    exact ⟨rfl, rfl, rfl⟩
  | some uti =>
    rw [ht] at h
    obtain ⟨parsed, -, rfl⟩ := map_eq_some_iff.mp h
    exact ⟨rfl, rfl, rfl⟩

variable {frame : StepFrame}

theorem updateRegsState_lists {rs : Option (RegLocState a.toTarget)}
    {out : Bool×Impl a} (h : updateRegsState e frame rs u=some out) :
    out.2.frames=u.frames ∧ out.2.pcs=u.pcs ∧ out.2.isResetFrames=u.isResetFrames := by
  obtain ⟨regs, -, rfl⟩ := map_eq_some_iff.mp h
  split_ifs <;> exact ⟨rfl, rfl, rfl⟩

theorem locate_recorded {sig : Bool} {loc : Located a}
    (h : locate e cache sig frame u=some loc) : Recorded u loc.impl := by
  unfold locate at h
  cases hc1 : findCache cache frame.pc u with
  | some cache =>
    rw [hc1] at h
    cases h
    exact .addFrame u frame cache.map
  | none =>
    rw [hc1] at h
    simp only [locateUncached, addFrameMap_eq] at h
    by_cases hf : e.getMapByPc frame.pc=none ∧ 2<u.frames.length
    · have hk : Recorded u u := ⟨rfl, .inr ⟨rfl, rfl, hf.2⟩⟩
      rw [if_pos hf] at h
      cases hl1 : getCrashLastFrame e u with
      | none | some last =>
        rw [hl1] at h
        cases h
        exact hk
    · rw [if_neg hf] at h
      have ha := Recorded.addFrame u frame (e.getMapByPc frame.pc)
      dsimp only at h
      split_ifs at h with hs hv hfp he
      iterate 4
        · cases h
          exact ha
      · obtain ⟨parsed, hp, rfl⟩ := map_eq_some_iff.mp h
        have hl := parseUnwindTable_lists hp
        have hc := updateCache_lists cache frame.pc (e.getMapByPc frame.pc) parsed.1
          parsed.2
        exact ha.congr (hc.1.trans hl.1) (hc.2.1.trans hl.2.1)
          (hc.2.2.trans hl.2.2)

theorem stepInner_recorded {sig : Bool} {out : StepOut a}
    (h : stepInner e cache sig frame u=some out) : Recorded u out.u := by
  obtain ⟨loc, hl1, hf⟩ := bind_eq_some_iff.mp h
  have hr := locate_recorded hl1
  cases loc with
  | done ret frame u' =>
    cases hf
    exact hr
  | found frame map rs u' =>
    obtain ⟨regs, hr1, rfl⟩ := map_eq_some_iff.mp hf
    have hl := updateRegsState_lists hr1
    exact hr.congr hl.1 hl.2.1 hl.2.2

theorem unwindFrame_recorded {adjust : Bool} {out : FrameOut a}
    (h : unwindFrame e cache adjust u=some out) : Recorded u out.u := by
  obtain ⟨signal, -, hs1⟩ := bind_eq_some_iff.mp h
  cases signal with
  | none =>
    obtain ⟨stepped, hs, rfl⟩ := map_eq_some_iff.mp hs1
    exact stepInner_recorded hs
  | some regs =>
    obtain ⟨stepped, hs, rfl⟩ := map_eq_some_iff.mp hs1
    have hr := stepInner_recorded hs
    exact ⟨hr.reset, hr.lists⟩

end Recording

/-! ## Rounds -/

def framePcs (frames : List DfxFrame) : List Word := frames.map DfxFrame.pc

/-- `pcs_` holds the pcs of `frames_` behind those of frames that a reset dropped. -/
def Synced {a : Arch} (dropped : List Word) (u : Impl a) : Prop :=
  u.pcs = dropped++framePcs u.frames

section Rounds

variable {a : Arch} {e : Env} {cache : Bool} {most skip : ℕ} {u u' : Impl a}

variable {dropped : List Word}

section

variable (h : Recorded u u')
include h

theorem Recorded.synced (hu : Synced dropped u) : Synced dropped u' := by
  unfold Synced at hu ⊢
  obtain ⟨f, hf, hp⟩ | ⟨hf, hp, -⟩ := h.lists
  · rw [hf, hp, hu, framePcs, framePcs, map_append, append_assoc]
    rfl
  · rw [hf, hp, hu]

theorem Recorded.length_le : u'.frames.length≤u.frames.length+1 := by
  obtain ⟨f, hf, -⟩ | ⟨hf, -⟩ := h.lists
  · rw [hf, length_append, length_singleton]
  · grind

theorem Recorded.isPrefix : u.frames <+: u'.frames := by
  obtain ⟨f, hf, -⟩ | ⟨hf, -⟩ := h.lists
  · exact ⟨[f], hf.symm⟩
  · rw [hf]

theorem Recorded.ne_nil : u'.frames≠[] := by
  obtain ⟨f, hf, -⟩ | ⟨hf, -, hl⟩ := h.lists
  · rw [hf]
    simp
  · rw [hf]
    exact ne_nil_of_length_pos (by omega)

end

theorem resetFrames_zero (u : Impl a) : resetFrames 0 u=u := by simp [resetFrames]

theorem resetFrames_of_lt (h : u.frames.length<skip) : resetFrames skip u=u :=
  if_neg fun hr => Nat.not_le_of_lt h hr.2.2

theorem resetFrames_of_reset (h : u.isResetFrames) : resetFrames skip u=u := if_neg fun hr => hr.1 h

theorem resetFrames_of_le (hr : ¬u.isResetFrames) (hs : 0<skip) (h : skip≤u.frames.length) :
    resetFrames skip u={u with isResetFrames := true, frames := []} := if_pos ⟨hr, ne_of_gt hs, h⟩

variable {s : Bool×Impl a}

theorem unwindRound_inl {s' : Bool×Impl a} (h : unwindRound e cache most skip s=some (.inl s')) :
    (resetFrames skip s.2).frames.length < most ∧ Recorded (resetFrames skip s.2) s'.2 := by
  unfold unwindRound at h
  dsimp only at h
  split_ifs at h with hl
  · cases h
  · obtain ⟨out, hf, ho⟩ := map_eq_some_iff.mp h
    have hr := unwindFrame_recorded hf
    split_ifs at ho
    cases ho
    exact ⟨Nat.lt_of_not_le hl, hr⟩

variable {r : Impl a}

theorem unwindRound_inr (h : unwindRound e cache most skip s=some (.inr r)) :
    (most≤(resetFrames skip s.2).frames.length ∧ r=resetFrames skip s.2) ∨
      (resetFrames skip s.2).frames.length < most ∧ Recorded (resetFrames skip s.2) r := by
  unfold unwindRound at h
  dsimp only at h
  split_ifs at h with hl
  · cases h
    exact .inl ⟨hl, rfl⟩
  · obtain ⟨out, hf, ho⟩ := map_eq_some_iff.mp h
    have hr := unwindFrame_recorded hf
    split_ifs at ho
    cases ho
    exact .inr ⟨Nat.lt_of_not_le hl, hr⟩

theorem unwindRound_below {limit : ℕ} (hm : s.2.frames.length < most) (hl : s.2.frames.length<limit)
    (hs : resetFrames skip s.2=s.2) :
    unwindRound e cache most skip s=unwindRound e cache limit 0 s := by
  unfold unwindRound
  rw [hs, resetFrames_zero, if_neg (Nat.not_le_of_lt hm), if_neg (Nat.not_le_of_lt hl)]

/-! ## Runs -/

variable {fuel : ℕ}

theorem loop_isPrefix (h : loop (unwindRound e cache most 0) fuel s=some r) : s.2.frames <+: r.frames := by
  refine loop_invariant (fun s' => s.2.frames <+: s'.2.frames) (fun r => s.2.frames <+: r.frames)
    ?_ ?_ (prefix_refl _) h
  · intro s1 s2 hs hr1
    have hr := (unwindRound_inl hr1).2
    rw [resetFrames_zero] at hr
    exact hs.trans hr.isPrefix
  · intro s1 r hs hr1
    obtain ⟨-, rfl⟩ | ⟨-, hr⟩ := unwindRound_inr hr1
    · rw [resetFrames_zero]
      exact hs
    · rw [resetFrames_zero] at hr
      exact hs.trans hr.isPrefix

theorem loop_ne_nil (hm : 0 < most) (h : loop (unwindRound e cache most 0) fuel s=some r)
    : r.frames≠[] := by
  refine loop_invariant (fun _ => True) (fun r => r.frames≠[]) (fun _ _ _ _ => trivial) ?_
    trivial h
  intro s1 r _ hr
  obtain ⟨hl, rfl⟩ | ⟨-, hr1⟩ := unwindRound_inr hr
  · exact ne_nil_of_length_pos (lt_of_lt_of_le hm hl)
  · exact hr1.ne_nil

theorem loop_synced (hs : Synced dropped s.2) (h : loop (unwindRound e cache most 0) fuel s=some r)
    : Synced dropped r := by
  refine loop_invariant (fun s => Synced dropped s.2) (Synced dropped) ?_ ?_ hs h
  · intro s s' hs hr1
    have hr := (unwindRound_inl hr1).2
    rw [resetFrames_zero] at hr
    exact hr.synced hs
  · intro s r hs hr1
    obtain ⟨-, rfl⟩ | ⟨-, hr⟩ := unwindRound_inr hr1
    · rw [resetFrames_zero]
      exact hs
    · rw [resetFrames_zero] at hr
      exact hr.synced hs

theorem loop_take {limit : ℕ} (hle : most≤limit) (hl1 : s.2.frames.length ≤ most)
    (h : loop (unwindRound e cache limit 0) fuel s=some r) :
    ∃ r', loop (unwindRound e cache most 0) fuel s=some r' ∧ r'.frames=r.frames.take most := by
  induction fuel generalizing s with
  | zero => exact nomatch h
  | succ fuel ih =>
    by_cases hf : s.2.frames.length=most
    · have hr : unwindRound e cache most 0 s=some (.inr s.2) := by
        rw [unwindRound, resetFrames_zero]
        exact if_pos (le_of_eq hf.symm)
      refine ⟨s.2, loop_of_inr hr, ?_⟩
      rw [←hf]
      exact prefix_iff_eq_take.mp (loop_isPrefix h)
    · have hb : s.2.frames.length < most := lt_of_le_of_ne hl1 hf
      have hs : unwindRound e cache most 0 s=unwindRound e cache limit 0 s :=
        unwindRound_below hb (lt_of_lt_of_le hb hle) (resetFrames_zero s.2)
      obtain ⟨_, hf1, hr | ⟨s', hr, hr2⟩⟩ := loop_cases h
      · refine ⟨r, loop_of_inr (hs.trans hr), ?_⟩
        obtain ⟨hl, -⟩ | ⟨-, hr1⟩ := unwindRound_inr hr
        · rw [resetFrames_zero] at hl
          omega
        · rw [resetFrames_zero] at hr1
          have := hr1.length_le
          rw [take_of_length_le (by omega)]
      · cases hf1
        have hr1 := (unwindRound_inl hr).2
        rw [resetFrames_zero] at hr1
        have := hr1.length_le
        rw [loop_of_inl (hs.trans hr)]
        exact ih (by omega) hr2

theorem loop_of_lt_skip (hlt : most<skip) (hl : s.2.frames.length ≤ most) :
    loop (unwindRound e cache most skip) fuel s =
      loop (unwindRound e cache most 0) fuel s := by
  have hk : ∀ s : Bool × Impl a, s.2.frames.length ≤ most → resetFrames skip s.2=s.2 :=
    fun s hs => resetFrames_of_lt (lt_of_le_of_lt hs hlt)
  refine loop_congr (fun s => s.2.frames.length ≤ most) ?_ ?_ hl
  · intro s s' hs hr
    obtain ⟨hb, hr1⟩ := unwindRound_inl hr
    have := hr1.length_le
    omega
  · intro s hs
    unfold unwindRound
    rw [hk s hs, resetFrames_zero]

theorem loop_dropped (hr : (resetFrames skip s.2).isResetFrames)
    (hs1 : Synced dropped (resetFrames skip s.2))
    (h : loop (unwindRound e cache most skip) fuel s=some r) : Synced dropped r := by
  refine loop_invariant (fun s => (resetFrames skip s.2).isResetFrames ∧
    Synced dropped (resetFrames skip s.2)) (Synced dropped) ?_ ?_ ⟨hr, hs1⟩ h
  · intro s s' hs hr1
    have hr2 := (unwindRound_inl hr1).2
    have hr' : s'.2.isResetFrames := hr2.reset.trans hs.1
    rw [resetFrames_of_reset hr']
    exact ⟨hr', hr2.synced hs.2⟩
  · intro s r hs hr1
    obtain ⟨-, rfl⟩ | ⟨-, hr2⟩ := unwindRound_inr hr1
    · exact hs.2
    · exact hr2.synced hs.2

theorem loop_skip_cases (hs2 : 0<skip) (hle : skip ≤ most) (hr2 : ¬s.2.isResetFrames)
    (hs : Synced [] s.2) (h : loop (unwindRound e cache most skip) fuel s=some r) :
    (∃ dropped, dropped≠[] ∧ Synced dropped r) ∨ r.frames.length≤ skip ∧
        loop (unwindRound e cache (skip+most) 0) fuel s=some r := by
  induction fuel generalizing s with
  | zero => exact nomatch h
  | succ fuel ih =>
    by_cases hf : skip≤ s.2.frames.length
    · have hc := resetFrames_of_le hr2 hs2 hf
      refine .inl ⟨framePcs s.2.frames, ?_, loop_dropped ?_ ?_ h⟩
      · have hp : 0<s.2.frames.length := lt_of_lt_of_le hs2 hf
        simpa [framePcs] using ne_nil_of_length_pos hp
      · rw [hc]
      · rw [hc]
        unfold Synced at hs ⊢
        simpa [framePcs] using hs
    · have hb : s.2.frames.length<skip := Nat.lt_of_not_le hf
      have hk : resetFrames skip s.2=s.2 := resetFrames_of_lt hb
      have hs1 : unwindRound e cache most skip s =
          unwindRound e cache (skip+most) 0 s := unwindRound_below (by omega) (by omega) hk
      obtain ⟨_, hf1, hr | ⟨s', hr, hr3⟩⟩ := loop_cases h
      · refine .inr ⟨?_, loop_of_inr (hs1.symm.trans hr)⟩
        obtain ⟨hl, -⟩ | ⟨-, hr1⟩ := unwindRound_inr hr
        · grind
        · rw [hk] at hr1
          have := hr1.length_le
          omega
      · cases hf1
        have hr1 := (unwindRound_inl hr).2
        rw [hk] at hr1
        rw [loop_of_inl (hs1.symm.trans hr)]
        exact ih (fun hs3 => hr2 (hr1.reset.symm.trans hs3)) (hr1.synced hs) hr3

end Rounds

/-! ## The law -/

theorem take_eq_window_iff {α : Type} {xs : List α} {count skip : ℕ} :
    xs.take count=(xs.drop skip).take count ↔ ∀ i<count, xs[i]?=xs[skip+i]? := by
  constructor
  · intro hs i hi
    have hat := congrArg (·[i]?) hs
    simpa [hi] using hat
  · intro hr
    apply ext_getElem?
    intro i
    rw [getElem?_take, getElem?_take, getElem?_drop]
    split_ifs with hi
    · exact hr i hi
    · rfl

section Law

variable {a : Arch} (e : Env) (enableCache : Bool) (u : Impl a) (maxFrameNum skipFrameNum : ℕ)

/-- `Unwind(ctx, max, skip)` returns with the window of the stack in `frames_`, and `pcs_` in step. -/
def SkipLaw (stack : List DfxFrame) : Prop :=
  ∃ fuel out, unwind e enableCache fuel maxFrameNum skipFrameNum u = some out ∧
    framePcs out.2.frames = framePcs ((stack.drop skipFrameNum).take maxFrameNum) ∧
    out.2.pcs = framePcs out.2.frames

/-- The stack goes on for `skip + max` frames, and each of its first `max` pcs is also the one `skip`
frames further down, as in a recursion. -/
def Recurs (stack : List DfxFrame) : Prop :=
  stack.length = skipFrameNum+maxFrameNum ∧ ∀ i < maxFrameNum, (framePcs stack)[i]? = (framePcs stack)[skipFrameNum+i]?

variable {e enableCache u maxFrameNum skipFrameNum}

theorem recurs_iff {stack : List DfxFrame} (hne : stack≠[]) (hm : 0< maxFrameNum)
    (hlt : maxFrameNum<skipFrameNum) (hl2 : stack.length≤ skipFrameNum+maxFrameNum) :
    Recurs maxFrameNum skipFrameNum stack ↔
      framePcs (stack.take maxFrameNum)=framePcs ((stack.drop skipFrameNum).take maxFrameNum) := by
  have hp := length_pos_iff.mpr hne
  have hl1 : framePcs (stack.take maxFrameNum) = framePcs ((stack.drop skipFrameNum).take maxFrameNum) ↔
      (framePcs stack).take maxFrameNum=((framePcs stack).drop skipFrameNum).take maxFrameNum := by
    simp [framePcs]
  rw [hl1]
  constructor
  · intro hr
    exact take_eq_window_iff.mpr hr.2
  · intro hs
    refine ⟨?_, take_eq_window_iff.mp hs⟩
    have hl := congrArg length hs
    simp only [framePcs, length_map, length_take, length_drop] at hl
    omega

variable {fuel : ℕ}

variable {r : Impl a}

theorem unwind_of_loop (h : loop (unwindRound e enableCache maxFrameNum skipFrameNum) fuel (false, start u)=some r) :
    unwind e enableCache fuel maxFrameNum skipFrameNum u=some (decide (r.frames.length>0), r) := by
  rw [unwind, h]
  rfl

theorem loop_length_le (h : loop (unwindRound e enableCache maxFrameNum 0) fuel (false, start u)=some r) :
    r.frames.length≤ maxFrameNum := by
  obtain ⟨r', hrun, hf⟩ := loop_take (le_refl maxFrameNum) (zero_le _) h
  rw [loop_unique h hrun, hf]
  exact length_take_le _ _

theorem start_synced (u : Impl a) : Synced [] (start u) := rfl

theorem unwind_of_lt_skip (hlt : maxFrameNum<skipFrameNum)
    (h : loop (unwindRound e enableCache (skipFrameNum+maxFrameNum) 0) fuel (false, start u)=some r) :
    ∃ r', unwind e enableCache fuel maxFrameNum skipFrameNum u=some (decide (r'.frames.length>0), r') ∧
      r'.frames=r.frames.take maxFrameNum ∧ Synced [] r' := by
  have hl : (false, start u).2.frames.length≤ maxFrameNum := zero_le _
  obtain ⟨r', hrun, hf⟩ := loop_take (le_add_left maxFrameNum skipFrameNum) hl h
  refine ⟨r', ?_, hf, loop_synced (start_synced u) hrun⟩
  rw [←loop_of_lt_skip hlt hl] at hrun
  exact unwind_of_loop hrun

theorem skipLaw_iff_of_lt_skip (hlt : maxFrameNum<skipFrameNum)
    (h : loop (unwindRound e enableCache (skipFrameNum+maxFrameNum) 0) fuel (false, start u)=some r) :
    SkipLaw e enableCache u maxFrameNum skipFrameNum r.frames ↔ framePcs (r.frames.take maxFrameNum) =
        framePcs ((r.frames.drop skipFrameNum).take maxFrameNum) := by
  obtain ⟨r', hr', hf, hs⟩ := unwind_of_lt_skip hlt h
  rw [←hf]
  constructor
  · intro ⟨fuel', out, ho, hw, _⟩
    rw [map_loop_unique ho hr'] at hw
    exact hw
  · intro hw
    exact ⟨fuel, _, hr', hw, hs⟩

theorem skipLaw_of_noSkip (hs1 : skipFrameNum=0)
    (h : loop (unwindRound e enableCache (skipFrameNum+maxFrameNum) 0) fuel (false, start u)=some r)
    : SkipLaw e enableCache u maxFrameNum skipFrameNum r.frames := by
  subst hs1
  have hl := loop_length_le h
  rw [Nat.zero_add] at h hl
  have hs : Synced [] r := loop_synced (start_synced u) h
  refine ⟨fuel, _, unwind_of_loop h, ?_, hs⟩
  rw [drop_zero, take_of_length_le hl]

theorem not_skipLaw (hs1 : 0<skipFrameNum) (hle : skipFrameNum≤ maxFrameNum)
    (h : loop (unwindRound e enableCache (skipFrameNum+maxFrameNum) 0) fuel (false, start u)=some r)
    : ¬SkipLaw e enableCache u maxFrameNum skipFrameNum r.frames := by
  intro ⟨fuel', out, ho, hf, hp⟩
  obtain ⟨r', hr', rfl⟩ := map_eq_some_iff.mp ho
  obtain ⟨dropped, hne, hs⟩ | ⟨hl, hw⟩ := loop_skip_cases hs1 hle Bool.false_ne_true (start_synced u) hr'
  · exact hne (append_left_eq_self.mp (hs.symm.trans hp))
  · obtain rfl := loop_unique hw h
    have hne : r'.frames≠[] := loop_ne_nil (by omega) hw
    rw [drop_of_length_le hl] at hf
    exact hne (by simpa [framePcs] using hf)

end Law

/-- The law, for a stack that the unwinder walks to its end or to `skip + max` frames. -/
theorem skip_law_iff {a : Arch} (e : Env) (enableCache : Bool) (u : Impl a)
    (fuel maxFrameNum skipFrameNum : ℕ) (whole : Bool×Impl a)
    (h : unwind e enableCache fuel (skipFrameNum+maxFrameNum) 0 u=some whole) :
    SkipLaw e enableCache u maxFrameNum skipFrameNum whole.2.frames ↔ skipFrameNum = 0 ∨ maxFrameNum = 0 ∨
        maxFrameNum < skipFrameNum ∧ Recurs maxFrameNum skipFrameNum whole.2.frames := by
  obtain ⟨r, hrun, rfl⟩ := map_eq_some_iff.mp h
  by_cases hs : skipFrameNum=0
  · exact iff_of_true (skipLaw_of_noSkip hs hrun) (.inl hs)
  have hp : 0<skipFrameNum := Nat.pos_of_ne_zero hs
  by_cases hlt : maxFrameNum<skipFrameNum
  · rw [skipLaw_iff_of_lt_skip hlt hrun, or_iff_right hs, and_iff_right hlt]
    by_cases hm : maxFrameNum=0
    · subst hm
      simp
    · rw [or_iff_right hm]
      exact (recurs_iff (loop_ne_nil (by omega) hrun) (Nat.pos_of_ne_zero hm) hlt (loop_length_le hrun)).symm
  · apply iff_of_false (not_skipLaw hp (Nat.le_of_not_lt hlt) hrun)
    omega

/-! ## Three frames by frame pointer -/

def frameChain : Env where
  memory := .ofImage 0x1000
    [0x10, 0x10, 0, 0, 0, 0, 0, 0, 0, 3, 0, 0, 0, 0, 0, 0, 0, 0, 0, 0, 0, 0, 0, 0, 0, 0, 0, 0, 0, 0, 0, 0]
  stackMemory := .ofImage 0x1000
    [0x10, 0x10, 0, 0, 0, 0, 0, 0, 0, 3, 0, 0, 0, 0, 0, 0, 0, 0, 0, 0, 0, 0, 0, 0, 0, 0, 0, 0, 0, 0, 0, 0]
  getMapByPc := fun _ => some ⟨"liba.so", 5⟩
  findUnwindTable := fun _ => none
  union := 0
  rounds := 0
  unwindType := .local
  pacMask := 0
  enableLrFallback := true
  enableFpCheckMapExec := true
  isCrash := false

def leafRegs : Regs := fun r =>
  match r with
  | 29 => 0x1000
  | 30 => 0x200
  | 31 => 0x1000
  | 32 => 0x100
  | _ => 0

def leaf : Impl (.arm64 id) := .fresh leafRegs

theorem leaf_whole_stack : ∃ whole, unwind frameChain false 4 (0+3) 0 leaf = some whole ∧
    SkipLaw frameChain false leaf 3 0 whole.2.frames := by
  have hr : (unwind frameChain false 4 (0+3) 0 leaf).isSome := by decide
  obtain ⟨whole, hw⟩ := isSome_iff_exists.mp hr
  exact ⟨whole, hw, (skip_law_iff frameChain false leaf 4 3 0 whole hw).mpr (.inl rfl)⟩

/-- The window is right in `frames_`, and `pcs_` still begins with the skipped pc. -/
theorem leaf_skipped_pc : ∃ whole, unwind frameChain false 4 (1+2) 0 leaf = some whole ∧
    framePcs whole.2.frames = [0x100, 0x1fc, 0x2fc] ∧ ∃ out, unwind frameChain false 4 2 1 leaf = some out ∧
      framePcs out.2.frames = [0x1fc, 0x2fc] ∧ out.2.pcs = [0x100, 0x1fc, 0x2fc] ∧
      ¬SkipLaw frameChain false leaf 2 1 whole.2.frames := by
  have hs2 : (unwind frameChain false 4 (1+2) 0 leaf).map (fun out => framePcs out.2.frames) =
      some [0x100, 0x1fc, 0x2fc] := by decide
  have hs1 : (unwind frameChain false 4 2 1 leaf).map
      (fun out => (framePcs out.2.frames, out.2.pcs)) = some ([0x1fc, 0x2fc], [0x100, 0x1fc, 0x2fc]) := by decide
  obtain ⟨whole, hw1, hw⟩ := map_eq_some_iff.mp hs2
  obtain ⟨out, ho, ho1⟩ := map_eq_some_iff.mp hs1
  obtain ⟨hf, hp⟩ := Prod.mk.inj ho1
  refine ⟨whole, hw1, hw, out, ho, hf, hp, ?_⟩
  intro hl
  obtain ⟨fuel, out', ho', -, hs⟩ := hl
  rw [map_loop_unique ho' ho, hp, hf] at hs
  exact absurd hs (by decide)

end Faultloggerd.Unwinder
