import Faultloggerd.Unwinder.Model

/-! # Unwinding by frame pointers: `UnwindByFp`

The chain of frames that the frame pointers link, and what `Unwinder::Impl::UnwindByFp` records of it.
Frame pointers grow up to a possible last 0, so the chain is finite.
-/
namespace Faultloggerd.Unwinder
open List Function Nat Dwarf Foundations.FuelLoop

section Chain

variable {a : Arch} (e : Env)

/-! ## The chain -/

/-- The frame pointer and the return address which the frame at `fp` saves, if it has a caller: both words can be read,
the return address is not 0, and the saved frame pointer is 0 or above `fp`. -/
def callerOf (fp : Word) : Option (Word × Word) :=
  match e.stackMemory.read fp 8, e.stackMemory.read (fp + 8) 8 with
  | some nextFp, some nextPc =>
    if fp ≠ 0 ∧ nextPc ≠ 0 ∧ (nextFp = 0 ∨ fp.toNat < nextFp.toNat) then some (nextFp, nextPc) else none
  | _, _ => none

/-- At most `n` pcs of the chain, from the frame at `fp` on. The return address of a caller is moved into its call. -/
def chainUpTo (a : Arch) : ℕ → Word → Word → List Word
  | 0, _, _ => []
  | n + 1, fp, pc => pc ::
      match callerOf e fp with
      | none => []
      | some (nextFp, nextPc) => chainUpTo a n nextFp (doPcAdjust a (a.stripPac e.pacMask nextPc))

/-- The frame pointers have as many steps left as the address space above them, and none at 0. -/
def fpRank (fp : Word) : ℕ := if fp = 0 then 0 else 2^64 - fp.toNat

theorem fpRank_lt (fp : Word) : fpRank fp < 2^64 + 1 := by
  unfold fpRank
  split_ifs <;> omega

variable {e} {fp nextFp nextPc : Word}

theorem callerOf_eq_some (h : callerOf e fp = some (nextFp, nextPc)) :
    e.stackMemory.read fp 8 = some nextFp ∧ e.stackMemory.read (fp + 8) 8 = some nextPc ∧
      fp ≠ 0 ∧ nextPc ≠ 0 ∧ (nextFp = 0 ∨ fp.toNat < nextFp.toNat) := by
  unfold callerOf at h
  split at h
  · split_ifs at h with hc
    cases h
    exact ⟨‹_›, ‹_›, hc⟩
  · cases h

theorem fpRank_callerOf (h : callerOf e fp = some (nextFp, nextPc)) : fpRank nextFp < fpRank fp := by
  obtain ⟨-, -, hz, -, hup⟩ := callerOf_eq_some h
  unfold fpRank
  rw [if_neg hz]
  split_ifs with hl
  · omega
  · have := hup.resolve_left hl
    omega

theorem chainUpTo_stable {n m : ℕ} (fp pc : Word) (hn : fpRank fp < n) (hm : fpRank fp < m) :
    chainUpTo e a n fp pc = chainUpTo e a m fp pc := by
  induction n generalizing m fp pc with
  | zero => omega
  | succ n ih =>
    cases m with
    | zero => omega
    | succ m =>
      rw [chainUpTo, chainUpTo]
      cases hc : callerOf e fp with
      | none => rfl
      | some caller =>
        have hlt := fpRank_callerOf hc
        dsimp only
        rw [ih (m := m) _ _ (by omega) (by omega)]

/-- The pcs of the frame at `fp` and of all its callers. -/
def fpChain (e : Env) (a : Arch) (fp pc : Word) : List Word := chainUpTo e a (2^64 + 1) fp pc

theorem fpChain_of_none (h : callerOf e fp = none) (pc : Word) : fpChain e a fp pc = [pc] := by
  rw [fpChain, chainUpTo, h]

theorem fpChain_of_some (h : callerOf e fp = some (nextFp, nextPc)) (pc : Word) :
    fpChain e a fp pc = pc :: fpChain e a nextFp (doPcAdjust a (a.stripPac e.pacMask nextPc)) := by
  have hlt := fpRank_callerOf h
  have hr := fpRank_lt fp
  rw [fpChain, chainUpTo, h, fpChain]
  dsimp only
  rw [chainUpTo_stable _ _ (by omega) (fpRank_lt nextFp)]

/-! ## `FpStep` follows the chain -/

def recordedPc (a : Arch) (needAdjustPc : Bool) (regs : Regs) : Word :=
  if needAdjustPc then doPcAdjust a (regs a.regPc) else regs a.regPc

def chainStep (e : Env) (a : Arch) (needAdjustPc : Bool) (regs : Regs) : FpOut :=
  fpStep (a := a) e (regs a.regFp) (recordedPc a needAdjustPc regs) regs

def FpOut.goesOn (out : FpOut) : Bool := out.ok && decide (out.pc ≠ 0)

theorem overlay_of_read {m : DfxMemory} {addr value : Word} (h : m.read addr 8 = some value) (v : Word) :
    overlay v (m.readBytes addr 8) = value := by
  obtain ⟨hl, rfl⟩ := DfxMemory.length_of_read h
  exact overlay_of_length _ _ hl

theorem fpStep_of_read (hf : e.stackMemory.read fp 8 = some nextFp) (hp : e.stackMemory.read (fp + 8) 8 = some nextPc)
    (pc : Word) (regs : Regs) : fpStep (a := a) e fp pc regs =
      if fp = 0 then ⟨false, fp, pc, regs⟩
      else if nextFp ≠ 0 ∧ nextFp.toNat ≤ fp.toNat then ⟨false, nextFp, nextPc, regs⟩
      else ⟨true, nextFp, nextPc, update (update (update regs a.regFp nextFp) a.regSp (a.frameSp fp nextFp)) a.regPc
        (a.stripPac e.pacMask nextPc)⟩ := by
  rw [fpStep, overlay_of_read hf, overlay_of_read hp, hf, hp]
  rfl

variable {adjust : Bool} {regs : Regs}

theorem chainStep_of_some (adjust : Bool) (h : callerOf e (regs a.regFp) = some (nextFp, nextPc)) :
    (chainStep e a adjust regs).goesOn ∧ (chainStep e a adjust regs).regs a.regFp = nextFp ∧
      (chainStep e a adjust regs).regs a.regPc = a.stripPac e.pacMask nextPc := by
  obtain ⟨hf, hp, hz, hn, hup⟩ := callerOf_eq_some h
  rw [chainStep, fpStep_of_read hf hp, if_neg hz, if_neg (by grind)]
  refine ⟨Bool.and_eq_true_iff.mpr ⟨rfl, decide_eq_true hn⟩, ?_, update_self ..⟩
  dsimp only
  rw [update_of_ne a.fpNePc, update_of_ne a.fpNeSp, update_self]

theorem chainStep_of_none (h : callerOf e (regs a.regFp) = none) : ¬(chainStep e a adjust regs).goesOn := by
  unfold callerOf at h
  unfold chainStep FpOut.goesOn
  cases hf : e.stackMemory.read (regs a.regFp) 8 with
  | none => grind [fpStep]
  | some nextFp =>
    cases hp : e.stackMemory.read (regs a.regFp + 8) 8 with
    | none => grind [fpStep]
    | some nextPc =>
      rw [hf, hp] at h
      rw [fpStep_of_read hf hp]
      split_ifs with hz hb
      · simp
      · simp
      · grind

theorem fpRank_chainStep (h : (chainStep e a adjust regs).goesOn) :
    fpRank ((chainStep e a adjust regs).regs a.regFp) < fpRank (regs a.regFp) := by
  cases hc : callerOf e (regs a.regFp) with
  | none => exact absurd h (chainStep_of_none hc)
  | some caller =>
    rw [(chainStep_of_some adjust hc).2.1]
    exact fpRank_callerOf hc

end Chain

/-! ## Recording it -/

section Recording

variable {a : Arch} (e : Env)

structure FpLoop (a : Arch) where
  needAdjustPc : Bool
  resetFrames : Bool
  u : Impl a

def recordFpFrame (s : FpLoop a) : FpLoop a :=
  {s with
    needAdjustPc := true
    u := {s.u with
      pcs := s.u.pcs++[recordedPc a s.needAdjustPc s.u.regs]
      regs := (chainStep e a s.needAdjustPc s.u.regs).regs}}

def fpRound (head : FpLoop a → FpLoop a) (maxFrameNum : ℕ) (s : FpLoop a) :
    Option (FpLoop a ⊕ FpLoop a) :=
  let s := head s
  if s.u.pcs.length ≥ maxFrameNum then some (.inr s)
  else if (chainStep e a s.needAdjustPc s.u.regs).goesOn then some (.inl (recordFpFrame e s))
  else some (.inr (recordFpFrame e s))

def resetPcs (skipFrameNum : ℕ) (s : FpLoop a) : FpLoop a :=
  if ¬s.resetFrames ∧ skipFrameNum ≠ 0 ∧ s.u.pcs.length = skipFrameNum then
    {s with resetFrames := true, u := {s.u with pcs := []}}
  else s

def fpStart (u : Impl a) : FpLoop a := ⟨false, false, {u with pcs := []}⟩

def unwindByFp (fuel maxFrameNum skipFrameNum : ℕ) (u : Impl a) : Option (Bool×Impl a) :=
  (loop (fpRound e (resetPcs skipFrameNum) maxFrameNum) fuel (fpStart u)).map fun s =>
    (decide (s.u.pcs.length > 0), s.u)

/-- The chain from the frame on that the next round records. -/
def chainFrom (s : FpLoop a) : List Word := fpChain e a (s.u.regs a.regFp) (recordedPc a s.needAdjustPc s.u.regs)

variable {e} {most skip fuel : ℕ}

theorem chainFrom_eq (s : FpLoop a) : chainFrom e s=recordedPc a s.needAdjustPc s.u.regs ::
      if (chainStep e a s.needAdjustPc s.u.regs).goesOn then chainFrom e (recordFpFrame e s) else [] := by
  cases hc : callerOf e (s.u.regs a.regFp) with
  | none =>
    rw [if_neg (chainStep_of_none hc)]
    exact fpChain_of_none hc _
  | some caller =>
    obtain ⟨hgo, hf, hp⟩ := chainStep_of_some s.needAdjustPc hc
    rw [if_pos hgo, chainFrom, fpChain_of_some hc, chainFrom, recordFpFrame]
    dsimp only
    rw [hf, ← hp]
    rfl

theorem loop_fpRound (head : FpLoop a → FpLoop a) (most : ℕ) (P : FpLoop a → Prop)
    (hk : ∀ s, P s → (head s).u=s.u ∧ (head s).needAdjustPc=s.needAdjustPc)
    (hn : ∀ s, P s → s.u.pcs.length< most → P (recordFpFrame e (head s)))
    (s : FpLoop a) (hs : P s) (hf : fpRank (s.u.regs a.regFp) < fuel) : ∃ r, loop (fpRound e head most) fuel s=some r ∧
      r.u.pcs=s.u.pcs++(chainFrom e s).take (most-s.u.pcs.length) := by
  induction fuel generalizing s with
  | zero => omega
  | succ fuel ih =>
    obtain ⟨hu, ha⟩ := hk s hs
    by_cases hl : s.u.pcs.length ≥ most
    · have hr : fpRound e head most s=some (.inr (head s)) := by
        rw [fpRound, hu]
        exact if_pos hl
      refine ⟨head s, loop_of_inr hr, ?_⟩
      rw [hu, Nat.sub_eq_zero_of_le hl, take_zero, append_nil]
    · obtain ⟨left, hl1⟩ : ∃ left, most-s.u.pcs.length=left+1 := ⟨most-s.u.pcs.length-1, by omega⟩
      have hr1 : (recordFpFrame e (head s)).u.pcs = s.u.pcs++[recordedPc a s.needAdjustPc s.u.regs] := by
        rw [recordFpFrame, hu, ha]
      have hc : chainFrom e (head s)=chainFrom e s := by
        rw [chainFrom, hu, ha, chainFrom]
      by_cases hgo : (chainStep e a s.needAdjustPc s.u.regs).goesOn
      · have hr : fpRound e head most s=some (.inl (recordFpFrame e (head s))) := by
          rw [fpRound, hu, ha, if_neg hl, if_pos hgo]
        have hr2 := fpRank_chainStep hgo
        have hr3 : (recordFpFrame e (head s)).u.regs = (chainStep e a s.needAdjustPc s.u.regs).regs := by
          rw [recordFpFrame, hu, ha]
        obtain ⟨r, hrun, hp⟩ := ih (recordFpFrame e (head s)) (hn s hs (by omega))
          (by grind)
        refine ⟨r, by rw [loop_of_inl hr, hrun], ?_⟩
        rw [hp, hr1, ←hc, chainFrom_eq (head s), hu, ha, if_pos hgo, hl1, length_append, ←Nat.sub_sub, hl1,
          append_assoc]
        rfl
      · have hr : fpRound e head most s=some (.inr (recordFpFrame e (head s))) := by
          rw [fpRound, hu, ha, if_neg hl, if_neg hgo]
        refine ⟨_, loop_of_inr hr, ?_⟩
        rw [hr1, ←hc, chainFrom_eq (head s), hu, ha, if_neg hgo, hl1, take_succ_cons, take_nil]

theorem resetPcs_of_reset {s : FpLoop a} (h : s.resetFrames) : resetPcs skip s=s := if_neg fun hr => hr.1 h

theorem resetPcs_of_ne {s : FpLoop a} (h : s.u.pcs.length≠skip) : resetPcs skip s=s := if_neg fun hr => h hr.2.2

theorem resetPcs_zero (s : FpLoop a) : resetPcs 0 s=s := by simp [resetPcs]

theorem loop_fpRound_skip (hle : skip≤ most) (s : FpLoop a) (hr2 : ¬s.resetFrames)
    (hs2 : 0<skip) (hl2 : s.u.pcs.length≤ skip) (hf1 : fpRank (s.u.regs a.regFp) < fuel) :
    ∃ r, loop (fpRound e (resetPcs skip) most) fuel s=some r ∧ r.u.pcs =
        if (chainFrom e s).length≤ skip-s.u.pcs.length then s.u.pcs++chainFrom e s
        else ((chainFrom e s).drop (skip-s.u.pcs.length)).take most := by
  induction fuel generalizing s with
  | zero => omega
  | succ fuel ih =>
    by_cases hf : s.u.pcs.length=skip
    · -- the reset: from here on the loop records the rest of the chain
      have hh : resetPcs skip s={s with resetFrames := true, u := {s.u with pcs := []}} :=
        if_pos ⟨hr2, ne_of_gt hs2, hf⟩
      have hs1 : loop (fpRound e (resetPcs skip) most) (fuel+1) s = loop (fpRound e (resetPcs skip) most) (fuel+1)
            {s with resetFrames := true, u := {s.u with pcs := []}} := by
        rw [loop, loop, fpRound, fpRound, hh, resetPcs_of_reset rfl]
      obtain ⟨r, hrun, hp⟩ := loop_fpRound (e := e) (resetPcs skip) most
        (fun s => s.resetFrames)
        (fun s hs => ⟨by rw [resetPcs_of_reset hs], by rw [resetPcs_of_reset hs]⟩)
        (fun s hs _ => by rw [resetPcs_of_reset hs]; exact hs)
        {s with resetFrames := true, u := {s.u with pcs := []}} rfl hf1
      refine ⟨r, by rw [hs1, hrun], ?_⟩
      rw [hp, hf, Nat.sub_self]
      rfl
    · have hh : resetPcs skip s=s := resetPcs_of_ne hf
      have hl : ¬s.u.pcs.length ≥ most := by omega
      obtain ⟨left, hl1⟩ : ∃ left, skip-s.u.pcs.length=left+1 := ⟨skip-s.u.pcs.length-1, by omega⟩
      have hr1 : (recordFpFrame e s).u.pcs=s.u.pcs++[recordedPc a s.needAdjustPc s.u.regs] := rfl
      by_cases hgo : (chainStep e a s.needAdjustPc s.u.regs).goesOn
      · have hr : fpRound e (resetPcs skip) most s = some (.inl (recordFpFrame e s)) := by
          rw [fpRound, hh, if_neg hl, if_pos hgo]
        have hr3 := fpRank_chainStep hgo
        obtain ⟨r, hrun, hp⟩ := ih (recordFpFrame e s) hr2
          (by grind)
          (lt_of_lt_of_le hr3 (le_of_lt_succ hf1))
        refine ⟨r, by rw [loop_of_inl hr, hrun], ?_⟩
        rw [hp, hr1, length_append, length_singleton, ←Nat.sub_sub, hl1, chainFrom_eq s, if_pos hgo]
        simp
      · have hr : fpRound e (resetPcs skip) most s = some (.inr (recordFpFrame e s)) := by
          rw [fpRound, hh, if_neg hl, if_neg hgo]
        refine ⟨_, loop_of_inr hr, ?_⟩
        rw [chainFrom_eq s, if_neg hgo, hl1]
        exact (if_pos (le_add_left 1 left)).symm

theorem unwindByFp_pcs (u : Impl a) (most skip : ℕ) : ∃ out, unwindByFp e (2^64+1) most skip u=some out ∧ out.2.pcs =
      if skip=0 ∨ most<skip ∨ (fpChain e a (u.regs a.regFp) (u.regs a.regPc)).length≤ skip then
        (fpChain e a (u.regs a.regFp) (u.regs a.regPc)).take most
      else ((fpChain e a (u.regs a.regFp) (u.regs a.regPc)).drop skip).take most := by
  have hf : fpRank ((fpStart u).u.regs a.regFp) < 2^64 + 1 := fpRank_lt _
  have hof : ∀ r, loop (fpRound e (resetPcs skip) most) (2^64+1) (fpStart u) =
      some r → unwindByFp e (2^64+1) most skip u = some (decide (r.u.pcs.length > 0), r.u) := by
    intro r hrun
    rw [unwindByFp, hrun]
    rfl
  by_cases hs1 : skip=0
  · obtain ⟨r, hrun, hp⟩ := loop_fpRound (e := e) (resetPcs skip) most
      (fun _ => True)
      (fun s _ => by rw [hs1, resetPcs_zero]; exact ⟨rfl, rfl⟩) (fun _ _ _ => trivial)
      (fpStart u) trivial hf
    refine ⟨_, hof r hrun, ?_⟩
    rw [if_pos (.inl hs1)]
    exact hp
  by_cases hlt : most<skip
  · have hk : ∀ s : FpLoop a, s.u.pcs.length≤ most → resetPcs skip s=s := fun s hs => resetPcs_of_ne (by omega)
    obtain ⟨r, hrun, hp⟩ := loop_fpRound (e := e) (resetPcs skip) most
      (fun s => s.u.pcs.length≤ most)
      (fun s hs => by rw [hk s hs]; exact ⟨rfl, rfl⟩)
      (fun s hs hm => by
        rw [hk s hs, recordFpFrame, length_append]
        exact hm)
      (fpStart u) (zero_le _) hf
    refine ⟨_, hof r hrun, ?_⟩
    rw [if_pos (.inr (.inl hlt))]
    exact hp
  · obtain ⟨r, hrun, hp⟩ := loop_fpRound_skip (e := e) (Nat.le_of_not_lt hlt) (fpStart u)
      Bool.false_ne_true (Nat.pos_of_ne_zero hs1) (Nat.zero_le _) hf
    refine ⟨_, hof r hrun, ?_⟩
    have hc : chainFrom e (fpStart u)=fpChain e a (u.regs a.regFp) (u.regs a.regPc) := rfl
    rw [hc, show (fpStart u).u.pcs.length=0 from rfl, Nat.sub_zero] at hp
    rw [hp]
    by_cases hs2 : (fpChain e a (u.regs a.regFp) (u.regs a.regPc)).length≤ skip
    · rw [if_pos hs2, if_pos (.inr (.inr hs2)), take_of_length_le (by omega)]
      rfl
    · grind

/-! ## What a run visits -/

def visitedFps (e : Env) (maxFrameNum skipFrameNum : ℕ) : ℕ → FpLoop a → List Word
  | 0, _ => []
  | fuel+1, s =>
    s.u.regs a.regFp::match fpRound e (resetPcs skipFrameNum) maxFrameNum s with
      | some (.inl s') => visitedFps e maxFrameNum skipFrameNum fuel s'
      | _ => []

/-- Rising frame pointers, with a 0 at the end or not. -/
def RisingToZero (fps : List Word) : Prop :=
  ∃ rising : List Word, rising.Pairwise (fun x y => x.toNat<y.toNat) ∧ (fps=rising ∨ fps=rising++[0])

theorem fpStep_regs_of_not_ok {fp pc : Word} {regs : Regs} (h : ¬(fpStep (a := a) e fp pc regs).ok) :
    (fpStep (a := a) e fp pc regs).regs=regs := by
  unfold fpStep at h ⊢
  dsimp only at h ⊢
  split_ifs at h ⊢ with hz hfp hpc hb <;> simp_all

theorem fp_lt_of_fpRound {s s' : FpLoop a} (h : fpRound e (resetPcs skip) most s=some (.inl s')) :
    s.u.regs a.regFp≠0 ∧ (s'.u.regs a.regFp=0 ∨ (s.u.regs a.regFp).toNat<(s'.u.regs a.regFp).toNat) := by
  have hr1 : (resetPcs skip s).u.regs=s.u.regs := by
    unfold resetPcs
    split <;> rfl
  unfold fpRound at h
  dsimp only at h
  split_ifs at h with hl1 hgo <;> cases h
  have hr := fpRank_chainStep hgo
  rw [hr1] at hr
  have hn : (recordFpFrame e (resetPcs skip s)).u.regs =
      (chainStep e a (resetPcs skip s).needAdjustPc s.u.regs).regs := by
    rw [recordFpFrame, hr1]
  rw [hn]
  unfold fpRank at hr
  split_ifs at hr with hl hz
  · omega
  · exact ⟨hz, .inl hl⟩
  · omega
  · exact ⟨by assumption, .inr (by omega)⟩

theorem visitedFps_of_zero (most skip fuel : ℕ) {s : FpLoop a} (h : s.u.regs a.regFp=0) :
    visitedFps e most skip fuel s=[] ∨ visitedFps e most skip fuel s=[0] := by
  cases fuel with
  | zero => exact .inl rfl
  | succ fuel =>
    right
    rw [visitedFps, h]
    split
    · rename_i hr
      exact absurd h (fp_lt_of_fpRound hr).1
    · rfl

theorem visitedFps_rising (most skip fuel : ℕ) (s : FpLoop a) :
    ∃ rising : List Word, rising.Pairwise (fun x y => x.toNat<y.toNat) ∧
      (∀ fp∈rising, (s.u.regs a.regFp).toNat≤fp.toNat) ∧ (visitedFps e most skip fuel s=rising ∨
        visitedFps e most skip fuel s=rising++[0]) := by
  induction fuel generalizing s with
  | zero => exact ⟨[], .nil, nofun, .inl rfl⟩
  | succ fuel ih =>
    rw [visitedFps]
    split
    · rename_i s' hr
      obtain ⟨-, hl | hup⟩ := fp_lt_of_fpRound hr
      · refine ⟨[s.u.regs a.regFp], pairwise_singleton _ _, by simp, ?_⟩
        rcases visitedFps_of_zero (e := e) most skip fuel hl with hn | hz
        · exact .inl (by rw [hn])
        · exact .inr (by rw [hz]; rfl)
      · obtain ⟨rising, hp, hm1, hv⟩ := ih s'
        have ha : ∀ fp∈rising, (s.u.regs a.regFp).toNat<fp.toNat := fun fp hm => hup.trans_le (hm1 fp hm)
        refine ⟨s.u.regs a.regFp::rising, hp.cons ha, ?_, ?_⟩
        · simpa using fun fp hm => (ha fp hm).le
        · simpa using hv
    · exact ⟨[s.u.regs a.regFp], pairwise_singleton _ _, by simp, .inl rfl⟩

/-- `UnwindByFp` returns for every memory and all registers; it visits rising frame pointers and records a window of the
chain. -/
theorem unwindByFp_law (e : Env) (u : Impl a) (maxFrameNum skipFrameNum : ℕ) :
    ∃ out, unwindByFp e (2^64+1) maxFrameNum skipFrameNum u = some out ∧
      RisingToZero (visitedFps e maxFrameNum skipFrameNum (2^64+1) (fpStart u)) ∧ out.2.pcs.length ≤ maxFrameNum ∧
      (∀ fp pc regs, ¬(fpStep (a := a) e fp pc regs).ok → (fpStep (a := a) e fp pc regs).regs=regs) ∧
      (skipFrameNum<(fpChain e a (u.regs a.regFp) (u.regs a.regPc)).length → skipFrameNum≤ maxFrameNum →
        out.2.pcs=((fpChain e a (u.regs a.regFp) (u.regs a.regPc)).drop skipFrameNum).take maxFrameNum) := by
  obtain ⟨out, ho, hp1⟩ := unwindByFp_pcs (e := e) u maxFrameNum skipFrameNum
  obtain ⟨rising, hp, -, hv⟩ := visitedFps_rising (e := e) maxFrameNum skipFrameNum (2^64+1) (fpStart u)
  refine ⟨out, ho, ⟨rising, hp, hv⟩, ?_, fun fp pc regs => fpStep_regs_of_not_ok, fun hl hle => ?_⟩
  · rw [hp1]
    split_ifs <;> exact length_take_le _ _
  · rw [hp1]
    split_ifs with hs1
    · have hs : skipFrameNum=0 := by omega
      rw [hs, drop_zero]
    · rfl

end Recording

/-- A frame at 0x1000 with two callers, which return to 0x2010 and to 0x3010. -/
def twoCallers : Env where
  memory := .ofImage 0 []
  stackMemory := .ofImage 0x1000 [0x10, 0x10, 0, 0, 0, 0, 0, 0, 0x10, 0x20, 0, 0, 0, 0, 0, 0,
    0, 0, 0, 0, 0, 0, 0, 0, 0x10, 0x30, 0, 0, 0, 0, 0, 0]
  getMapByPc := fun _ => none
  findUnwindTable := fun _ => none
  union := 0
  rounds := 0
  unwindType := .local
  pacMask := 0
  enableLrFallback := false
  enableFpCheckMapExec := false
  isCrash := false

theorem unwindByFp_law_two_callers :
    fpChain twoCallers .x86_64 0x1000 0x4000 = [0x4000, 0x200f, 0x300f] ∧
    ∃ out, unwindByFp twoCallers (2^64 + 1) 5 1
        (.fresh (fun r => if r = 6 then 0x1000 else 0x4000) : Impl .x86_64) = some out ∧
      out.2.pcs = [0x200f, 0x300f] := by
  have h₁ : callerOf twoCallers 0x1000 = some (0x1010, 0x2010) := by decide +kernel
  have h₂ : callerOf twoCallers 0x1010 = some (0, 0x3010) := by decide +kernel
  have h₃ : callerOf twoCallers 0 = none := by decide +kernel
  have hc : fpChain twoCallers .x86_64 0x1000 0x4000 = [0x4000, 0x200f, 0x300f] := by
    rw [fpChain_of_some h₁, fpChain_of_some h₂, fpChain_of_none h₃]
    decide
  obtain ⟨out, ho, -, -, -, hw⟩ :=
    unwindByFp_law twoCallers (.fresh (fun r => if r = 6 then 0x1000 else 0x4000) : Impl .x86_64) 5 1
  refine ⟨hc, out, ho, (hw ?_ (by decide)).trans ?_⟩
  · exact hc ▸ (by decide : 1 < 3)
  · exact hc ▸ rfl

end Faultloggerd.Unwinder
