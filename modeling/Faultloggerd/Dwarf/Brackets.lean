import Faultloggerd.Dwarf.CallFrame

/-! # Remember and restore

Between a `DW_CFA_remember_state` and its `DW_CFA_restore_state` the saved states that were there before stay below
those that the program saves itself.
-/
namespace Faultloggerd.Dwarf
open List Option

/-- The states that are still saved behind a sequence; `none` where a restore has nothing of its own to restore. -/
def openAfter : ℕ → List CfaInst → Option ℕ
  | depth, [] => some depth
  | depth, .rememberState :: insts => openAfter (depth+1) insts
  | 0, .restoreState :: _ => none
  | depth+1, .restoreState :: insts => openAfter depth insts
  | depth, _ :: insts => openAfter depth insts

/-- Every state that is remembered is restored, and no other. -/
def Balanced (insts : List CfaInst) : Prop := openAfter 0 insts = some 0

instance (insts : List CfaInst) : Decidable (Balanced insts) := inferInstanceAs (Decidable (_=_))

def CfaInst.advancesLocation : CfaInst → Bool
  | .setLoc _ | .advanceLocN _ | .advanceLoc _ => true
  | _ => false

/-- The next `n` instructions of a program, if all of them decode, with the pointer behind them. -/
def decodeInsts (m : DfxMemory) (cie : CommonInfoEntry) (instEnd : Word) : ℕ → Word → Option (List CfaInst×Word)
  | 0, instPtr => some ([], instPtr)
  | n+1, instPtr =>
    if instPtr.toNat < instEnd.toNat then
      (m.read instPtr 1).bind fun opCode =>
        let read := readInst m cie (opCode.setWidth 8) (instPtr+1)
        if read.2.2 then (decodeInsts m cie instEnd n read.2.1).map fun rest => (read.1::rest.1, rest.2)
        else none
    else none

variable {t : Target}

theorem execInst_restore {s : CfaState t} {top : RegLocState t} {saved : List (RegLocState t)}
    (h : s.saveRsStates=top::saved) (cie : CommonInfoEntry) :
    execInst cie .restoreState s={s with rsState := top, saveRsStates := saved} := by
  unfold execInst
  simp [h]

/-- Since `start` nothing below the `depth` uppermost saved states was touched, nor the location. -/
structure Within (start : CfaState t) (depth : ℕ) (s : CfaState t) : Prop where
  saved : ∃ held, held.length = depth ∧ s.saveRsStates = held++start.saveRsStates
  pcOffset : s.pcOffset = start.pcOffset
  backup : s.backupRsState = start.backupRsState

theorem Within.refl (s : CfaState t) : Within s 0 s := ⟨⟨[], rfl, rfl⟩, rfl, rfl⟩

section Step

variable {start s : CfaState t} {depth depth' : ℕ} {inst : CfaInst} {insts : List CfaInst}

theorem Within.fetched (h : Within start depth s) (ptr : Word) : Within start depth (s.fetched ptr) :=
  ⟨h.saved, h.pcOffset, h.backup⟩

theorem Within.exec (h : Within start depth s) (hs1 : inst.advancesLocation=false)
    (ho : openAfter depth (inst::insts)=some depth') (cie : CommonInfoEntry) :
    ∃ next, openAfter next insts=some depth' ∧ Within start next (execInst cie inst s) := by
  obtain ⟨⟨held, hl, hs⟩, hpc, hb⟩ := h
  cases inst with
  | setLoc | advanceLocN | advanceLoc => cases hs1
  | rememberState =>
    refine ⟨depth+1, by simpa only [openAfter] using ho, ⟨s.rsState::held, ?_, ?_⟩, hpc, hb⟩
    · rw [length_cons, hl]
    · rw [cons_append, ←hs]
      rfl
  | restoreState =>
    cases depth with
    | zero => simp only [openAfter, reduceCtorEq] at ho
    | succ depth =>
      obtain ⟨top, held, rfl⟩ := exists_cons_of_length_eq_add_one hl
      rw [length_cons, Nat.add_right_cancel_iff] at hl
      rw [execInst_restore hs]
      exact ⟨depth, by simpa only [openAfter] using ho, ⟨held, hl, rfl⟩, hpc, hb⟩
  | _ => exact ⟨depth, by simpa only [openAfter] using ho, ⟨held, hl, hs⟩, hpc, hb⟩

theorem Within.restore (h : Within {start with saveRsStates := start.rsState::start.saveRsStates} 0 s)
    (cie : CommonInfoEntry) : execInst cie .restoreState s={start with instPtr := s.instPtr} := by
  obtain ⟨⟨held, hl, hs⟩, hpc, hb⟩ := h
  rw [eq_nil_of_length_eq_zero hl] at hs
  rw [execInst_restore hs, hpc, hb]

end Step

def execAll (cie : CommonInfoEntry) (insts : List CfaInst) (s : CfaState t) : CfaState t :=
  insts.foldl (fun s inst => execInst cie inst s) s

theorem Within.execAll {start s : CfaState t} {depth depth' : ℕ} {insts : List CfaInst} (h : Within start depth s)
    (hs : ∀ inst∈insts, inst.advancesLocation=false) (ho : openAfter depth insts=some depth')
    (cie : CommonInfoEntry) : Within start depth' (execAll cie insts s) := by
  induction insts generalizing s depth with
  | nil =>
    cases ho
    exact h
  | cons inst insts ih =>
    obtain ⟨next, hn, he⟩ := h.exec (hs inst mem_cons_self) ho cie
    exact ih he (fun inst hm => hs inst (mem_cons_of_mem _ hm)) hn

theorem instPtr_execAll (cie : CommonInfoEntry) (insts : List CfaInst) (s : CfaState t) :
    (execAll cie insts s).instPtr=s.instPtr := by
  induction insts generalizing s with
  | nil => rfl
  | cons inst insts ih => exact (ih _).trans (instPtr_execInst cie inst s)

section Runs

variable {m : DfxMemory} {pc : Word} {fde : FrameDescEntry} {stop last : Word} {s : CfaState t} {n : ℕ}

theorem iterateLoop_decodeInsts {inst : CfaInst} {insts : List CfaInst} (hpc : s.pcOffset.toNat≤pc.toNat)
    (hd : decodeInsts m fde.cie stop (n+1) s.instPtr=some (inst::insts, last)) :
    ∃ ptr, decodeInsts m fde.cie stop n ptr=some (insts, last) ∧ ∀ fuel, iterateLoop m pc fde stop (fuel+1) s =
        iterateLoop m pc fde stop fuel (execInst fde.cie inst (s.fetched ptr)) := by
  rw [decodeInsts, ite_none_right_eq_some, bind_eq_some_iff] at hd
  obtain ⟨hp, opCode, hr, hd⟩ := hd
  rw [ite_none_right_eq_some, map_eq_some_iff] at hd
  obtain ⟨hok, rest, hr1, heq⟩ := hd
  cases heq
  exact ⟨_, hr1, fun fuel => (iterateLoop_decode fuel hpc hp hr).trans (if_pos hok)⟩

theorem Within.iterateLoop_within {start : CfaState t} {depth depth' : ℕ} {insts rest : List CfaInst}
    (h : Within start depth s) (hpc : start.pcOffset.toNat≤pc.toNat)
    (hd : decodeInsts m fde.cie stop (insts.length+n) s.instPtr=some (insts++rest, last))
    (hs1 : ∀ inst∈insts, inst.advancesLocation=false) (ho : openAfter depth insts=some depth') :
    ∃ s', Within start depth' s' ∧ decodeInsts m fde.cie stop n s'.instPtr=some (rest, last) ∧
      ∀ fuel, iterateLoop m pc fde stop (fuel+(insts.length+n)) s=iterateLoop m pc fde stop (fuel+n) s' := by
  induction insts generalizing s depth with
  | nil =>
    cases ho
    rw [length_nil, Nat.zero_add] at hd ⊢
    exact ⟨s, h, hd, fun fuel => rfl⟩
  | cons inst insts ih =>
    rw [length_cons, Nat.add_right_comm] at hd ⊢
    have hs : s.pcOffset.toNat≤pc.toNat := h.pcOffset ▸ hpc
    obtain ⟨ptr, hr1, hr⟩ := iterateLoop_decodeInsts hs hd
    obtain ⟨next, hn, he⟩ := (h.fetched ptr).exec (hs1 inst mem_cons_self) ho fde.cie
    have hp : (execInst fde.cie inst (s.fetched ptr)).instPtr=ptr := instPtr_execInst ..
    obtain ⟨s', hs', hl, hrun⟩ := ih he (hp.symm ▸ hr1)
      (fun inst hm => hs1 inst (mem_cons_of_mem _ hm)) hn
    refine ⟨s', hs', hl, fun fuel => ?_⟩
    rw [←Nat.add_assoc, hr, hrun]

/-- A balanced sequence at one location, between remembering and restoring, changes nothing but the pointer. -/
theorem brackets_neutral (m : DfxMemory) (pc : Word) (fde : FrameDescEntry) (instEnd : Word)
    {insts : List CfaInst} (hstay : ∀ inst∈insts, inst.advancesLocation=false) (hbalanced : Balanced insts)
    (s : CfaState t) : execAll fde.cie (.rememberState::insts++[.restoreState]) s = s ∧
      ∀ last, s.pcOffset.toNat ≤ pc.toNat → decodeInsts m fde.cie instEnd (insts.length+2) s.instPtr =
          some (.rememberState::insts++[.restoreState], last) →
        ∀ fuel, iterateLoop m pc fde instEnd (fuel+(insts.length+2)) s =
          iterateLoop m pc fde instEnd fuel (s.fetched last) := by
  constructor
  · have hw := (Within.refl (execInst fde.cie .rememberState s)).execAll hstay hbalanced fde.cie
    have hp := instPtr_execAll fde.cie insts (execInst fde.cie .rememberState s)
    rw [instPtr_execInst] at hp
    rw [execAll, foldl_append]
    exact (hw.restore fde.cie).trans (by rw [hp])
  intro last hpc hd fuel
  obtain ⟨first, hr2, hr⟩ := iterateLoop_decodeInsts (n := insts.length+1) hpc hd
  have hs := Within.refl (execInst fde.cie .rememberState (s.fetched first))
  obtain ⟨s', hw, hc, hrun⟩ := hs.iterateLoop_within hpc hr2 hstay hbalanced
  obtain ⟨last', he, hr1⟩ := iterateLoop_decodeInsts (n := 0) (hw.pcOffset ▸ hpc) hc
  cases he
  have hb := (hw.fetched last).restore fde.cie
  have hc1 : fuel+(insts.length+2)=fuel+(insts.length+1)+1 := by omega
  rw [hc1, hr, hrun, hr1, hb]
  rfl

end Runs

def nestedInsts : List CfaInst :=
  [.defCfa 31 16, .rememberState, .offset 29 2, .restoreState, .undefined 30]

def nestedProgram : DfxMemory := .ofImage 0x1000 [0x0a, 0x0c, 31, 16, 0x0a, 0x9d, 2, 0x0b, 0x07, 30, 0x0b]

def nestedStart : CfaState arm64 := ⟨0x10, 0x1000, {}, {}, [{}]⟩

theorem nestedInsts_neutral : decodeInsts nestedProgram {} 0x1020 (nestedInsts.length+2) nestedStart.instPtr =
        some (.rememberState::nestedInsts++[.restoreState], 0x100b) ∧
      iterateLoop nestedProgram 0x10 {} 0x1020 (2+(nestedInsts.length+2)) nestedStart =
        iterateLoop nestedProgram 0x10 {} 0x1020 2 (nestedStart.fetched 0x100b) := by
  have hd : decodeInsts nestedProgram {} 0x1020 (nestedInsts.length+2) nestedStart.instPtr =
      some (.rememberState::nestedInsts++[.restoreState], 0x100b) := by decide +kernel
  have hs : ∀ inst∈nestedInsts, inst.advancesLocation=false := by decide
  have hb : Balanced nestedInsts := by decide
  have hn := brackets_neutral nestedProgram 0x10 {} 0x1020 hs hb nestedStart
  exact ⟨hd, hn.2 0x100b (Nat.le_refl _) hd 2⟩

end Faultloggerd.Dwarf
