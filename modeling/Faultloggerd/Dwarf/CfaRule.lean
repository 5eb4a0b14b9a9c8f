import Faultloggerd.Dwarf.CallFrame

/-! # The CFA that a call-frame program defines

`trackInst` follows the definitions of the CFA through a program, each as DWARF has it: a register and
a 64-bit offset, or an expression. The interpreter keeps them in `cfaReg` and a union instead, where
register 0 stands for an expression and an offset has 32 bits (`Represents`). `parse_represents` is
the simulation over whole programs; from it follows when `getCfa` gives the CFA that was defined.
-/
namespace Faultloggerd.Dwarf
open RegLocState Option BitVec

/-- A register and an offset, where no register may be named yet, or an expression. A change of the register or of the
offset does not apply to an expression: it leaves the CFA undefined until the next whole definition. -/
inductive CfaRule where
  | register (reg : Option ℕ) (offset : Word)
  | expression (exprPtr : Word)
  | undefined
deriving DecidableEq

def upperHalf (w : Word) : Word := (w >>> 32) <<< 32

/-- The rule in force, and the upper half of the union in which the interpreter keeps it. -/
structure CfaRow where
  rule : CfaRule
  high : Word

structure CfaTrack where
  current : CfaRow
  saved : List CfaRow

namespace CfaRow

variable (t : Target)

def define (row : CfaRow) (reg offset : Word) : CfaRow :=
  if reg.toNat ≥ t.regLast then row else {row with rule := .register (some reg.toNat) offset}

def defineRegister (row : CfaRow) (reg : Word) : CfaRow :=
  if reg.toNat ≥ t.regLast then row
  else
    match row.rule with
    | .register _ offset => {row with rule := .register (some reg.toNat) offset}
    | _ => {row with rule := .undefined}

def defineOffset (row : CfaRow) (offset : Word) : CfaRow :=
  match row.rule with
  | .register reg _ => {row with rule := .register reg offset}
  | _ => {row with rule := .undefined}

end CfaRow

section Tracking

variable (t : Target) (cie : CommonInfoEntry)

def trackRow (row : CfaRow) : CfaInst → CfaRow
  | .defCfa reg offset => row.define t reg offset
  | .defCfaSf reg offset => row.define t reg (offset*cie.dataFactor)
  | .defCfaRegister reg => row.defineRegister t reg
  | .defCfaOffset offset => row.defineOffset offset
  | .defCfaOffsetSf offset => row.defineOffset (offset*cie.dataFactor)
  | .defCfaExpression exprPtr => ⟨.expression exprPtr, upperHalf exprPtr⟩
  | _ => row

def trackInst (track : CfaTrack) (inst : CfaInst) : CfaTrack :=
  match inst with
  | .rememberState => {track with saved := track.current :: track.saved}
  | .restoreState =>
    match track.saved with
    | [] => track
    | row :: saved => ⟨row, saved⟩
  | inst => {track with current := trackRow t cie track.current inst}

def trackAll (insts : List CfaInst) (track : CfaTrack) : CfaTrack :=
  insts.foldl (trackInst t cie) track

def CfaTrack.start (high : Word) : CfaTrack := ⟨⟨.register none 0, upperHalf high⟩, []⟩

end Tracking

section Executed

variable {t : Target} (m : DfxMemory) (pc : Word) (fde : FrameDescEntry)

def executedLoop (instEnd : Word) : ℕ → CfaState t → List CfaInst
  | 0, _ => []
  | fuel+1, s =>
    if s.pcOffset.toNat > pc.toNat ∨ s.instPtr.toNat ≥ instEnd.toNat then []
    else
      let s := {s with rsState := {s.rsState with pcStart := s.pcOffset}}
      match m.read s.instPtr 1 with
      | none => []
      | some opCode =>
        (readInst m fde.cie (opCode.setWidth 8) (s.instPtr+1)).1 ::
          match decodeDwCfa m fde.cie (opCode.setWidth 8) {s with instPtr := s.instPtr+1} with
          | (true, s) => executedLoop instEnd fuel s
          | (false, _) => []

def executed (fuel : ℕ) (instStart instEnd : Word) (rs : RegLocState t)
    (saved : List (RegLocState t)) : List CfaInst :=
  let rs := {rs with pcStart := fde.pcStart}
  executedLoop m pc fde instEnd fuel ⟨fde.pcStart, instStart, rs, rs, saved⟩

def programInsts (fuel : ℕ) (rs : RegLocState t) : List CfaInst :=
  let rs := {rs with returnAddressRegister := fde.cie.returnAddressRegister.setWidth 16}
  executed m pc fde fuel fde.cie.instructionsOff fde.cie.instructionsEnd rs [] ++
    match iterate m pc fde fuel fde.cie.instructionsOff fde.cie.instructionsEnd rs [] with
    | none => []
    | some s => executed m pc fde fuel fde.instructionsOff fde.instructionsEnd s.rsState s.saveRsStates

end Executed

variable {t : Target}

def Represents (rs : RegLocState t) (row : CfaRow) : Prop :=
  upperHalf rs.cfaExprPtr = row.high ∧
    match row.rule with
    | .register reg offset =>
      rs.cfaReg.toNat = reg.getD 0 ∧ reg.getD 0 < t.regLast ∧ rs.cfaRegOffset = offset.setWidth 32
    | .expression exprPtr => rs.cfaReg = 0 ∧ rs.cfaExprPtr = exprPtr ∧ exprPtr ≠ 0
    | .undefined => True

/-- The state of the interpreter and what was tracked, the saved states included. -/
def Tracks (s : CfaState t) (track : CfaTrack) : Prop :=
  Represents s.rsState track.current ∧ List.Forall₂ Represents s.saveRsStates track.saved

@[simp]
theorem upperHalf_setCfaRegOffset (rs : RegLocState t) (off : BitVec 32) :
    upperHalf (rs.setCfaRegOffset off).cfaExprPtr=upperHalf rs.cfaExprPtr := by
  unfold upperHalf setCfaRegOffset
  grind

theorem union_eq (w : Word) : w=upperHalf w|||(w.setWidth 32).setWidth 64 := by
  unfold upperHalf
  grind

variable {rs : RegLocState t} {row : CfaRow}

theorem Represents.congr {rs' : RegLocState t} (h : Represents rs row) (hr : rs'.cfaReg=rs.cfaReg)
    (hp : rs'.cfaExprPtr=rs.cfaExprPtr) : Represents rs' row := by
  simpa only [Represents, cfaRegOffset, hr, hp] using h

theorem setCfa_represents (h : Represents rs row) (reg off : Word)
    : Represents (rs.setCfa reg off) (row.define t reg off) := by
  unfold setCfa CfaRow.define
  split_ifs with hr
  · exact h
  · have hs := t.small
    refine ⟨by simpa using h.1, ?_, by simpa using hr, by simp⟩
    simp only [setCfaRegOffset, toNat_setWidth, getD_some]
    omega

theorem defineRegister_represents (h : Represents rs row) (reg : Word) :
    Represents (if reg.toNat ≥ t.regLast then rs else {rs with cfaReg := reg.setWidth 32})
      (row.defineRegister t reg) := by
  unfold CfaRow.defineRegister
  split_ifs with hr
  · exact h
  · obtain ⟨hh, hb⟩ := h
    split
    · rename_i old off hrule
      rw [hrule] at hb
      have hs := t.small
      refine ⟨hh, ?_, by simpa using hr, hb.2.2⟩
      grind
    · exact ⟨hh, trivial⟩

theorem setCfaRegOffset_represents (h : Represents rs row) (off : Word) :
    Represents (rs.setCfaRegOffset (off.setWidth 32)) (row.defineOffset off) := by
  obtain ⟨hh, hb⟩ := h
  unfold CfaRow.defineOffset
  split
  · rename_i reg old hrule
    rw [hrule] at hb
    exact ⟨by simpa using hh, hb.1, hb.2.1, by simp⟩
  · exact ⟨by simpa using hh, trivial⟩

theorem execRules_represents (cie : CommonInfoEntry) (backup : RegLocState t) {inst : CfaInst} (h : Represents rs row)
    (hp : inst ≠ .defCfaExpression 0) : Represents (execRules cie backup rs inst) (trackRow t cie row inst) := by
  cases inst with
  | defCfa reg off => exact setCfa_represents h reg off
  | defCfaSf reg off => exact setCfa_represents h reg _
  | defCfaRegister reg => exact defineRegister_represents h reg
  | defCfaOffset off => exact setCfaRegOffset_represents h off
  | defCfaOffsetSf off => exact setCfaRegOffset_represents h _
  | defCfaExpression exprPtr => exact ⟨rfl, rfl, rfl, fun h0 => hp (by rw [h0])⟩
  -- the others leave the CFA alone
  | register reg reg2 =>
    refine h.congr ?_ ?_ <;>
      · simp only [execRules, execRegister, setRule]
        split_ifs <;> simp
  | undefined reg | sameValue reg =>
    refine h.congr ?_ ?_ <;>
      · simp only [execRules, execUndefined, execSameValue, setType]
        split_ifs <;> simp
  | _ =>
    exact h.congr (by simp [execRules, setRule, restoreLoc])
      (by simp [execRules, setRule, restoreLoc])

theorem execInst_tracks (cie : CommonInfoEntry) {s : CfaState t} {track : CfaTrack} {inst : CfaInst}
    (h : Tracks s track) (hp : inst ≠ .defCfaExpression 0) :
    Tracks (execInst cie inst s) (trackInst t cie track inst) := by
  obtain ⟨hc, hs⟩ := h
  have hr : Represents (execRules cie s.backupRsState s.rsState inst) (trackRow t cie track.current inst) :=
    execRules_represents cie s.backupRsState hc hp
  cases inst with
  | rememberState => exact ⟨hc, .cons hc hs⟩
  | restoreState =>
    unfold trackInst execInst
    cases hs' : s.saveRsStates with
    | nil =>
      rw [hs', List.forall₂_nil_left_iff] at hs
      simp only [hs]
      exact ⟨hc, by rw [hs', hs]; exact .nil⟩
    | cons top rest =>
      rw [hs', List.forall₂_cons_left_iff] at hs
      obtain ⟨row, rows, hrow, hrows, hts⟩ := hs
      simp only [hts]
      exact ⟨hrow, hrows⟩
  | setLoc value | advanceLocN value | advanceLoc operand => exact ⟨hc, hs⟩
  | _ => exact ⟨hr, hs⟩

section Runs

variable (m : DfxMemory) (pc : Word) (fde : FrameDescEntry)

theorem readShortInst_ne (opCode : Byte) (ptr : Word) : (readShortInst m opCode ptr).1≠.defCfaExpression 0 := by
  unfold readShortInst
  split <;> simp [readUleb]

theorem readInst_ne (cie : CommonInfoEntry) (opCode : Byte) (ptr : Word)
    (hp : ptr≠0) : (readInst m cie opCode ptr).1≠.defCfaExpression 0 := by
  unfold readInst
  split <;> first
    | exact readShortInst_ne m opCode ptr
    | simp [readUleb, readSleb, readUlebUleb, readUlebSleb, readUlebBlock, readBlock, readEncoded]
      done
    | simpa [readBlock] using hp

theorem add_one_ne_zero_of_read (addr v : Word) (h : m.read addr 1=some v) : addr+1≠0 := by
  intro hz
  have hn := DfxMemory.toNat_succ_of_read h
  rw [hz] at hn
  cases hn

theorem iterateLoop_tracks (stop : Word) (fuel : ℕ) (s s' : CfaState t) (track : CfaTrack) (h : Tracks s track)
    (hrun : iterateLoop m pc fde stop fuel s = some s') :
    Tracks s' (trackAll t fde.cie (executedLoop m pc fde stop fuel s) track) := by
  induction fuel generalizing s track with
  | zero => simp [iterateLoop] at hrun
  | succ fuel ih =>
    unfold iterateLoop at hrun
    unfold executedLoop
    by_cases hpc : s.pcOffset.toNat > pc.toNat
    · rw [if_pos hpc, some.injEq] at hrun
      rw [if_pos (.inl hpc)]
      subst hrun
      exact ⟨h.1.congr rfl rfl, h.2⟩
    by_cases he : s.instPtr.toNat ≥ stop.toNat
    · rw [if_neg hpc, if_pos he, some.injEq] at hrun
      rw [if_pos (.inr he)]
      subst hrun
      exact ⟨h.1.congr rfl rfl, h.2⟩
    rw [if_neg hpc, if_neg he] at hrun
    rw [if_neg (by simp [hpc, he])]
    cases hr1 : m.read s.instPtr 1 with
    | none =>
      simp only [hr1, some.injEq] at hrun ⊢
      subst hrun
      exact ⟨h.1.congr rfl rfl, h.2⟩
    | some opCode =>
      simp only [hr1] at hrun ⊢
      -- the state with the new row start, before the inst
      have hr2 : Tracks ({s with
          rsState := {s.rsState with pcStart := s.pcOffset},
          instPtr := (readInst m fde.cie (opCode.setWidth 8) (s.instPtr+1)).2.1} : CfaState t)
          track := ⟨h.1.congr rfl rfl, h.2⟩
      have hne := readInst_ne m fde.cie (opCode.setWidth 8) (s.instPtr+1)
        (add_one_ne_zero_of_read m s.instPtr opCode hr1)
      have hn := execInst_tracks fde.cie hr2 hne
      cases hok : (readInst m fde.cie (opCode.setWidth 8) (s.instPtr+1)).2.2 with
      | true =>
        simp only [decodeDwCfa, hok] at hrun ⊢
        exact ih _ _ hn hrun
      | false =>
        simp only [decodeDwCfa, hok, some.injEq] at hrun ⊢
        subst hrun
        exact hn

theorem iterate_tracks {fuel : ℕ} {instStart stop : Word} {rs : RegLocState t} {saved : List (RegLocState t)}
    {s' : CfaState t} {track : CfaTrack} (hrs : Represents rs track.current)
    (hs : List.Forall₂ Represents saved track.saved) (hrun : iterate m pc fde fuel instStart stop rs saved = some s') :
    Tracks s' (trackAll t fde.cie (executed m pc fde fuel instStart stop rs saved) track) :=
  iterateLoop_tracks m pc fde stop fuel _ s' track ⟨hrs.congr rfl rfl, hs⟩ hrun

/-- `RegLocState()`: the constructor clears the offset and leaves the upper half of the union. -/
def freshState (t : Target) (union : Word) : RegLocState t := {cfaExprPtr := upperHalf union}

theorem freshState_represents (t : Target) (union : Word) :
    Represents (freshState t union) (CfaTrack.start union).current := by
  have hp : 0<t.regLast := Nat.lt_of_le_of_lt (Nat.zero_le _) t.spBounded
  refine ⟨?_, by simp [freshState], hp, ?_⟩
  · simp only [freshState, CfaTrack.start, upperHalf]
    grind
  · simp only [freshState, cfaRegOffset, upperHalf]
    simp

theorem parse_represents (fuel : ℕ) (rs0 rs : RegLocState t) (start : CfaTrack) (hs1 : Represents rs0 start.current)
    (hs : start.saved = []) (hp : parse m pc fde fuel rs0 = some rs) :
    Represents rs (trackAll t fde.cie (programInsts m pc fde fuel rs0) start).current := by
  obtain ⟨s, hc, hf⟩ := bind_eq_some_iff.mp hp
  obtain ⟨s', hl, rfl⟩ := map_eq_some_iff.mp hf
  have hrs : Represents {rs0 with returnAddressRegister := fde.cie.returnAddressRegister.setWidth 16} start.current :=
    hs1.congr rfl rfl
  have ht := iterate_tracks m pc fde hrs (by rw [hs]; exact .nil) hc
  have ht' := iterate_tracks m pc fde ht.1 ht.2 hl
  unfold programInsts
  simp only [hc, trackAll, List.foldl_append]
  exact ht'.1

end Runs

section Law

variable (m : DfxMemory) (fuel : ℕ) (regs : Regs)

/-- `getCfa` gives the register plus the offset, or the value of the expression; before a register is
named, or while the CFA is undefined, nothing is required. -/
def CfaLaw (rs : RegLocState t) : CfaRule → Prop
  | .register none _ => True
  | .register (some reg) offset => getCfa m fuel regs rs = some (.ok (regs reg+offset))
  | .expression exprPtr => getCfa m fuel regs rs = (eval t m regs fuel 0 exprPtr).map .ok
  | .undefined => True

/-- The offset fits 32 bits without a sign and the register is not register 0, whose offset is taken
for the address of an expression. -/
def CfaMet (t : Target) (row : CfaRow) : Prop :=
  match row.rule with
  | .register none _ => True
  | .register (some reg) offset =>
    if reg = 0 then
      let exprPtr := row.high ||| (offset.setWidth 32).setWidth 64
      exprPtr ≠ 0 ∧ eval t m regs fuel 0 exprPtr = some (regs 0+offset)
    else offset.toNat < 2^32
  | .expression _ | .undefined => True

theorem getCfa_expression (rs : RegLocState t) (hr : rs.cfaReg=0) (hp : rs.cfaExprPtr≠0) :
    getCfa m fuel regs rs=(eval t m regs fuel 0 rs.cfaExprPtr).map .ok := by
  simp only [getCfa, hr, ne_eq, hp, flush, map_map]
  rfl

theorem getCfa_register (rs : RegLocState t) (hr : rs.cfaReg≠0) (hlt : rs.cfaReg.toNat<t.regLast) :
    getCfa m fuel regs rs=some (.ok (regs rs.cfaReg.toNat+rs.cfaRegOffset.setWidth 64)) := by
  rw [getCfa, if_pos hr, if_neg (by omega)]

theorem offset_widen_iff (off : Word) : (off.setWidth 32).setWidth 64=off ↔ off.toNat<2^32 := by
  rw [←toNat_inj]
  grind

theorem cfaLaw_iff_of_represents (rs : RegLocState t) (row : CfaRow) (h : Represents rs row) :
    CfaLaw m fuel regs rs row.rule ↔ CfaMet m fuel regs t row := by
  obtain ⟨hh, hb⟩ := h
  unfold CfaMet
  cases hr1 : row.rule with
  | undefined => exact Iff.rfl
  | expression exprPtr =>
    simp only [hr1] at hb
    obtain ⟨hr, hp, hne⟩ := hb
    simp only [iff_true]
    rw [←hp]
    exact getCfa_expression m fuel regs rs hr (by rwa [hp])
  | register reg off =>
    cases reg with
    | none => simp [CfaLaw]
    | some reg =>
      simp only [hr1] at hb
      obtain ⟨hr, hlt, ho⟩ := hb
      have hu : row.high ||| (off.setWidth 32).setWidth 64=rs.cfaExprPtr := by
        rw [←hh, ←ho]
        exact (union_eq rs.cfaExprPtr).symm
      simp only [CfaLaw, hu]
      by_cases h0 : reg=0
      · have hz : rs.cfaReg=0 := by
          apply eq_of_toNat_eq
          rw [hr, h0]
          rfl
        rw [h0]
        by_cases hp : rs.cfaExprPtr=0
        · simp [getCfa, hz, hp]
        · rw [getCfa_expression m fuel regs rs hz hp, and_iff_right hp]
          simp
      · have hn : rs.cfaReg≠0 := by grind
        rw [if_neg h0, getCfa_register m fuel regs rs hn (by rwa [hr]), hr, ho, ← offset_widen_iff]
        simp only [some.injEq, Except.ok.injEq]
        exact BitVec.add_right_inj _

/-- After every program `getCfa` gives the CFA that was defined last exactly when it is an expression, or a register
other than 0 with an offset below 2 ^ 32. -/
theorem cfa_law_iff (pc : Word) (fde : FrameDescEntry) (rounds : ℕ) (union : Word) (rs : RegLocState t)
    (hparse : parse m pc fde rounds (freshState t union) = some rs) :
    CfaLaw m fuel regs rs
        (trackAll t fde.cie (programInsts m pc fde rounds (freshState t union)) (.start union)).current.rule ↔
      CfaMet m fuel regs t
        (trackAll t fde.cie (programInsts m pc fde rounds (freshState t union)) (.start union)).current :=
  cfaLaw_iff_of_represents m fuel regs rs _
    (parse_represents m pc fde rounds _ rs _ (freshState_represents t union) rfl hparse)

end Law

/-- An expression, a change of the offset, which does not apply to it, and then the CFA `sp + 16`. -/
def lateDefinition : DfxMemory := .ofImage 0x1000 [0x0f, 1, 0x30, 0x0e, 8, 0x0c, 31, 16]

def signedDefinition : DfxMemory := .ofImage 0x1000 [0x12, 31, 2]

def sampleFde (size : Word) : FrameDescEntry where
  pcStart := 0x100
  pcEnd := 0x200
  instructionsOff := 0x2000
  instructionsEnd := 0x2000
  cie := {dataAlignFactor := -8, instructionsOff := 0x1000, instructionsEnd := 0x1000 + size}

def sampleResult (union : Word) : RegLocState arm64 :=
  {pcStart := 0x100, pcEnd := 0x200, cfaReg := 31, cfaExprPtr := union}

def trackSample (m : DfxMemory) (size : Word) : CfaRule :=
  (trackAll arm64 (sampleFde size).cie (programInsts m 0x100 (sampleFde size) 4 (freshState arm64 0))
    (.start 0)).current.rule

theorem lateDefinition_law : trackSample lateDefinition 8 = .register (some 31) 16 ∧
    CfaLaw lateDefinition 0 (fun _ => 0x1000) (sampleResult 16) (trackSample lateDefinition 8) :=
  ⟨by decide, (cfa_law_iff lateDefinition 0 (fun _ => 0x1000) 0x100 (sampleFde 8) 4 0 (sampleResult 16)
    (by decide)).mpr (show (16 : Word).toNat < 2^32 by decide)⟩

/-- The CFA is 16 below the stack pointer; the offset is widened without its sign. -/
theorem signedDefinition_off :
    parse signedDefinition 0x100 (sampleFde 3) 4 (freshState arm64 0) = some (sampleResult 0xfffffff0) ∧
      trackSample signedDefinition 3 = .register (some 31) (-16) ∧
      getCfa signedDefinition 0 (fun _ => 0x1000) (sampleResult 0xfffffff0) = some (.ok 0x100000ff0) ∧
      ¬CfaLaw signedDefinition 0 (fun _ => 0x1000) (sampleResult 0xfffffff0) (trackSample signedDefinition 3) := by
  have ht : trackSample signedDefinition 3 = .register (some 31) (-16) := by decide
  have hg : getCfa signedDefinition 0 (fun _ => 0x1000) (sampleResult 0xfffffff0) = some (.ok 0x100000ff0) := rfl
  refine ⟨by decide, ht, hg, fun h => ?_⟩
  rw [ht, CfaLaw, hg] at h
  exact absurd (Except.ok.inj (some.inj h)) (by decide)

end Faultloggerd.Dwarf
