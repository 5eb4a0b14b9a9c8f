import Faultloggerd.Dwarf.Instructions

/-! # Call-frame programs: `DwarfCfaInstructions`

All operands of an instruction are read before any of them is checked, so decoding splits into reading
an instruction (`readInst`) and carrying it out (`execInst`). `parse` runs the program of the CIE and
then the one of the FDE up to the row of `pc`.
-/
namespace Faultloggerd.Dwarf
open Nat

structure CommonInfoEntry where
  codeAlignFactor : BitVec 32 := 0
  dataAlignFactor : BitVec 32 := 0
  returnAddressRegister : Word := 0
  hasAugmentationData : Bool := false
  isSignalFrame : Bool := false
  segmentSize : Byte := 0
  instructionsOff : Word := 0
  instructionsEnd : Word := 0
  personality : Byte := 0
  lsdaEncoding : Byte := 0
  pointerEncoding : Byte := 0

structure FrameDescEntry where
  pcStart : Word := 0
  pcEnd : Word := 0
  lsda : Word := 0
  instructionsOff : Word := 0
  instructionsEnd : Word := 0
  cieAddr : Word := 0
  cie : CommonInfoEntry := {}

def CommonInfoEntry.codeFactor (cie : CommonInfoEntry) : Word := cie.codeAlignFactor.setWidth 64

def CommonInfoEntry.dataFactor (cie : CommonInfoEntry) : Word := cie.dataAlignFactor.signExtend 64

inductive CfaInst where
  | nop
  | setLoc (value : Word)
  | advanceLocN (value : Word)
  | offsetExtended (reg offset : Word)
  | restoreExtended (reg : Word)
  | undefined (reg : Word)
  | sameValue (reg : Word)
  | register (reg reg2 : Word)
  | rememberState
  | restoreState
  | defCfa (reg offset : Word)
  | defCfaRegister (reg : Word)
  | defCfaOffset (offset : Word)
  | offsetExtendedSf (reg offset : Word)
  | defCfaSf (reg offset : Word)
  | defCfaOffsetSf (offset : Word)
  | valOffset (reg offset : Word)
  | valOffsetSf (reg offset : Word)
  | defCfaExpression (exprPtr : Word)
  | expression (reg exprPtr : Word)
  | valExpression (reg exprPtr : Word)
  | gnuNegativeOffsetExtended (reg offset : Word)
  | advanceLoc (operand : Byte)
  | offset (operand : Byte) (offset : Word)
  | restore (operand : Byte)
  | unknown
deriving DecidableEq

section Reading

variable (m : DfxMemory)

/-- What reading an instruction gives: the instruction, the pointer behind its operands, and whether
the block it carries ends below the end of the address space. A value that is read comes with the
pointer behind it. -/
abbrev ReadInst := CfaInst × Word × Bool

def readUleb (instPtr : Word) (inst : Word → CfaInst) : ReadInst :=
  let value := m.readUleb128 instPtr
  (inst value.1, value.2, true)

def readSleb (instPtr : Word) (inst : Word → CfaInst) : ReadInst :=
  let value := m.readSleb128 instPtr
  (inst value.1, value.2, true)

def readUlebUleb (instPtr : Word) (inst : Word → Word → CfaInst) : ReadInst :=
  let value := m.readUleb128 instPtr
  readUleb m value.2 (inst value.1)

def readUlebSleb (instPtr : Word) (inst : Word → Word → CfaInst) : ReadInst :=
  let value := m.readUleb128 instPtr
  readSleb m value.2 (inst value.1)

def readBlock (instPtr : Word) (inst : CfaInst) : ReadInst :=
  let exprLen := m.readUleb128 instPtr
  (inst, exprLen.2+exprLen.1, decide (exprLen.2.toNat+exprLen.1.toNat<2^64))

def readUlebBlock (instPtr : Word) (inst : Word → Word → CfaInst) : ReadInst :=
  let value := m.readUleb128 instPtr
  readBlock m value.2 (inst value.1 value.2)

def readEncoded (instPtr : Word) (encoding : Byte) (inst : Word → CfaInst) : ReadInst :=
  let value := m.readEncodedValue instPtr encoding
  (inst value.1, value.2, true)

def readShortInst (opCode : Byte) (instPtr : Word) : ReadInst :=
  let operand := opCode &&& 0x3f
  match (opCode &&& 0xc0).toNat with
  | 0x40 => (.advanceLoc operand, instPtr, true)
  | 0x80 => readUleb m instPtr (.offset operand)
  | 0xc0 => (.restore operand, instPtr, true)
  | _ => (.unknown, instPtr, true)

def readInst (cie : CommonInfoEntry) (opCode : Byte) (instPtr : Word) : ReadInst :=
  match opCode.toNat with
  | 0x00 => (.nop, instPtr, true)
  | 0x01 => readEncoded m instPtr cie.pointerEncoding .setLoc
  | 0x02 => readEncoded m instPtr 0x0d .advanceLocN
  | 0x03 => readEncoded m instPtr 0x02 .advanceLocN
  | 0x04 => readEncoded m instPtr 0x03 .advanceLocN
  | 0x05 => readUlebUleb m instPtr .offsetExtended
  | 0x06 => readUleb m instPtr .restoreExtended
  | 0x07 => readUleb m instPtr .undefined
  | 0x08 => readUleb m instPtr .sameValue
  | 0x09 => readUlebUleb m instPtr .register
  | 0x0a => (.rememberState, instPtr, true)
  | 0x0b => (.restoreState, instPtr, true)
  | 0x0c => readUlebUleb m instPtr .defCfa
  | 0x0d => readUleb m instPtr .defCfaRegister
  | 0x0e => readUleb m instPtr .defCfaOffset
  | 0x0f => readBlock m instPtr (.defCfaExpression instPtr)
  | 0x10 => readUlebBlock m instPtr .expression
  | 0x11 => readUlebSleb m instPtr .offsetExtendedSf
  | 0x12 => readUlebSleb m instPtr .defCfaSf
  | 0x13 => readSleb m instPtr .defCfaOffsetSf
  | 0x14 => readUlebUleb m instPtr .valOffset
  | 0x15 => readUlebSleb m instPtr .valOffsetSf
  | 0x16 => readUlebBlock m instPtr .valExpression
  -- DW_CFA_AARCH64_negate_ra_state on one target, an unknown opcode on the others
  | 0x2d => (.nop, instPtr, true)
  | 0x2f => readUlebUleb m instPtr .gnuNegativeOffsetExtended
  | _ => readShortInst m opCode instPtr

end Reading

variable {t : Target}

namespace RegLocState

def setLoc (rs : RegLocState t) (reg : Word)
    (f : Fin t.qutRegs.length → RegLoc → RegLoc) : RegLocState t :=
  match t.qutIdx (reg.setWidth 16) with
  | none => rs
  | some i => {rs with locs := Function.update rs.locs i (f i (rs.locs i))}

def setRule (rs : RegLocState t) (reg : Word) (type : RegLocEnum) (val : Word) : RegLocState t :=
  rs.setLoc reg fun _ _ => ⟨type, val⟩

def setType (rs : RegLocState t) (reg : Word) (type : RegLocEnum) : RegLocState t :=
  rs.setLoc reg fun _ loc => {loc with type := type}

def restoreLoc (rs backup : RegLocState t) (reg : Word) : RegLocState t :=
  rs.setLoc reg fun i _ => backup.locs i

def setCfa (rs : RegLocState t) (reg : Word) (offset : Word) : RegLocState t :=
  if reg.toNat ≥ t.regLast then rs
  else {rs with cfaReg := reg.setWidth 32}.setCfaRegOffset (offset.setWidth 32)

@[simp]
theorem cfaReg_setLoc (rs : RegLocState t) (reg : Word) (f : Fin t.qutRegs.length → RegLoc → RegLoc) :
    (rs.setLoc reg f).cfaReg=rs.cfaReg := by
  unfold setLoc
  split <;> rfl

@[simp]
theorem cfaExprPtr_setLoc (rs : RegLocState t) (reg : Word) (f : Fin t.qutRegs.length → RegLoc → RegLoc) :
    (rs.setLoc reg f).cfaExprPtr=rs.cfaExprPtr := by
  unfold setLoc
  split <;> rfl

end RegLocState

/-- The interpreter: the location, the rules, those at the start of the program and the saved ones. -/
structure CfaState (t : Target) where
  pcOffset : Word
  instPtr : Word
  rsState : RegLocState t
  backupRsState : RegLocState t
  saveRsStates : List (RegLocState t)

def execRegister (rs : RegLocState t) (reg reg2 : Word) : RegLocState t :=
  if (t.qutIdx (reg2.setWidth 16)).isSome then rs.setRule reg .register reg2 else rs

def execUndefined (rs : RegLocState t) (reg : Word) : RegLocState t :=
  let rs :=
    if reg = rs.returnAddressRegister.setWidth 64 then {rs with returnAddressUndefined := true}
    else rs
  rs.setType reg .undefined

def execSameValue (rs : RegLocState t) (reg : Word) : RegLocState t :=
  let rs :=
    if reg = rs.returnAddressRegister.setWidth 64 then {rs with returnAddressSame := true} else rs
  rs.setType reg .unused

def execRules (cie : CommonInfoEntry) (backup : RegLocState t) (rs : RegLocState t) :
    CfaInst → RegLocState t
  | .offsetExtended reg offset => rs.setRule reg .memOffset (offset*cie.codeFactor)
  | .restoreExtended reg => rs.restoreLoc backup reg
  | .undefined reg => execUndefined rs reg
  | .sameValue reg => execSameValue rs reg
  | .register reg reg2 => execRegister rs reg reg2
  | .defCfa reg offset => rs.setCfa reg offset
  | .defCfaRegister reg =>
    if reg.toNat ≥ t.regLast then rs else {rs with cfaReg := reg.setWidth 32}
  | .defCfaOffset offset => rs.setCfaRegOffset (offset.setWidth 32)
  | .offsetExtendedSf reg offset => rs.setRule reg .memOffset (offset*cie.dataFactor)
  | .defCfaSf reg offset => rs.setCfa reg (offset*cie.dataFactor)
  | .defCfaOffsetSf offset => rs.setCfaRegOffset ((offset*cie.dataFactor).setWidth 32)
  | .valOffset reg offset => rs.setRule reg .valOffset (offset*cie.codeFactor)
  | .valOffsetSf reg offset => rs.setRule reg .valOffset (offset*cie.codeFactor)
  | .defCfaExpression exprPtr => {rs with cfaReg := 0, cfaExprPtr := exprPtr}
  | .expression reg exprPtr => rs.setRule reg .memExpression exprPtr
  | .valExpression reg exprPtr => rs.setRule reg .valExpression exprPtr
  | .gnuNegativeOffsetExtended reg offset => rs.setRule reg .memOffset (-offset)
  | .offset operand offset => rs.setRule (operand.setWidth 64) .memOffset (offset*cie.dataFactor)
  | .restore operand => rs.restoreLoc backup (operand.setWidth 64)
  | .nop | .unknown | .setLoc _ | .advanceLocN _ | .advanceLoc _ | .rememberState
  | .restoreState => rs

def execInst (cie : CommonInfoEntry) (inst : CfaInst) (s : CfaState t) : CfaState t :=
  match inst with
  | .setLoc value => {s with pcOffset := value}
  | .advanceLocN value => {s with pcOffset := s.pcOffset+value*cie.codeFactor}
  -- the operand of the short form is multiplied in 32 bits
  | .advanceLoc operand =>
    {s with pcOffset := s.pcOffset+(operand.setWidth 32*cie.codeAlignFactor).setWidth 64}
  | .rememberState => {s with saveRsStates := s.rsState :: s.saveRsStates}
  | .restoreState =>
    match s.saveRsStates with
    | [] => s
    | top :: saved => {s with rsState := top, saveRsStates := saved}
  | inst => {s with rsState := execRules cie s.backupRsState s.rsState inst}

@[simp]
theorem instPtr_execInst (cie : CommonInfoEntry) (inst : CfaInst) (s : CfaState t) :
    (execInst cie inst s).instPtr=s.instPtr := by
  cases inst with
  | restoreState =>
    unfold execInst
    cases s.saveRsStates <;> rfl
  | _ => rfl

def decodeDwCfa (m : DfxMemory) (cie : CommonInfoEntry) (opCode : Byte) (s : CfaState t) :
    Bool × CfaState t :=
  let read := readInst m cie opCode s.instPtr
  (read.2.2, execInst cie read.1 {s with instPtr := read.2.1})

section Programs

variable (m : DfxMemory) (pc : Word) (fde : FrameDescEntry)

def iterateLoop (instEnd : Word) : ℕ → CfaState t → Option (CfaState t)
  | 0, _ => none
  | fuel+1, s =>
    if s.pcOffset.toNat > pc.toNat then
      some {s with rsState := {s.rsState with pcEnd := s.pcOffset}}
    else if s.instPtr.toNat ≥ instEnd.toNat then
      some {s with rsState := {s.rsState with pcEnd := fde.pcEnd}}
    else
      let s := {s with rsState := {s.rsState with pcStart := s.pcOffset}}
      match m.read s.instPtr 1 with
      | none => some s
      | some opCode =>
        match decodeDwCfa m fde.cie (opCode.setWidth 8) {s with instPtr := s.instPtr+1} with
        | (true, s) => iterateLoop instEnd fuel s
        | (false, s) => some s

section Rounds

variable {m pc fde} {stop opCode : Word} {s : CfaState t} (fuel : ℕ)

theorem iterateLoop_above (hpc : pc.toNat<s.pcOffset.toNat) : iterateLoop m pc fde stop (fuel+1) s =
    some {s with rsState := {s.rsState with pcEnd := s.pcOffset}} := if_pos hpc

theorem iterateLoop_behind (hpc : s.pcOffset.toNat≤pc.toNat) (hp : stop.toNat≤ s.instPtr.toNat) :
    iterateLoop m pc fde stop (fuel+1) s=some {s with rsState := {s.rsState with pcEnd := fde.pcEnd}} := by
  rw [iterateLoop, if_neg (not_lt.mpr hpc), if_pos hp]

theorem iterateLoop_unread (hpc : s.pcOffset.toNat≤pc.toNat) (hp : s.instPtr.toNat< stop.toNat)
    (hr : m.read s.instPtr 1=none) : iterateLoop m pc fde stop (fuel+1) s =
      some {s with rsState := {s.rsState with pcStart := s.pcOffset}} := by
  rw [iterateLoop, if_neg (not_lt.mpr hpc), if_neg (not_le.mpr hp)]
  simp [hr]

def CfaState.fetched (s : CfaState t) (instPtr : Word) : CfaState t :=
  {s with instPtr := instPtr, rsState := {s.rsState with pcStart := s.pcOffset}}

theorem iterateLoop_decode (hpc : s.pcOffset.toNat≤pc.toNat) (hp : s.instPtr.toNat< stop.toNat)
    (hr : m.read s.instPtr 1=some opCode) : iterateLoop m pc fde stop (fuel+1) s =
      let read := readInst m fde.cie (opCode.setWidth 8) (s.instPtr+1)
      let s' := execInst fde.cie read.1 (s.fetched read.2.1)
      if read.2.2 then iterateLoop m pc fde stop fuel s' else some s' := by
  rw [iterateLoop, if_neg (not_lt.mpr hpc), if_neg (not_le.mpr hp)]
  simp only [hr, decodeDwCfa]
  cases (readInst m fde.cie (opCode.setWidth 8) (s.instPtr+1)).2.2 <;> rfl

end Rounds

/-- `Iterate`, from the rules and the saved states that the earlier program left. -/
def iterate (fuel : ℕ) (instStart instEnd : Word) (rs : RegLocState t)
    (saved : List (RegLocState t)) : Option (CfaState t) :=
  let rs := {rs with pcStart := fde.pcStart}
  iterateLoop m pc fde instEnd fuel ⟨fde.pcStart, instStart, rs, rs, saved⟩

def parse (fuel : ℕ) (rs : RegLocState t) : Option (RegLocState t) :=
  let rs := {rs with returnAddressRegister := fde.cie.returnAddressRegister.setWidth 16}
  (iterate m pc fde fuel fde.cie.instructionsOff fde.cie.instructionsEnd rs []).bind fun s =>
    (iterate m pc fde fuel fde.instructionsOff fde.instructionsEnd s.rsState s.saveRsStates).map
      CfaState.rsState

end Programs

end Faultloggerd.Dwarf
