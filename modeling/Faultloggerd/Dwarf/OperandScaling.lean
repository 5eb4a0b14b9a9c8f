import Faultloggerd.Dwarf.CallFrame

/-! # The factors of offset rules

An offset rule has several encodings: with the register in the opcode, with an unsigned or a signed
operand, for a saved or for a computed value, and negated. DWARF multiplies the operand by the data
alignment factor in all of them.
-/
namespace Faultloggerd.Dwarf
open RegLocState

/-- The encodings of an offset rule; the first has the register in its opcode. -/
inductive OffsetForm where
  | offset (reg : BitVec 6)
  | offsetExtended
  | offsetExtendedSf
  | valOffset
  | valOffsetSf
  | gnuNegativeOffsetExtended

namespace OffsetForm

def opCode : OffsetForm → Byte
  | offset reg => 0x80 ||| reg.setWidth 8
  | offsetExtended => 0x05
  | offsetExtendedSf => 0x11
  | valOffset => 0x14
  | valOffsetSf => 0x15
  | gnuNegativeOffsetExtended => 0x2f

def operands (m : DfxMemory) (instPtr : Word) : OffsetForm → Word × Word
  | offset reg => (reg.setWidth 64, (m.readUleb128 instPtr).1)
  | offsetExtended | valOffset | gnuNegativeOffsetExtended =>
    ((m.readUleb128 instPtr).1, (m.readUleb128 (m.readUleb128 instPtr).2).1)
  | offsetExtendedSf | valOffsetSf => ((m.readUleb128 instPtr).1, (m.readSleb128 (m.readUleb128 instPtr).2).1)

def inst (reg n : Word) : OffsetForm → CfaInst
  | offset operand => .offset (operand.setWidth 8) n
  | offsetExtended => .offsetExtended reg n
  | offsetExtendedSf => .offsetExtendedSf reg n
  | valOffset => .valOffset reg n
  | valOffsetSf => .valOffsetSf reg n
  | gnuNegativeOffsetExtended => .gnuNegativeOffsetExtended reg n

def type : OffsetForm → RegLocEnum
  | offset _ | offsetExtended | offsetExtendedSf | gnuNegativeOffsetExtended => .memOffset
  | valOffset | valOffsetSf => .valOffset

/-- The offset that DWARF gives the rule. -/
def factored (cie : CommonInfoEntry) (n : Word) : OffsetForm → Word
  | gnuNegativeOffsetExtended => -(n*cie.dataFactor)
  | _ => n*cie.dataFactor

/-- The offset that `DecodeDwCfa` records. -/
def recorded (cie : CommonInfoEntry) (n : Word) : OffsetForm → Word
  | offset _ | offsetExtendedSf => n*cie.dataFactor
  | offsetExtended | valOffset | valOffsetSf => n*cie.codeFactor
  | gnuNegativeOffsetExtended => -n

/-- The factor that the encoding is read with acts on the operand like the data alignment factor. -/
def Scaled (cie : CommonInfoEntry) (n : Word) : OffsetForm → Prop
  | offset _ | offsetExtendedSf => True
  | offsetExtended | valOffset | valOffsetSf => n*cie.codeFactor = n*cie.dataFactor
  | gnuNegativeOffsetExtended => n = n*cie.dataFactor

theorem recorded_eq_iff (cie : CommonInfoEntry) (n : Word) (form : OffsetForm) :
    form.recorded cie n=form.factored cie n ↔ form.Scaled cie n := by
  cases form with
  | gnuNegativeOffsetExtended => exact BitVec.neg_inj
  | _ => simp [recorded, factored, Scaled]

end OffsetForm

variable {t : Target}

variable (m : DfxMemory) (cie : CommonInfoEntry)

theorem readInst_offset (reg : BitVec 6) (ptr : Word) : readInst m cie (0x80|||reg.setWidth 8) ptr =
      readUleb m ptr (.offset (reg.setWidth 8)) := by
  have hc : ∀ r : BitVec 6, ((0x80 : Byte) ||| r.setWidth 8).toNat=0x80+r.toNat := by decide
  have hh : ∀ r : BitVec 6, (((0x80 : Byte) ||| r.setWidth 8) &&& 0xc0).toNat=0x80 := by decide
  have hl : ∀ r : BitVec 6, ((0x80 : Byte) ||| r.setWidth 8) &&& 0x3f=r.setWidth 8 := by decide
  have hl1 := hc reg
  unfold readInst
  split <;> first
    | omega
    | simp only [readShortInst, hh reg, hl reg]

variable (form : OffsetForm)

theorem readInst_offsetForm (ptr : Word) : (readInst m cie form.opCode ptr).1 =
      form.inst (form.operands m ptr).1 (form.operands m ptr).2 := by
  cases form with
  | offset reg =>
    rw [OffsetForm.opCode, readInst_offset]
    rfl
  | _ => rfl

theorem execInst_offsetForm (m : DfxMemory) (ptr n : Word) (s : CfaState t) :
    (execInst cie (form.inst (form.operands m ptr).1 n) s).rsState =
      s.rsState.setRule (form.operands m ptr).1 form.type (form.recorded cie n) := by
  cases form with
  | offset reg =>
    rfl
  | _ => rfl

theorem decodeDwCfa_offsetForm (s : CfaState t) : (decodeDwCfa m cie form.opCode s).2.rsState =
      s.rsState.setRule (form.operands m s.instPtr).1 form.type (form.recorded cie (form.operands m s.instPtr).2) := by
  rw [decodeDwCfa, readInst_offsetForm]
  exact execInst_offsetForm cie form m s.instPtr _ _

theorem recordedRule_iff (s : CfaState t) (i : Fin t.qutRegs.length)
    (hreg : t.qutIdx ((form.operands m s.instPtr).1.setWidth 16) = some i) :
    (decodeDwCfa m cie form.opCode s).2.rsState = {s.rsState with
        locs := Function.update s.rsState.locs i ⟨form.type, form.factored cie (form.operands m s.instPtr).2⟩} ↔
      form.Scaled cie (form.operands m s.instPtr).2 := by
  rw [decodeDwCfa_offsetForm, ← OffsetForm.recorded_eq_iff]
  simp only [setRule, setLoc, hreg]
  constructor
  · intro h
    have hl := congrFun (congrArg locs h) i
    simpa using hl
  · intro h
    rw [h]

/-- An offset rule is recorded with its DWARF offset, and nothing else changes, exactly when the factor
of its encoding acts on the operand like the data alignment factor; so the extended encoding of a rule gives what the
short one gives exactly when the code alignment factor does. -/
theorem offset_rule_iff (m : DfxMemory) (cie : CommonInfoEntry) (form : OffsetForm)
    (s : CfaState t) (i : Fin t.qutRegs.length) (hreg : t.qutIdx ((form.operands m s.instPtr).1.setWidth 16) = some i) :
    ((decodeDwCfa m cie form.opCode s).2.rsState = {s.rsState with
        locs := Function.update s.rsState.locs i ⟨form.type, form.factored cie (form.operands m s.instPtr).2⟩} ↔
      form.Scaled cie (form.operands m s.instPtr).2) ∧
    ∀ reg, form = .offset reg → ∀ (m' : DfxMemory) (s' : CfaState t), s'.rsState = s.rsState →
      OffsetForm.offsetExtended.operands m' s'.instPtr = form.operands m s.instPtr →
        ((decodeDwCfa m' cie OffsetForm.offsetExtended.opCode s').2.rsState =
            (decodeDwCfa m cie form.opCode s).2.rsState ↔
          OffsetForm.offsetExtended.Scaled cie (form.operands m s.instPtr).2) := by
  refine ⟨recordedRule_iff m cie form s i hreg, ?_⟩
  rintro reg rfl m' s' hs ho
  have hshort := (recordedRule_iff m cie (.offset reg) s i hreg).mpr trivial
  have hlong := recordedRule_iff m' cie .offsetExtended s' i (by rwa [ho])
  rw [ho, hs] at hlong
  rw [hshort]
  exact hlong

def savedFramePointer : DfxMemory := .ofImage 0x1000 [29, 2]

def wordCie : CommonInfoEntry := {codeAlignFactor := 4, dataAlignFactor := -8}

def atOperands (instPtr : Word) : CfaState arm64 := ⟨0, instPtr, {}, {}, []⟩

theorem shortOffset_recorded :
    (decodeDwCfa savedFramePointer wordCie (OffsetForm.offset 29).opCode (atOperands 0x1001)).2.rsState =
      {locs := Function.update (fun _ => {}) ⟨1, by decide⟩ ⟨.memOffset, -16⟩} :=
  (offset_rule_iff savedFramePointer wordCie (.offset 29) (atOperands 0x1001) ⟨1, by decide⟩ (by decide)).1.mpr trivial

/-- The extended encoding records 8 above the CFA where the rule is 16 below it. -/
theorem extendedOffset_off : OffsetForm.offsetExtended.operands savedFramePointer 0x1000 = (29, 2) ∧
      arm64.qutIdx 29 = some ⟨1, by decide⟩ ∧
      (decodeDwCfa savedFramePointer wordCie OffsetForm.offsetExtended.opCode (atOperands 0x1000)).2.rsState ≠
        { locs := Function.update (fun _ => {}) ⟨1, by decide⟩
            ⟨.memOffset, OffsetForm.offsetExtended.factored wordCie 2⟩} := by
  decide

end Faultloggerd.Dwarf
