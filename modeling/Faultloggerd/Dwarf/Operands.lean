import Faultloggerd.Dwarf.ExpressionPointer
import Faultloggerd.Dwarf.Headers

/-! # Operands of expressions

The operands that follow each opcode, as `dwarf_define.h` lists them, against the bytes that `Decode` consumes. Several
operations return before they have read their operands; the bytes left there are decoded as the next opcode.
-/
namespace Faultloggerd.Dwarf
open Foundations.Leb128 List BitVec DfxMemory Nat

/-- A block comes with its size, a number or a single byte. -/
inductive Operand where
  | bytes (size : ℕ)
  | uleb
  | sleb
  | block
  | sizedBlock
deriving DecidableEq

def operandsOf (form : LengthForm) (opcode : ℕ) : List Operand :=
  if 0x70 ≤ opcode ∧ opcode ≤ 0x8f then [.sleb]
  else
    match opcode with
    | 0x03 => [.bytes 8]
    | 0x08 | 0x09 => [.bytes 1]
    | 0x0a | 0x0b => [.bytes 2]
    | 0x0c | 0x0d => [.bytes 4]
    | 0x0e | 0x0f => [.bytes 8]
    | 0x10 => [.uleb]
    | 0x11 => [.sleb]
    | 0x15 => [.bytes 1]
    | 0x23 => [.uleb]
    | 0x28 | 0x2f => [.bytes 2]
    | 0x90 => [.uleb]
    | 0x91 => [.sleb]
    | 0x92 => [.uleb, .sleb]
    | 0x93 => [.uleb]
    | 0x94 | 0x95 => [.bytes 1]
    | 0x98 => [.bytes 2]
    | 0x99 => [.bytes 4]
    | 0x9a => [.bytes form.fieldSize.toNat]
    | 0x9d => [.uleb, .uleb]
    | 0x9e => [.block]
    | 0xa0 => [.bytes form.fieldSize.toNat, .sleb]
    | 0xa1 | 0xa2 => [.uleb]
    | 0xa3 => [.block]
    | 0xa4 => [.uleb, .sizedBlock]
    | 0xa5 => [.uleb, .uleb]
    | 0xa6 | 0xa7 => [.bytes 1, .uleb]
    | 0xa8 | 0xa9 => [.uleb]
    | _ => []

/-- The operand stands at the address, encoded by `bs`. -/
def Operand.At (m : DfxMemory) (addr : Word) (bs : List Byte) : Operand → Prop
  | .bytes size => bs.length = size ∧ m.read addr size = some (ofBytes bs)
  | .uleb | .sleb => IsLeb bs ∧ HoldsBytes m addr bs
  | .block => addr.toNat+bs.length < 2^64 ∧ ∃ number content, bs = number ++ content ∧
      IsLeb number ∧ HoldsBytes m addr number ∧ content.length = unsignedValue number
  | .sizedBlock => addr.toNat+bs.length < 2^64 ∧ ∃ number content, bs = number :: content ∧
      m.read addr 1 = some (number.setWidth 64) ∧ content.length = number.toNat

/-- The operands stand one behind the other from the address on, in these encodings. -/
def OperandsAt (m : DfxMemory) : Word → List Operand → List (List Byte) → Prop
  | _, [], [] => True
  | addr, op :: ops, bs :: enc => op.At m addr bs ∧ OperandsAt m (addr+BitVec.ofNat 64 bs.length) ops enc
  | _, _, _ => False

section Lengths

variable {m : DfxMemory} {addr : Word} {bs : List Byte} {op : Operand} {ops : List Operand} {enc : List (List Byte)}

theorem length_pos_of_isLeb (h : IsLeb bs) : 0<bs.length := by
  cases h <;> exact succ_pos _

theorem Operand.At.length_pos (h : op.At m addr bs) (hop : op≠.bytes 0) : 0<bs.length := by
  cases op with
  | bytes size =>
    rw [h.1]
    exact Nat.pos_of_ne_zero fun hz => hop (congrArg Operand.bytes hz)
  | uleb | sleb => exact length_pos_of_isLeb h.1
  | block =>
    obtain ⟨-, number, content, rfl, hl, -⟩ := h
    have hp := length_pos_of_isLeb hl
    grind
  | sizedBlock =>
    obtain ⟨-, number, content, rfl, -⟩ := h
    exact succ_pos _

theorem Operand.At.add_lt (h : op.At m addr bs) (hop : op≠.bytes 0) : addr.toNat+bs.length<2^64 := by
  have hp := h.length_pos hop
  cases op with
  | bytes size =>
    rw [h.1] at hp ⊢
    exact add_lt_of_read (ne_of_gt hp) h.2
  | uleb | sleb => exact h.2.add_lt
  | block | sizedBlock => exact h.1

section

variable (h : OperandsAt m addr ops enc)
include h

theorem OperandsAt.add_lt (ho : .bytes 0∉ops) :
    addr.toNat+enc.flatten.length<2^64 := by
  induction ops generalizing addr enc with
  | nil =>
    cases enc with
    | nil => exact addr.isLt
    | cons => cases h
  | cons op ops ih =>
    cases enc with
    | nil => cases h
    | cons bs enc =>
      obtain ⟨hop, hr⟩ := h
      have hf := hop.add_lt fun heq => ho (heq ▸ mem_cons_self)
      have hlt := ih hr fun hm => ho (mem_cons_of_mem _ hm)
      grind

theorem OperandsAt.length_pos (ho : .bytes 0∉ops) (hne : ops≠[]) :
    0<enc.flatten.length := by
  cases ops with
  | nil => exact absurd rfl hne
  | cons op ops =>
    cases enc with
    | nil => cases h
    | cons bs enc =>
      have hp := h.1.length_pos fun heq => ho (heq ▸ mem_cons_self)
      grind

theorem OperandsAt.not_stays (ho : .bytes 0∉ops) (hne : ops≠[]) :
    some addr≠some (addr+BitVec.ofNat 64 enc.flatten.length) := by
  intro heq
  have hp := h.length_pos ho hne
  have hlt := h.add_lt ho
  grind

end

end Lengths

def DwOp.operands : DwOp → List Operand
  | .addr => [.bytes 8]
  | .const size _ => [.bytes size]
  | .constu | .plusUconst | .regx => [.uleb]
  | .consts | .breg _ => [.sleb]
  | .pick | .derefSize => [.bytes 1]
  | .skip | .bra => [.bytes 2]
  | .bregx => [.uleb, .sleb]
  | _ => []

theorem operandsOf_known (form : LengthForm) (opcode : Byte) :
    ∀ op∈DwOp.ofOpcode opcode.toNat, op=.nop ∨ operandsOf form opcode.toNat=op.operands := by
  revert opcode
  cases form <;> decide +kernel

theorem operandsOf_nonempty (form : LengthForm) (opcode : Byte) : .bytes 0∉operandsOf form opcode.toNat := by
  revert opcode
  cases form <;> decide +kernel

/-- Behind the operands, or where a branch leads; the state is the one behind the opcode. -/
def expectedPtr (op : Option DwOp) (enc : List (List Byte)) (s : OpState) : Word :=
  let next := s.addr+BitVec.ofNat 64 enc.flatten.length
  match op with
  | some .skip => next+signed (ofBytes enc.flatten) 2
  | some .bra => if s.stack.headD 0 ≠ 0 then next+signed (ofBytes enc.flatten) 2 else next
  | _ => next

/-- `Decode` leaves the pointer where the encoding of the operands says. -/
def OperandLaw (t : Target) (m : DfxMemory) (opcode : Byte) (enc : List (List Byte)) (s : OpState) : Prop :=
  decodePtr t m s = some (expectedPtr (DwOp.ofOpcode opcode.toNat) enc {s with addr := s.addr+1})

instance (t : Target) (m : DfxMemory) (opcode : Byte) (enc : List (List Byte)) (s : OpState) :
    Decidable (OperandLaw t m opcode enc s) := inferInstanceAs (Decidable (_=_))

/-- The operation comes to read its operands: it is implemented or has none, its stack is not empty, its register is
tracked. -/
def ReadsOperands (t : Target) (ops : List Operand) (op : Option DwOp) (enc : List (List Byte))
    (stack : List Word) : Prop :=
  match op with
  | none | some .nop => ops = []
  | some .plusUconst | some .bra | some .derefSize => stack ≠ []
  | some (.breg n) => (t.qutIdx (BitVec.ofNat 16 n)).isSome
  | some .bregx => (t.qutIdx (BitVec.ofNat 16 (unsignedValue (enc.headD [])))).isSome
  | some _ => True

section Operation

variable {t : Target} {m : DfxMemory} {addr : Word} {bs : List Byte} {enc : List (List Byte)}

theorem operandsAt_nil (h : OperandsAt m addr [] enc) : enc=[] := by
  cases enc with
  | nil => rfl
  | cons => cases h

theorem operandsAt_one {op : Operand} (h : OperandsAt m addr [op] enc) : ∃ bs, enc=[bs] ∧ op.At m addr bs := by
  cases enc with
  | nil => cases h
  | cons bs enc => exact ⟨bs, by rw [operandsAt_nil h.2], h.1⟩

theorem readOperand_of_at {size : ℕ} (h : (Operand.bytes size).At m addr bs) :
    readOperand m addr size=some (ofBytes bs, addr+BitVec.ofNat 64 bs.length) :=
  readOperand_eq_some_iff.mpr ⟨h.2, by rw [h.1]⟩

theorem setWidth_ofNat (n : ℕ) : (BitVec.ofNat 32 n).setWidth 16=BitVec.ofNat 16 n :=
  setWidth_ofNat_of_le (by decide) n

theorem skipOperand_of_at {size : ℕ} (h : OperandsAt m addr [.bytes size] enc) :
    skipOperand m addr size=addr+BitVec.ofNat 64 enc.flatten.length := by
  obtain ⟨bs, rfl, hb⟩ := operandsAt_one h
  rw [flatten_singleton]
  exact skipOperand_of_readOperand (readOperand_of_at hb)

theorem branchPtr_of_at (h : OperandsAt m addr [.bytes 2] enc) :
    branchPtr m addr=some (addr+BitVec.ofNat 64 enc.flatten.length+signed (ofBytes enc.flatten) 2) := by
  obtain ⟨bs, rfl, hb⟩ := operandsAt_one h
  rw [branchPtr, readOperand_of_at hb, flatten_singleton]
  rfl

theorem readUleb128_of_at (h : OperandsAt m addr [.uleb] enc) :
    (m.readUleb128 addr).2=addr+BitVec.ofNat 64 enc.flatten.length := by
  obtain ⟨bs, rfl, hl, hb⟩ := operandsAt_one h
  rw [flatten_singleton, readUleb128_of_holds hl hb]

theorem baseOffsetPtr_iff {r : BitVec 32} (h : OperandsAt m addr [.sleb] enc) :
    some (baseOffsetPtr t m r addr)=some (addr+BitVec.ofNat 64 enc.flatten.length) ↔
      (t.qutIdx (r.setWidth 16)).isSome := by
  rw [baseOffsetPtr]
  by_cases ht : (t.qutIdx (r.setWidth 16)).isSome=true
  · obtain ⟨bs, rfl, hl, hb⟩ := operandsAt_one h
    rw [if_pos ht, flatten_singleton, readSleb128_of_holds hl hb]
    exact iff_of_true rfl ht
  · rw [if_neg ht]
    exact iff_of_false (h.not_stays (by decide) (by decide)) ht

theorem operandPtr_iff {op : DwOp} (hop : op≠.nop) (h : OperandsAt m addr op.operands enc) (stack : List Word) :
    operandPtr t m op ⟨addr, stack⟩=some (expectedPtr (some op) enc ⟨addr, stack⟩) ↔
      ReadsOperands t op.operands (some op) enc stack := by
  cases op with
  | nop => exact absurd rfl hop
  | addr | const | pick => exact iff_of_true (congrArg some (skipOperand_of_at h)) trivial
  | constu | regx => exact iff_of_true (congrArg some (readUleb128_of_at h)) trivial
  | consts =>
    obtain ⟨bs, rfl, hl, hb⟩ := operandsAt_one h
    refine iff_of_true (congrArg some ?_) trivial
    change _=addr+BitVec.ofNat 64 [bs].flatten.length
    rw [flatten_singleton, readSleb128_of_holds hl hb]
  | skip => exact iff_of_true (branchPtr_of_at h) trivial
  | plusUconst =>
    cases stack with
    | nil => exact iff_of_false (h.not_stays (by decide) (by decide)) fun hne => hne rfl
    | cons top stack => exact iff_of_true (congrArg some (readUleb128_of_at h)) (cons_ne_nil _ _)
  | derefSize =>
    cases stack with
    | nil => exact iff_of_false (h.not_stays (by decide) (by decide)) fun hne => hne rfl
    | cons top stack => exact iff_of_true (congrArg some (skipOperand_of_at h)) (cons_ne_nil _ _)
  | bra =>
    cases stack with
    | nil => exact iff_of_false (h.not_stays (by decide) (by decide)) fun hne => hne rfl
    | cons top stack =>
      refine iff_of_true ?_ (cons_ne_nil _ _)
      change (if top≠0 then branchPtr m addr else some (skipOperand m addr 2))=some (if top≠0 then _ else _)
      by_cases ht : top≠0
      · rw [if_pos ht, if_pos ht, branchPtr_of_at h]
      · rw [if_neg ht, if_neg ht, skipOperand_of_at h]
  | breg n =>
    have hp := baseOffsetPtr_iff (t := t) (r := BitVec.ofNat 32 n) h
    rwa [setWidth_ofNat] at hp
  | bregx =>
    cases enc with
    | nil => cases h
    | cons number enc =>
      obtain ⟨⟨hl, hb⟩, hr⟩ := h
      have hn := readUleb128_of_holds hl hb
      dsimp only [operandPtr, expectedPtr, ReadsOperands, headD_cons]
      rw [hn, flatten_cons, length_append, BitVec.ofNat_add, ←BitVec.add_assoc,
        baseOffsetPtr_iff hr, BitVec.setWidth_ofNat_of_le (by decide), setWidth_ofNat]
  | _ =>
    rw [operandsAt_nil h]
    exact iff_of_true (congrArg some (BitVec.add_zero addr).symm) trivial

/-- The pointer moves behind the operands exactly when the operation comes to read them. -/
theorem operandLaw_iff (form : LengthForm) {opcode : Byte} {s : OpState}
    (hopcode : m.read s.addr 1=some (opcode.setWidth 64))
    (henc : OperandsAt m (s.addr+1) (operandsOf form opcode.toNat) enc) : OperandLaw t m opcode enc s ↔
      ReadsOperands t (operandsOf form opcode.toNat) (DwOp.ofOpcode opcode.toNat) enc s.stack := by
  have hr : readOperand m s.addr 1=some (opcode.setWidth 64, s.addr+1) := readOperand_eq_some_iff.mpr ⟨hopcode, rfl⟩
  have hn : (opcode.setWidth 64).toNat=opcode.toNat := toNat_setWidth_of_le (by decide)
  rw [OperandLaw, decodePtr, hr, Option.bind_some]
  dsimp only
  rw [hn]
  have hp := operandsOf_nonempty form opcode
  -- an operation that reads none of its operands
  have hs : some (s.addr+1)=some (s.addr+1+BitVec.ofNat 64 enc.flatten.length) ↔ operandsOf form opcode.toNat=[] := by
    refine ⟨fun heq => Classical.byContradiction fun hne => henc.not_stays hp hne heq, fun hn2 => ?_⟩
    rw [hn2] at henc
    rw [operandsAt_nil henc]
    exact congrArg some (BitVec.add_zero _).symm
  cases hop : DwOp.ofOpcode opcode.toNat with
  | none => exact hs
  | some op =>
    obtain rfl | hk := operandsOf_known form opcode op hop
    · exact hs
    · by_cases hn1 : op=.nop
      · subst hn1
        exact hs
      · rw [hk] at henc ⊢
        exact operandPtr_iff hn1 henc s.stack

end Operation

def stackBase : DfxMemory := .ofImage 0x1000 [0x8f, 0x10]

theorem stackBase_law : stackBase.read 0x1000 1 = some 0x8f ∧
    OperandsAt stackBase 0x1001 (operandsOf .short 0x8f) [[0x10]] ∧
      OperandLaw arm64 stackBase 0x8f [[0x10]] ⟨0x1000, []⟩ := by
  have hr : stackBase.read 0x1000 1=some 0x8f := by decide
  have he : OperandsAt stackBase 0x1001 (operandsOf .short 0x8f) [[0x10]] := ⟨⟨.last (by decide), by decide⟩, trivial⟩
  have ht : (arm64.qutIdx 31).isSome=true := by decide
  exact ⟨hr, he, (operandLaw_iff (s := ⟨0x1000, []⟩) .short hr he).mpr ht⟩

/-- `DW_OP_breg1 4`: the register is not tracked, and the offset is the next opcode. -/
def otherBase : DfxMemory := .ofImage 0x1000 [0x71, 0x04]

theorem otherBase_operand_left : otherBase.read 0x1000 1 = some 0x71 ∧
    OperandsAt otherBase 0x1001 (operandsOf .short 0x71) [[0x04]] ∧
      decode arm64 otherBase (fun _ => 0) ⟨0x1000, [0]⟩ = some (true, ⟨0x1001, [0]⟩) ∧
        ¬OperandLaw arm64 otherBase 0x71 [[0x04]] ⟨0x1000, [0]⟩ :=
  ⟨by decide, ⟨⟨.last (by decide), by decide⟩, trivial⟩, by decide, by decide⟩

end Faultloggerd.Dwarf
