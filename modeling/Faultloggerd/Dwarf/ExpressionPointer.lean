import Faultloggerd.Dwarf.Expression
import Faultloggerd.Dwarf.Leb128

/-! # The expression pointer

Where `Decode` leaves the expression pointer, whatever values the operation works with: a value that could not be read
or computed is on the stack, not in the pointer, unless it is the offset of a branch.
-/
namespace Faultloggerd.Dwarf
open Option

section Pointer

variable (t : Target) (m : DfxMemory)

def skipOperand (addr : Word) (size : ℕ) : Word := (m.readInto addr size 0).2

def branchPtr (addr : Word) : Option Word :=
  (readOperand m addr 2).map fun (offset, next) => next+signed offset 2

/-- The offset of a base register is read for a tracked register only. -/
def baseOffsetPtr (reg : BitVec 32) (addr : Word) : Word :=
  if (t.qutIdx (reg.setWidth 16)).isSome then (m.readSleb128 addr).2 else addr

def operandPtr (op : DwOp) (s : OpState) : Option Word :=
  match op with
  | .addr => some (skipOperand m s.addr 8)
  | .const size _ => some (skipOperand m s.addr size)
  | .constu | .regx => some (m.readUleb128 s.addr).2
  | .consts => some (m.readSleb128 s.addr).2
  | .pick => some (skipOperand m s.addr 1)
  | .plusUconst => some (if s.stack=[] then s.addr else (m.readUleb128 s.addr).2)
  | .derefSize => some (if s.stack=[] then s.addr else skipOperand m s.addr 1)
  | .skip => branchPtr m s.addr
  | .bra =>
    match s.stack with
    | [] => some s.addr
    | top :: _ => if top ≠ 0 then branchPtr m s.addr else some (skipOperand m s.addr 2)
  | .breg n => some (baseOffsetPtr t m (BitVec.ofNat 32 n) s.addr)
  | .bregx =>
    let (reg, next) := m.readUleb128 s.addr
    some (baseOffsetPtr t m (reg.setWidth 32) next)
  | _ => some s.addr

/-- `none` where an opcode or the offset of a branch cannot be read. -/
def decodePtr (s : OpState) : Option Word :=
  (readOperand m s.addr 1).bind fun (opcode, next) =>
    match DwOp.ofOpcode opcode.toNat with
    | none => some next
    | some op => operandPtr t m op {s with addr := next}

variable {t m} {s s' : OpState} {regs : Regs}

theorem readOperand_eq_some_iff {addr value next : Word} {size : ℕ} :
    readOperand m addr size=some (value, next) ↔ m.read addr size=some value ∧ next=addr+BitVec.ofNat 64 size := by
  rw [readOperand, map_eq_some_iff]
  constructor
  · rintro ⟨_, hr, heq⟩
    cases heq
    exact ⟨hr, rfl⟩
  · rintro ⟨hr, rfl⟩
    exact ⟨value, hr, rfl⟩

theorem skipOperand_of_readOperand {addr value next : Word} {size : ℕ}
    (h : readOperand m addr size=some (value, next)) :
    skipOperand m addr size=next := by
  obtain ⟨hr, rfl⟩ := readOperand_eq_some_iff.mp h
  rw [skipOperand, DfxMemory.readInto_zero_of_read hr]

theorem addr_pushReg {reg : BitVec 32} (h : pushReg t regs reg s=some s') : s'.addr=s.addr := by
  unfold pushReg at h
  split at h
  · obtain ⟨_, -, rfl⟩ := map_eq_some_iff.mp h
    rfl
  · cases h
    rfl

theorem addr_pushBReg {reg : BitVec 32} (h : pushBReg t m regs reg s=some s') :
    s'.addr=baseOffsetPtr t m reg s.addr := by
  unfold pushBReg at h
  unfold baseOffsetPtr
  split at h
  case isTrue ht =>
    obtain ⟨_, -, rfl⟩ := map_eq_some_iff.mp h
    rw [if_pos ht]
    rfl
  case isFalse ht =>
    cases h
    rw [if_neg ht]

theorem addr_opDerefSize (h : opDerefSize m s=some s') : operandPtr t m .derefSize s=some s'.addr := by
  obtain ⟨addr, stack⟩ := s
  cases stack with
  | nil =>
    cases h
    rfl
  | cons top stack =>
    obtain ⟨⟨operand, next⟩, hr, hw⟩ := bind_eq_some_iff.mp h
    have hs : operandPtr t m .derefSize ⟨addr, top::stack⟩=some next := congrArg some (skipOperand_of_readOperand hr)
    rw [hs]
    dsimp only at hw
    split at hw
    · cases hw
      rfl
    · obtain ⟨_, -, rfl⟩ := map_eq_some_iff.mp hw
      rfl

theorem addr_opBra (h : opBra m s=some s') : operandPtr t m .bra s=some s'.addr := by
  obtain ⟨addr, stack⟩ := s
  cases stack with
  | nil =>
    cases h
    rfl
  | cons top stack =>
    obtain ⟨⟨off, next⟩, hr, rfl⟩ := map_eq_some_iff.mp h
    dsimp only [operandPtr]
    by_cases ht : top≠0
    · rw [if_pos ht, if_pos ht, branchPtr, hr]
      rfl
    · rw [if_neg ht, if_neg ht, skipOperand_of_readOperand hr]

theorem operandPtr_of_execOp {op : DwOp} (h : execOp t m regs op s=some s') : operandPtr t m op s=some s'.addr := by
  cases op with
  | addr | const | pick =>
    obtain ⟨⟨value, next⟩, hr, rfl⟩ := map_eq_some_iff.mp h
    exact congrArg some (skipOperand_of_readOperand hr)
  | deref =>
    obtain ⟨addr, stack⟩ := s
    cases stack with
    | nil =>
      cases h
      rfl
    | cons top stack =>
      obtain ⟨_, -, rfl⟩ := map_eq_some_iff.mp h
      rfl
  | div | shl | shr | shra =>
    obtain ⟨_, -, rfl⟩ := map_eq_some_iff.mp h
    rfl
  | plusUconst =>
    cases h
    obtain ⟨addr, stack⟩ := s
    cases stack <;> rfl
  | skip =>
    obtain ⟨⟨off, next⟩, hr, rfl⟩ := map_eq_some_iff.mp h
    dsimp only [operandPtr]
    rw [branchPtr, hr]
    rfl
  | bra => exact addr_opBra h
  | reg n | regx => exact congrArg some (addr_pushReg h).symm
  | breg n | bregx => exact congrArg some (addr_pushBReg h).symm
  | derefSize => exact addr_opDerefSize h
  | _ =>
    cases h
    rfl

theorem decodePtr_of_decode {more : Bool} (h : decode t m regs s=some (more, s')) : decodePtr t m s=some s'.addr := by
  obtain ⟨⟨opcode, next⟩, hr, hop⟩ := bind_eq_some_iff.mp h
  rw [decodePtr, hr, bind_some]
  dsimp only at hop ⊢
  cases hk : DwOp.ofOpcode opcode.toNat with
  | none =>
    rw [hk] at hop
    cases hop
    rfl
  | some op =>
    rw [hk] at hop
    obtain ⟨_, he, heq⟩ := map_eq_some_iff.mp hop
    cases heq
    exact operandPtr_of_execOp he

end Pointer

end Faultloggerd.Dwarf
