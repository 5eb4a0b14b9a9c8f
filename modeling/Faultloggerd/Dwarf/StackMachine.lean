import Faultloggerd.Dwarf.Expression
import Mathlib.Algebra.Group.Int.Defs

/-! # The DWARF stack machine

What the operators mean, apart from the interpreter: an expression is a list of operators with their operands, a word is
a number modulo `2 ^ 64`, relational operators compare signed numbers. An operator that lacks an operand, a division by
zero, a shift by the word size and a register that the register file does not hold have no meaning. Branches, calls and
operators that need a context (a frame base, an object, a second address space) are not operators of a straight-line
expression.
-/
namespace Faultloggerd.Dwarf.StackMachine

inductive Unary where
  | abs | neg | not
deriving DecidableEq

inductive Binary where
  | and | div | minus | mod | mul | or | plus | shl | shr | shra | xor
  | eq | ge | gt | le | lt | ne
deriving DecidableEq

inductive Operation where
  | push (value : Word)
  | deref
  | derefSize (size : ℕ)
  | dup
  | drop
  | over
  | pick (index : ℕ)
  | swap
  | rot
  | unary (op : Unary)
  | binary (op : Binary)
  | plusUconst (value : Word)
  | reg (n : ℕ)
  | breg (n : ℕ) (offset : Word)
  | nop
deriving DecidableEq

def Unary.value : Unary → Word → Word
  | .abs, x => BitVec.ofNat 64 x.toInt.natAbs
  | .neg, x => BitVec.ofInt 64 (-x.toInt)
  | .not, x => BitVec.ofNat 64 (2^64-1-x.toNat)

/-- `top` is the former top of the stack, `x` the entry below it. -/
def Binary.value (x top : Word) : Binary → Option Word
  | .and => some (x &&& top)
  | .or => some (x ||| top)
  | .xor => some (x ^^^ top)
  | .plus => some (BitVec.ofInt 64 (x.toInt+top.toInt))
  | .minus => some (BitVec.ofInt 64 (x.toInt-top.toInt))
  | .mul => some (BitVec.ofInt 64 (x.toInt*top.toInt))
  | .div => if top = 0 then none else some (BitVec.ofInt 64 (x.toInt.tdiv top.toInt))
  | .mod => if top = 0 then none else some (BitVec.ofNat 64 (x.toNat % top.toNat))
  | .shl => if top.toNat < 64 then some (BitVec.ofNat 64 (x.toNat*2^top.toNat)) else none
  | .shr => if top.toNat < 64 then some (BitVec.ofNat 64 (x.toNat/2^top.toNat)) else none
  | .shra => if top.toNat < 64 then some (BitVec.ofInt 64 (x.toInt/2^top.toNat)) else none
  | .eq => some (boolWord (decide (x.toInt=top.toInt)))
  | .ge => some (boolWord (decide (x.toInt ≥ top.toInt)))
  | .gt => some (boolWord (decide (x.toInt > top.toInt)))
  | .le => some (boolWord (decide (x.toInt≤top.toInt)))
  | .lt => some (boolWord (decide (x.toInt<top.toInt)))
  | .ne => some (boolWord (decide (x.toInt≠top.toInt)))

section Machine

variable (t : Target) (m : DfxMemory) (regs : Regs)

def register (reg : ℕ) : Option Word :=
  if (t.slotOf reg).isSome then some (regs reg) else none

def Operation.exec : Operation → List Word → Option (List Word)
  | .push value, stack => some (value :: stack)
  | .deref, addr :: stack => (m.read addr 8).map (· :: stack)
  | .derefSize size, addr :: stack =>
    if 1 ≤ size ∧ size ≤ 8 then (m.read addr size).map (· :: stack) else none
  | .dup, x :: stack => some (x :: x :: stack)
  | .drop, _ :: stack => some stack
  | .over, x :: y :: stack => some (y :: x :: y :: stack)
  | .pick index, stack => stack[index]?.map (· :: stack)
  | .swap, x :: y :: stack => some (y :: x :: stack)
  | .rot, x :: y :: z :: stack => some (y :: z :: x :: stack)
  | .unary op, x :: stack => some (op.value x :: stack)
  | .binary op, top :: x :: stack => (op.value x top).map (· :: stack)
  | .plusUconst value, x :: stack => some (BitVec.ofInt 64 (x.toInt+value.toInt) :: stack)
  | .reg n, stack => (register t regs n).map (· :: stack)
  | .breg n offset, stack => (register t regs n).map fun value => BitVec.ofInt 64 (value.toInt+offset.toInt)::stack
  | .nop, stack => some stack
  | _, _ => none

def machine : List Operation → List Word → Option (List Word)
  | [], stack => some stack
  | op :: ops, stack => (op.exec t m regs stack).bind (machine ops)

def operands (op : DwOp) (addr : Word) : Option (Operation×Word) :=
  match op with
  | .addr => (readOperand m addr 8).map fun (value, next) => (.push value, next)
  | .deref => some (.deref, addr)
  | .const size isSigned => (readOperand m addr size).map fun (value, next) =>
      (.push (if isSigned then signed value size else value), next)
  | .constu => some (.push (m.readUleb128 addr).1, (m.readUleb128 addr).2)
  | .consts => some (.push (m.readSleb128 addr).1, (m.readSleb128 addr).2)
  | .dup => some (.dup, addr)
  | .drop => some (.drop, addr)
  | .over => some (.over, addr)
  | .pick => (readOperand m addr 1).map fun (index, next) => (.pick index.toNat, next)
  | .swap => some (.swap, addr)
  | .rot => some (.rot, addr)
  | .abs => some (.unary .abs, addr)
  | .and => some (.binary .and, addr)
  | .div => some (.binary .div, addr)
  | .minus => some (.binary .minus, addr)
  | .mod => some (.binary .mod, addr)
  | .mul => some (.binary .mul, addr)
  | .neg => some (.unary .neg, addr)
  | .not => some (.unary .not, addr)
  | .or => some (.binary .or, addr)
  | .plus => some (.binary .plus, addr)
  | .plusUconst => some (.plusUconst (m.readUleb128 addr).1, (m.readUleb128 addr).2)
  | .shl => some (.binary .shl, addr)
  | .shr => some (.binary .shr, addr)
  | .shra => some (.binary .shra, addr)
  | .xor => some (.binary .xor, addr)
  | .eq => some (.binary .eq, addr)
  | .ge => some (.binary .ge, addr)
  | .gt => some (.binary .gt, addr)
  | .le => some (.binary .le, addr)
  | .lt => some (.binary .lt, addr)
  | .ne => some (.binary .ne, addr)
  | .lit n => some (.push (BitVec.ofNat 64 n), addr)
  | .reg n => some (.reg n, addr)
  | .regx => some (.reg (m.readUleb128 addr).1.toNat, (m.readUleb128 addr).2)
  | .breg n => some (.breg n (m.readSleb128 addr).1, (m.readSleb128 addr).2)
  | .bregx =>
    let (reg, next) := m.readUleb128 addr
    some (.breg reg.toNat (m.readSleb128 next).1, (m.readSleb128 next).2)
  | .derefSize => (readOperand m addr 1).map fun (size, next) => (.derefSize size.toNat, next)
  | .nop => some (.nop, addr)
  | .skip | .bra => none

def dwOpNop : ℕ := 0x96

def fetch (addr : Word) : Option (Operation×Word) :=
  (readOperand m addr 1).bind fun (opcode, next) =>
    (DwOp.ofOpcode opcode.toNat).bind fun op =>
      if op = .nop ∧ opcode.toNat ≠ dwOpNop then none else operands m op next

/-- The operations stand in memory from `addr` to `stop`. -/
def Encodes (addr : Word) (ops : List Operation) (stop : Word) : Prop :=
  match ops with
  | [] => addr = stop
  | op :: ops => ∃ next, fetch m addr = some (op, next) ∧ Encodes next ops stop

/-- Unsigned comparison agrees on operands of one sign; the quotient is in range; the bytes that a wider read fetches
are zero. -/
def Agrees : Operation → List Word → Prop
  | .binary .ge, top :: x :: _ | .binary .gt, top :: x :: _ | .binary .le, top :: x :: _
  | .binary .lt, top :: x :: _ => x.msb = top.msb
  | .binary .div, top :: x :: _ => ¬(x=BitVec.intMin 64 ∧ top = -1)
  | .derefSize size, addr :: _ => ∀ width, derefWidth size = some width →
      m.readBytes addr width = m.readBytes addr size++List.replicate (width-size) 0
  | _, _ => True

end Machine

end Faultloggerd.Dwarf.StackMachine
