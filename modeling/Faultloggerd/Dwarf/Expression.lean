import Mathlib.Data.List.Nodup
import Faultloggerd.Dwarf.Memory

/-! # DWARF expressions: `DwarfOp`

The stack machine that computes CFAs and saved locations. A local that is used after a failed read has
no value, and neither has a shift by the word size, a quotient out of range or a register index past
the register file: there the model has no result (`none`). Signed sums and negations wrap.
-/
namespace Faultloggerd.Dwarf

/-- A 64-bit target: its register numbers and the registers that are tracked (`QUT_REGS`). -/
structure Target where
  regSp : ℕ
  regPc : ℕ
  regEh : ℕ
  regLast : ℕ
  qutRegs : List ℕ
  nodup : qutRegs.Nodup
  bounded : ∀ r ∈ qutRegs, r < regLast
  small : regLast < 2^16
  spNePc : regSp ≠ regPc
  spBounded : regSp < regLast

def arm64 : Target where
  regSp := 31
  regPc := 32
  regEh := 0
  regLast := 35
  qutRegs := [0, 29, 31, 32, 30]
  nodup := by decide
  bounded := by decide
  small := by decide
  spNePc := by decide
  spBounded := by decide

def x86_64 : Target where
  regSp := 7
  regPc := 16
  regEh := 0
  regLast := 17
  qutRegs := [6, 7, 16]
  nodup := by decide
  bounded := by decide
  small := by decide
  spNePc := by decide
  spBounded := by decide

namespace Target

def slotOf (t : Target) (reg : ℕ) : Option (Fin t.qutRegs.length) := t.qutRegs.finIdxOf? reg

def qutReg (t : Target) (i : Fin t.qutRegs.length) : ℕ := t.qutRegs.get i

def qutIdx (t : Target) (reg : BitVec 16) : Option (Fin t.qutRegs.length) := t.slotOf reg.toNat

theorem qutReg_injective (t : Target) : Function.Injective t.qutReg := List.nodup_iff_injective_get.mp t.nodup

theorem slotOf_eq_some_iff (t : Target) (reg : ℕ) (i : Fin t.qutRegs.length) :
    t.slotOf reg=some i ↔ t.qutReg i=reg := by
  constructor
  · intro h
    have := (List.finIdxOf?_eq_some_iff.mp h).1
    simpa [qutReg] using this
  · intro h
    refine List.finIdxOf?_eq_some_iff.mpr ⟨by simpa [qutReg] using h, fun j hj heq => ?_⟩
    have : j=i := t.qutReg_injective (by rw [h]; simpa [qutReg] using heq)
    omega

end Target

abbrev Regs := ℕ → Word

inductive DwOp where
  | addr
  | deref
  | const (size : ℕ) (signed : Bool)
  | constu
  | consts
  | dup
  | drop
  | over
  | pick
  | swap
  | rot
  | abs
  | and
  | div
  | minus
  | mod
  | mul
  | neg
  | not
  | or
  | plus
  | plusUconst
  | shl
  | shr
  | shra
  | xor
  | skip
  | bra
  | eq
  | ge
  | gt
  | le
  | lt
  | ne
  | lit (n : ℕ)
  | reg (n : ℕ)
  | regx
  | breg (n : ℕ)
  | bregx
  | derefSize
  | nop
deriving DecidableEq

def DwOp.ofOpcode (opcode : ℕ) : Option DwOp :=
  if 0x30 ≤ opcode ∧ opcode ≤ 0x4f then some (.lit (opcode-0x30))
  else if 0x50 ≤ opcode ∧ opcode ≤ 0x6f then some (.reg (opcode-0x50))
  else if 0x70 ≤ opcode ∧ opcode ≤ 0x8f then some (.breg (opcode-0x70))
  else
    match opcode with
    | 0x03 => some .addr
    | 0x06 => some .deref
    | 0x08 => some (.const 1 false)
    | 0x09 => some (.const 1 true)
    | 0x0a => some (.const 2 false)
    | 0x0b => some (.const 2 true)
    | 0x0c => some (.const 4 false)
    | 0x0d => some (.const 4 true)
    | 0x0e => some (.const 8 false)
    | 0x0f => some (.const 8 true)
    | 0x10 => some .constu
    | 0x11 => some .consts
    | 0x12 => some .dup
    | 0x13 => some .drop
    | 0x14 => some .over
    | 0x15 => some .pick
    | 0x16 => some .swap
    | 0x17 => some .rot
    | 0x19 => some .abs
    | 0x1a => some .and
    | 0x1b => some .div
    | 0x1c => some .minus
    | 0x1d => some .mod
    | 0x1e => some .mul
    | 0x1f => some .neg
    | 0x20 => some .not
    | 0x21 => some .or
    | 0x22 => some .plus
    | 0x23 => some .plusUconst
    | 0x24 => some .shl
    | 0x25 => some .shr
    | 0x26 => some .shra
    | 0x27 => some .xor
    | 0x28 => some .bra
    | 0x29 => some .eq
    | 0x2a => some .ge
    | 0x2b => some .gt
    | 0x2c => some .le
    | 0x2d => some .lt
    | 0x2e => some .ne
    | 0x2f => some .skip
    | 0x90 => some .regx
    | 0x92 => some .bregx
    | 0x94 => some .derefSize
    -- xderef, fbreg, piece, xderef_size, nop, push_object_address, call2, call4, call_ref
    | 0x18 | 0x91 | 0x93 | 0x95 | 0x96 | 0x97 | 0x98 | 0x99 | 0x9a => some .nop
    | _ => none

def onTop (f : Word → Word) : List Word → List Word
  | [] => []
  | x :: stack => f x :: stack

def onTwo (f : Word → Word → Word) : List Word → List Word
  | top :: x :: stack => f x top :: stack
  | stack => stack

def boolWord (b : Bool) : Word := if b then 1 else 0

def opDup : List Word → List Word
  | [] => []
  | x :: stack => x :: x :: stack

def opOver : List Word → List Word
  | x :: y :: stack => y :: x :: y :: stack
  | stack => stack

def opSwap : List Word → List Word
  | x :: y :: stack => y :: x :: stack
  | stack => stack

def opRot : List Word → List Word
  | x :: y :: z :: stack => y :: z :: x :: stack
  | stack => stack

def opPick (reg : ℕ) (stack : List Word) : List Word :=
  match stack[reg]? with
  | none => stack
  | some value => value :: stack

def opAbs : List Word → List Word := onTop fun x => if x.toInt < 0 then -x else x

def opAnd : List Word → List Word := onTwo (· &&& ·)

def opDiv : List Word → Option (List Word)
  | top :: x :: stack =>
    if top = 0 then some (x::stack)
    else if x = BitVec.intMin 64 ∧ top = -1 then none
    else some (x.sdiv top::stack)
  | stack => some stack

def opMinus : List Word → List Word := onTwo (· - ·)

def opMod : List Word → List Word := onTwo fun x top => if top = 0 then x else x % top

def opMul : List Word → List Word := onTwo (· * ·)

def opNeg : List Word → List Word := onTop (- ·)

def opNot : List Word → List Word := onTop (~~~ ·)

def opOr : List Word → List Word := onTwo (· ||| ·)

def opPlus : List Word → List Word := onTwo (· + ·)

def opXor : List Word → List Word := onTwo (· ^^^ ·)

def onShift (f : Word → ℕ → Word) : List Word → Option (List Word)
  | top :: x :: stack => if top.toNat < 64 then some (f x top.toNat :: stack) else none
  | stack => some stack

def opShl : List Word → Option (List Word) := onShift (· <<< ·)

def opShr : List Word → Option (List Word) := onShift (· >>> ·)

def opShra : List Word → Option (List Word) := onShift BitVec.sshiftRight

def opEq : List Word → List Word := onTwo fun x top => boolWord (decide (x=top))

def opGe : List Word → List Word := onTwo fun x top => boolWord (decide (x.toNat ≥ top.toNat))

def opGt : List Word → List Word := onTwo fun x top => boolWord (decide (x.toNat > top.toNat))

def opLe : List Word → List Word := onTwo fun x top => boolWord (decide (x.toNat≤top.toNat))

def opLt : List Word → List Word := onTwo fun x top => boolWord (decide (x.toNat<top.toNat))

def opNe : List Word → List Word := onTwo fun x top => boolWord (decide (x≠top))

structure OpState where
  addr : Word
  stack : List Word
deriving DecidableEq

namespace OpState

def push (s : OpState) (value : Word) : OpState := {s with stack := value::s.stack}

end OpState

section Decode

variable (t : Target) (m : DfxMemory) (regs : Regs)

/-- `Read<T>(addr, &val, true)` into a fresh local. -/
def readOperand (addr : Word) (size : ℕ) : Option (Word×Word) :=
  (m.read addr size).map fun value => (value, addr+BitVec.ofNat 64 size)

def signed (value : Word) (size : ℕ) : Word := (value.setWidth (8*size)).signExtend 64

def regAt (reg : ℕ) : Option Word := if reg < t.regLast then some (regs reg) else none

def opDeref (s : OpState) : Option OpState :=
  match s.stack with
  | [] => some s
  | addr :: stack => (m.read addr 8).map fun value => {s with stack := value :: stack}

/-- The width that `DW_OP_deref_size` reads for an operand, `none` where it reads nothing. -/
def derefWidth (operand : ℕ) : Option ℕ :=
  match operand with
  | 1 => some 1
  | 2 => some 2
  | 3 | 4 => some 4
  | 5 | 6 | 7 | 8 => some 8
  | _ => none

def opDerefSize (s : OpState) : Option OpState :=
  match s.stack with
  | [] => some s
  | addr :: stack =>
    (readOperand m s.addr 1).bind fun (operand, next) =>
      match derefWidth operand.toNat with
      | none => some ⟨next, 0 :: stack⟩
      | some width => (m.read addr width).map fun value => ⟨next, value :: stack⟩

def opPlusULEBConst (s : OpState) : OpState :=
  match s.stack with
  | [] => s
  | x :: stack =>
    let (value, next) := m.readUleb128 s.addr
    ⟨next, (x+value)::stack⟩

def opSkip (s : OpState) : Option OpState :=
  (readOperand m s.addr 2).map fun (offset, next) => {s with addr := next+signed offset 2}

def opBra (s : OpState) : Option OpState :=
  match s.stack with
  | [] => some s
  | top :: stack =>
    (readOperand m s.addr 2).map fun (offset, next) => ⟨if top≠0 then next+signed offset 2 else next, stack⟩

/-- The shared tail of `OpReg` and `OpRegx`: only the low 16 bits decide whether `reg` is tracked. -/
def pushReg (reg : BitVec 32) (s : OpState) : Option OpState :=
  if (t.qutIdx (reg.setWidth 16)).isSome then (regAt t regs reg.toNat).map s.push else some s

/-- The shared tail of `OpBReg` and `OpBRegx`: the offset is read for a tracked register only. -/
def pushBReg (reg : BitVec 32) (s : OpState) : Option OpState :=
  if (t.qutIdx (reg.setWidth 16)).isSome then
    let (value, next) := m.readSleb128 s.addr
    (regAt t regs reg.toNat).map fun base => ⟨next, (value+base)::s.stack⟩
  else some s

def opReg (reg : ℕ) : OpState → Option OpState := pushReg t regs (BitVec.ofNat 32 reg)

def opRegx (s : OpState) : Option OpState :=
  let (reg, next) := m.readUleb128 s.addr
  pushReg t regs (reg.setWidth 32) {s with addr := next}

def opBReg (reg : ℕ) : OpState → Option OpState := pushBReg t m regs (BitVec.ofNat 32 reg)

def opBRegx (s : OpState) : Option OpState :=
  let (reg, next) := m.readUleb128 s.addr
  pushBReg t m regs (reg.setWidth 32) {s with addr := next}

def OpState.onStack (s : OpState) (f : List Word → List Word) : Option OpState :=
  some {s with stack := f s.stack}

def OpState.onStackOption (s : OpState) (f : List Word → Option (List Word)) : Option OpState :=
  (f s.stack).map fun stack => {s with stack := stack}

def execOp (op : DwOp) (s : OpState) : Option OpState :=
  match op with
  | .addr => (readOperand m s.addr 8).map fun (value, next) => ⟨next, value :: s.stack⟩
  | .deref => opDeref m s
  | .const size isSigned =>
    (readOperand m s.addr size).map fun (value, next) =>
      ⟨next, (if isSigned then signed value size else value)::s.stack⟩
  | .constu =>
    let (value, next) := m.readUleb128 s.addr
    some ⟨next, value::s.stack⟩
  | .consts =>
    let (value, next) := m.readSleb128 s.addr
    some ⟨next, value::s.stack⟩
  | .dup => s.onStack opDup
  | .drop => s.onStack List.tail
  | .over => s.onStack opOver
  | .pick => (readOperand m s.addr 1).map fun (reg, next) => ⟨next, opPick reg.toNat s.stack⟩
  | .swap => s.onStack opSwap
  | .rot => s.onStack opRot
  | .abs => s.onStack opAbs
  | .and => s.onStack opAnd
  | .div => s.onStackOption opDiv
  | .minus => s.onStack opMinus
  | .mod => s.onStack opMod
  | .mul => s.onStack opMul
  | .neg => s.onStack opNeg
  | .not => s.onStack opNot
  | .or => s.onStack opOr
  | .plus => s.onStack opPlus
  | .plusUconst => some (opPlusULEBConst m s)
  | .shl => s.onStackOption opShl
  | .shr => s.onStackOption opShr
  | .shra => s.onStackOption opShra
  | .xor => s.onStack opXor
  | .skip => opSkip m s
  | .bra => opBra m s
  | .eq => s.onStack opEq
  | .ge => s.onStack opGe
  | .gt => s.onStack opGt
  | .le => s.onStack opLe
  | .lt => s.onStack opLt
  | .ne => s.onStack opNe
  | .lit n => some (s.push (BitVec.ofNat 64 n))
  | .reg n => opReg t regs n s
  | .regx => opRegx t m regs s
  | .breg n => opBReg t m regs n s
  | .bregx => opBRegx t m regs s
  | .derefSize => opDerefSize m s
  | .nop => some s

def decode (s : OpState) : Option (Bool×OpState) :=
  (readOperand m s.addr 1).bind fun (opcode, next) =>
    match DwOp.ofOpcode opcode.toNat with
    | none => some (false, {s with addr := next})
    | some op => (execOp t m regs op {s with addr := next}).map fun s => (true, s)

/-- At most `fuel` operations up to the address `stop`. -/
def evalLoop (stop : Word) : ℕ → OpState → Option OpState
  | 0, s => if s.addr.toNat < stop.toNat then none else some s
  | fuel+1, s =>
    if s.addr.toNat < stop.toNat then
      (decode t m regs s).bind fun (more, s) => if more then evalLoop stop fuel s else some s
    else some s

def eval (fuel : ℕ) (initStackValue startPtr : Word) : Option Word :=
  let (length, addr) := m.readUleb128 startPtr
  (evalLoop t m regs (addr+length) fuel ⟨addr, [initStackValue]⟩).map fun s => s.stack.headD 0

end Decode

end Faultloggerd.Dwarf
