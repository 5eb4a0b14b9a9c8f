import Mathlib.Logic.Function.Basic
import Faultloggerd.Foundations.Leb128

/-! # The EHABI machine

The virtual machine that the unwind opcodes of `.ARM.exidx` are written for: a virtual stack pointer `vsp` and the core
registers. A pop loads a register from the word that `vsp` points to and moves `vsp` behind it, the lowest register
first. The machine keeps a list of its pops.
-/
namespace Faultloggerd.Exidx
open Foundations.Leb128

abbrev Byte := BitVec 8

abbrev Addr := BitVec 32

/-- The opcodes without the spare and the reserved ones. Registers of a coprocessor are only counted. -/
inductive Opcode where
  | addVsp (x : BitVec 6)
  | subVsp (x : BitVec 6)
  | popMask (registers : BitVec 12)
  | setVsp (n : BitVec 4)
  | popRange (lr : Bool) (n : BitVec 3)
  | popLow (registers : BitVec 4)
  | addLarge (operand : List Byte)
  | popFstmfdx (first count : BitVec 4)
  | popFstmfdxFrom8 (n : BitVec 3)
  | popWr (first count : BitVec 4)
  | popWcgr (registers : BitVec 4)
  | popVpush (low : Bool) (first count : BitVec 4)
  | popWrFrom10 (n : BitVec 3)
  | popVpushFrom8 (n : BitVec 3)

namespace Opcode

def finish : Byte := 0xb0

def encode : Opcode → List Byte
  | addVsp x => [0b00#2 ++ x]
  | subVsp x => [0b01#2 ++ x]
  | popMask registers => [0b1000#4 ++ registers.extractLsb' 8 4, registers.setWidth 8]
  | setVsp n => [0b1001#4 ++ n]
  | popRange lr n => [0b1010#4 ++ BitVec.ofBool lr ++ n]
  | popLow registers => [0b10110001#8, 0b0000#4 ++ registers]
  | addLarge operand => 0b10110010#8 :: operand
  | popFstmfdx first count => [0b10110011#8, first ++ count]
  | popFstmfdxFrom8 n => [0b10111#5 ++ n]
  | popWr first count => [0b11000110#8, first ++ count]
  | popWcgr registers => [0b11000111#8, 0b0000#4 ++ registers]
  | popVpush low first count => [0b1100100#7 ++ BitVec.ofBool low, first ++ count]
  | popWrFrom10 n => [0b11000#5 ++ n]
  | popVpushFrom8 n => [0b11010#5 ++ n]

/-- Neither spare nor reserved nor a refusal to unwind, and a number in at most four bytes. -/
def Valid : Opcode → Prop
  | popMask registers => registers ≠ 0
  | setVsp n => n ≠ 13 ∧ n ≠ 15
  | popLow registers | popWcgr registers => registers ≠ 0
  | addLarge operand => IsLeb operand ∧ operand.length ≤ 4
  | popWrFrom10 n => n.toNat < 6
  | _ => True

instance : (op : Opcode) → Decidable op.Valid
  | popMask _ | popLow _ | popWcgr _ => inferInstanceAs (Decidable (_≠_))
  | setVsp _ | addLarge _ => inferInstanceAs (Decidable (_ ∧ _))
  | popWrFrom10 n => inferInstanceAs (Decidable (n.toNat<6))
  | addVsp _ | subVsp _ | popRange _ _ | popFstmfdx _ _ | popFstmfdxFrom8 _ | popWr _ _ | popVpush _ _ _
  | popVpushFrom8 _ => inferInstanceAs (Decidable True)

def popped : Opcode → List ℕ
  | popMask registers => (List.range' 4 12).filter fun reg => registers.getLsbD (reg-4)
  | popRange lr n => List.range' 4 (n.toNat+1) ++ if lr then [14] else []
  | popLow registers => (List.range 4).filter registers.getLsbD
  | _ => []

def bytes : Opcode → Addr
  | addVsp x => 4*x.setWidth 32+4
  | subVsp x => -(4*x.setWidth 32+4)
  | addLarge operand => 0x204+4*BitVec.ofNat 32 (unsignedValue operand)
  | popFstmfdx _ count => 8*(count.setWidth 32+1)+4
  | popFstmfdxFrom8 n => 8*(n.setWidth 32+1)+4
  | popWr _ count | popVpush _ _ count => 8*(count.setWidth 32+1)
  | popWrFrom10 n | popVpushFrom8 n => 8*(n.setWidth 32+1)
  | popWcgr registers => 4*BitVec.ofNat 32 ((List.range 4).filter registers.getLsbD).length
  | _ => 0

end Opcode

structure Machine where
  vsp : Addr
  regs : ℕ → Addr
  pops : List (ℕ×Addr)

namespace Machine

variable (mem : Addr → Addr)

def advance (bytes : Addr) (s : Machine) : Machine := {s with vsp := s.vsp+bytes}

def pop (s : Machine) (reg : ℕ) : Machine :=
  ⟨s.vsp+4, Function.update s.regs reg (mem s.vsp), (reg, s.vsp)::s.pops⟩

def popAll (regs : List ℕ) (s : Machine) : Machine := regs.foldl (pop mem) s

/-- A loaded `r13` becomes the virtual stack pointer when the opcode is complete. -/
def writeBack (regs : List ℕ) (s : Machine) : Machine := if 13 ∈ regs then {s with vsp := s.regs 13} else s

def step (s : Machine) (op : Opcode) : Machine :=
  match op with
  | .setVsp n => {s with vsp := s.regs n.toNat}
  | .popMask _ | .popRange _ _ | .popLow _ => (s.popAll mem op.popped).writeBack op.popped
  | _ => s.advance op.bytes

def start (regs : ℕ → Addr) : Machine := ⟨regs 13, regs, []⟩

def run (ops : List Opcode) (regs : ℕ → Addr) : Machine := ops.foldl (step mem) (start regs)

end Machine

end Faultloggerd.Exidx
