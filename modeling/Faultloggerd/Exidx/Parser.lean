import Faultloggerd.Dwarf.Instructions
import Faultloggerd.Exidx.Ehabi

/-! # Unwind opcodes: `ExidxEntryParser`

The parser keeps no addresses. It counts how far `vsp` has moved, marks the registers that were popped and adds every
later move to each of them that is tracked; `flushInstr` turns the counts into rules relative to the CFA.
-/
namespace Faultloggerd.Exidx
open Dwarf (RegLocEnum)

def regSp : ℕ := 13

def regLr : ℕ := 14

def regPc : ℕ := 15

def regArmLast : ℕ := 17

def qutRegs : List ℕ := [7, 11, regSp, regPc, regLr]

structure RegLoc where
  type : RegLocEnum := .unused
  val : Addr := 0

structure RegLocState where
  cfaReg : BitVec 32 := 0
  cfaRegOffset : BitVec 32 := 0
  returnAddressRegister : BitVec 16 := 0
  locs : Fin qutRegs.length → RegLoc := fun _ => {}

structure ExidxContext where
  vsp : BitVec 32 := 0
  transformedBits : BitVec 32 := 0
  regs : Fin qutRegs.length → BitVec 32 := fun _ => 0

namespace ExidxContext

def reset (_ : ExidxContext) : ExidxContext := {}

def transform (c : ExidxContext) (reg : ℕ) : ExidxContext :=
  {c with transformedBits := c.transformedBits ||| (1 : BitVec 32) <<< reg}

def isTransformed (c : ExidxContext) (reg : ℕ) : Bool :=
  c.transformedBits &&& (1 : BitVec 32) <<< reg ≠ 0

def addUpVsp (c : ExidxContext) (imm : BitVec 32) : ExidxContext :=
  {c with
    vsp := c.vsp+imm
    regs := fun i => if c.isTransformed (qutRegs.get i) then c.regs i+imm else c.regs i}

def popReg (c : ExidxContext) (reg : ℕ) : ExidxContext := (c.transform reg).addUpVsp 4

end ExidxContext

inductive ExidxError where
  | armExidxFinish
  | armExidxSpare
  | cantUnwind
  | reservedValue

structure ExidxEntryParser where
  context : ExidxContext := {}
  ops : List Byte := []
  curOp : Byte := 0
  isPcSet : Bool := false
  lastError : Option ExidxError := none
  rsState : RegLocState := {}

namespace ExidxEntryParser

def getOpCode (p : ExidxEntryParser) : Option ExidxEntryParser :=
  match p.ops with
  | [] => none
  | op :: ops => some {p with curOp := op, ops := ops}

def addUpVsp (p : ExidxEntryParser) (imm : BitVec 32) : ExidxEntryParser :=
  {p with context := p.context.addUpVsp imm}

def withOperand (decoder : ExidxEntryParser → Bool×ExidxEntryParser) (p : ExidxEntryParser) :
    Bool × ExidxEntryParser :=
  match p.getOpCode with
  | none => (false, p)
  | some p => decoder p

def decodeSpare (p : ExidxEntryParser) : Bool × ExidxEntryParser :=
  (false, {p with lastError := some .armExidxSpare})

def decode00xxxxxx (p : ExidxEntryParser) : Bool × ExidxEntryParser :=
  (true, p.addUpVsp ((p.curOp &&& 0x3f).setWidth 32 <<< 2+4))

def decode01xxxxxx (p : ExidxEntryParser) : Bool × ExidxEntryParser :=
  (true, p.addUpVsp (-((p.curOp &&& 0x3f).setWidth 32 <<< 2+4)))

def decode1000iiiiiiiiiiii (p : ExidxEntryParser) : Bool × ExidxEntryParser :=
  let high : BitVec 16 := (p.curOp &&& 0x0f).setWidth 16 <<< 8
  p.withOperand fun p =>
    let registers := high ||| p.curOp.setWidth 16
    if registers = 0 then (false, {p with lastError := some .cantUnwind})
    else
      let registers := registers <<< 4
      let popIfSet := fun (p : ExidxEntryParser) (reg : ℕ) =>
        if registers.setWidth 32 &&& (1 : BitVec 32) <<< reg ≠ 0 then
          {p with context := p.context.popReg reg, isPcSet := if reg=regPc then true else p.isPcSet}
        else p
      (true, (List.range' 4 (regArmLast-4)).foldl popIfSet p)

def decode1001nnnn (p : ExidxEntryParser) : Bool × ExidxEntryParser :=
  let bits := p.curOp &&& 0xf
  if bits = 13 ∨ bits = 15 then (false, {p with lastError := some .reservedValue})
  else if bits = 7 ∨ bits = 11 then
    (true, {p with
        context := if p.context.transformedBits=0 then p.context.reset else p.context
        rsState := {p.rsState with cfaReg := bits.setWidth 32, cfaRegOffset := 0}})
  else (false, p)

def decode1010nnnn (p : ExidxEntryParser) : Bool × ExidxEntryParser :=
  let count := (p.curOp &&& 0x7).toNat+1
  let context := (List.range' 4 count).foldl ExidxContext.popReg p.context
  (true, {p with context := if p.curOp &&& 0x8≠0 then context.popReg regLr else context})

def decode10110000 (p : ExidxEntryParser) : Bool × ExidxEntryParser :=
  (true, {p with lastError := some .armExidxFinish})

/-- Four bytes for each of the four registers under a mask, none of which is marked. -/
def addUpMask (p : ExidxEntryParser) (registers : Byte) : ExidxEntryParser :=
  {p with
    context := (List.range 4).foldl
      (fun c reg => if registers &&& (1 : Byte) <<< reg≠0 then c.addUpVsp 4 else c) p.context}

def decode101100010000iiii (p : ExidxEntryParser) : Bool × ExidxEntryParser :=
  p.withOperand fun p =>
    if p.curOp = 0 ∨ p.curOp &&& 0xf0 ≠ 0 then p.decodeSpare else (true, p.addUpMask (p.curOp &&& 0x0f))

/-- `shift` is a byte. The bits of a byte that is shifted out of the word are lost. -/
def ulebLoop (p : ExidxEntryParser) : List Byte → ℕ → BitVec 32 → Option (BitVec 32) × ExidxEntryParser
  | [], _, _ => (none, p)
  | op :: ops, shift, uleb128 =>
    let p := {p with curOp := op, ops := ops}
    let uleb128 := uleb128 ||| (op &&& 0x7f).setWidth 32 <<< shift
    if op &&& 0x80 ≠ 0 then p.ulebLoop ops ((shift+7) % 256) uleb128 else (some uleb128, p)

def decode10110010uleb128 (p : ExidxEntryParser) : Bool × ExidxEntryParser :=
  match p.ulebLoop p.ops 0 0 with
  | (none, p) => (false, p)
  | (some uleb128, p) => (true, p.addUpVsp (0x204+uleb128 <<< 2))

def addUpRegs (p : ExidxEntryParser) (mask : Byte) (extra : BitVec 32) : Bool × ExidxEntryParser :=
  (true, p.addUpVsp (((p.curOp &&& mask).setWidth 32+1)*8+extra))

def decode10110011sssscccc : ExidxEntryParser → Bool × ExidxEntryParser := withOperand fun p => p.addUpRegs 0x0f 4

def decode101101nn : ExidxEntryParser → Bool × ExidxEntryParser := decodeSpare

def decode10111nnn (p : ExidxEntryParser) : Bool × ExidxEntryParser := p.addUpRegs 0x07 4

def decode11000nnn (p : ExidxEntryParser) : Bool × ExidxEntryParser := p.addUpRegs 0x0f 0

def decode11000110sssscccc : ExidxEntryParser → Bool × ExidxEntryParser := withOperand decode11000nnn

def decode110001110000iiii (p : ExidxEntryParser) : Bool × ExidxEntryParser :=
  p.withOperand fun p =>
    if p.curOp &&& 0xf0 ≠ 0 ∨ p.curOp = 0 then p.decodeSpare else (true, p.addUpMask p.curOp)

def decode1100100nsssscccc : ExidxEntryParser → Bool × ExidxEntryParser := withOperand fun p => p.addUpRegs 0x0f 0

def decode11001yyy : ExidxEntryParser → Bool × ExidxEntryParser := decodeSpare

def decode11010nnn (p : ExidxEntryParser) : Bool × ExidxEntryParser := p.addUpRegs 0x0f 0

def decode11xxxyyy : ExidxEntryParser → Bool × ExidxEntryParser := decodeSpare

inductive Decoder where
  | code00xxxxxx
  | code01xxxxxx
  | code1000iiiiiiiiiiii
  | code1001nnnn
  | code1010nnnn
  | code10110000
  | code101100010000iiii
  | code10110010uleb128
  | code10110011sssscccc
  | code101101nn
  | code10111nnn
  | code11000110sssscccc
  | code110001110000iiii
  | code1100100nsssscccc
  | code11001yyy
  | code11000nnn
  | code11010nnn
  | code11xxxyyy
deriving DecidableEq

def Decoder.decode : Decoder → ExidxEntryParser → Bool × ExidxEntryParser
  | code00xxxxxx => decode00xxxxxx
  | code01xxxxxx => decode01xxxxxx
  | code1000iiiiiiiiiiii => decode1000iiiiiiiiiiii
  | code1001nnnn => decode1001nnnn
  | code1010nnnn => decode1010nnnn
  | code10110000 => decode10110000
  | code101100010000iiii => decode101100010000iiii
  | code10110010uleb128 => decode10110010uleb128
  | code10110011sssscccc => decode10110011sssscccc
  | code101101nn => decode101101nn
  | code10111nnn => decode10111nnn
  | code11000110sssscccc => decode11000110sssscccc
  | code110001110000iiii => decode110001110000iiii
  | code1100100nsssscccc => decode1100100nsssscccc
  | code11001yyy => decode11001yyy
  | code11000nnn => decode11000nnn
  | code11010nnn => decode11010nnn
  | code11xxxyyy => decode11xxxyyy

structure DecodeTable where
  mask : Byte
  result : Byte
  decoder : Decoder

def decodeTable : List DecodeTable :=
  [⟨0xc0, 0x00, .code00xxxxxx⟩, ⟨0xc0, 0x40, .code01xxxxxx⟩, ⟨0xf0, 0x80, .code1000iiiiiiiiiiii⟩,
   ⟨0xf0, 0x90, .code1001nnnn⟩, ⟨0xf0, 0xa0, .code1010nnnn⟩, ⟨0xff, 0xb0, .code10110000⟩,
   ⟨0xff, 0xb1, .code101100010000iiii⟩, ⟨0xff, 0xb2, .code10110010uleb128⟩, ⟨0xff, 0xb3, .code10110011sssscccc⟩,
   ⟨0xfc, 0xb4, .code101101nn⟩, ⟨0xf8, 0xb8, .code10111nnn⟩, ⟨0xff, 0xc6, .code11000110sssscccc⟩,
   ⟨0xff, 0xc7, .code110001110000iiii⟩, ⟨0xfe, 0xc8, .code1100100nsssscccc⟩, ⟨0xc8, 0xc8, .code11001yyy⟩,
   ⟨0xf8, 0xc0, .code11000nnn⟩, ⟨0xf8, 0xd0, .code11010nnn⟩, ⟨0xc0, 0xc0, .code11xxxyyy⟩]

def decoderOf (op : Byte) : Option Decoder :=
  (decodeTable.find? fun entry => op &&& entry.mask=entry.result).map DecodeTable.decoder

def decode : ExidxEntryParser → Bool × ExidxEntryParser :=
  withOperand fun p =>
    match decoderOf p.curOp with
    | none => (false, p)
    | some decoder => decoder.decode p

def evalLoop : ℕ → ExidxEntryParser → Option ExidxEntryParser
  | 0, _ => none
  | fuel+1, p =>
    match p.decode with
    | (true, p) => evalLoop fuel p
    | (false, p) => some p

def flushInstr (p : ExidxEntryParser) : ExidxEntryParser :=
  {p with
    context := p.context.reset
    rsState :=
      { cfaReg := if p.rsState.cfaReg=0 then BitVec.ofNat 32 regSp else p.rsState.cfaReg
        cfaRegOffset := if p.context.vsp≠0 then p.context.vsp else 0
        returnAddressRegister := BitVec.ofNat 16 (if p.isPcSet then regPc else regLr)
        locs := fun i =>
          if p.context.isTransformed (qutRegs.get i) then ⟨.memOffset, -p.context.regs i⟩ else p.rsState.locs i}}

/-- `Step` from the opcodes of the entry on: `Eval` and `FlushInstr`. -/
def stepOps (fuel : ℕ) (p : ExidxEntryParser) : Option ExidxEntryParser :=
  (evalLoop fuel {p with context := p.context.reset}).map flushInstr

end ExidxEntryParser

end Faultloggerd.Exidx
