import Mathlib.Data.Fintype.Basic
import Faultloggerd.Dwarf.Expression

/-! # Applying the location rules: `DfxInstructions`

`getCfa` computes the canonical frame address from a `RegLocState`, `apply` walks the rules of the
tracked registers and writes each register where it stands, so later rules see earlier results.
-/
namespace Faultloggerd.Dwarf

inductive RegLocEnum where
  | unused
  | undefined
  | valOffset
  | memOffset
  | register
  | memExpression
  | valExpression
deriving DecidableEq

structure RegLoc where
  type : RegLocEnum := .unused
  val : Word := 0
deriving DecidableEq

/-- `cfaExprPtr` is the union of the expression pointer and the 32-bit `cfaRegOffset`. -/
structure RegLocState (t : Target) where
  pcStart : Word := 0
  pcEnd : Word := 0
  cfaReg : BitVec 32 := 0
  cfaExprPtr : Word := 0
  returnAddressUndefined : Bool := false
  returnAddressSame : Bool := false
  returnAddressRegister : BitVec 16 := 0
  locs : Fin t.qutRegs.length → RegLoc := fun _ => {}
deriving DecidableEq

variable {t : Target}

namespace RegLocState

def cfaRegOffset (rs : RegLocState t) : BitVec 32 := rs.cfaExprPtr.setWidth 32

/-- A store to `cfaRegOffset` leaves the upper half of the union alone. -/
def setCfaRegOffset (rs : RegLocState t) (offset : BitVec 32) : RegLocState t :=
  {rs with cfaExprPtr := (rs.cfaExprPtr >>> 32) <<< 32 ||| offset.setWidth 64}

@[simp]
theorem cfaRegOffset_setCfaRegOffset (rs : RegLocState t) (off : BitVec 32) :
    (rs.setCfaRegOffset off).cfaRegOffset=off := by
  unfold cfaRegOffset setCfaRegOffset
  simp

end RegLocState

inductive UnwindErrorCode where
  | dwarfInvalidCfa
  | returnAddressUndefined
  | illegalValue
  | returnAddressSame

section Apply

variable (m : DfxMemory) (fuel : ℕ)

/-- Whether the rule was carried out, and what is then in the destination, which held `val`. -/
def flush (regs : Regs) (cfa : Word) (loc : RegLoc) (val : Word) : Option (Bool×Word) :=
  match loc.type with
  | .valOffset => some (true, cfa+loc.val)
  | .memOffset => some (true, overlay val (m.readBytes (cfa+loc.val) 8))
  | .register =>
    if loc.val.toNat ≥ t.regLast then some (false, val) else some (true, regs loc.val.toNat)
  | .memExpression =>
    (eval t m regs fuel cfa loc.val).map fun location => (true, overlay val (m.readBytes location 8))
  | .valExpression => (eval t m regs fuel cfa loc.val).map fun value => (true, value)
  | .unused | .undefined => some (false, val)

def getCfa (regs : Regs) (rs : RegLocState t) : Option (Except (Option UnwindErrorCode) Word) :=
  if rs.cfaReg ≠ 0 then
    if rs.cfaReg.toNat ≥ t.regLast then some (.error (some .dwarfInvalidCfa))
    else some (.ok (regs rs.cfaReg.toNat+rs.cfaRegOffset.setWidth 64))
  else if rs.cfaExprPtr ≠ 0 then
    (flush (t := t) m fuel regs 0 ⟨.valExpression, rs.cfaExprPtr⟩ 0).map fun (_, cfa) => .ok cfa
  else some (.error none)

def flushSlot (cfa : Word) (rs : RegLocState t) (regs : Regs) (i : Fin t.qutRegs.length) :
    Option Regs :=
  if (rs.locs i).type = .unused then some regs
  else
    (flush (t := t) m fuel regs cfa (rs.locs i) (regs (t.qutReg i))).map fun (_, v) =>
      Function.update regs (t.qutReg i) v

structure ApplyResult where
  regs : Regs
  ok : Bool
  errCode : Option UnwindErrorCode

def setReturnAddress (rs : RegLocState t) (regs : Regs) : ApplyResult :=
  let ra := rs.returnAddressRegister.toNat
  if rs.returnAddressUndefined then
    ⟨Function.update regs t.regPc 0, false, some .returnAddressUndefined⟩
  else if t.regEh ≤ ra ∧ ra < t.regLast then
    if rs.returnAddressSame then
      ⟨Function.update regs t.regPc (regs ra), false, some .returnAddressSame⟩
    else ⟨Function.update regs t.regPc (regs ra), true, none⟩
  else ⟨regs, false, some .illegalValue⟩

def apply (regs : Regs) (rs : RegLocState t) : Option ApplyResult :=
  (getCfa m fuel regs rs).bind fun out =>
    match out with
    | .error errCode => some ⟨regs, false, errCode⟩
    | .ok cfa =>
      ((List.finRange t.qutRegs.length).foldlM (flushSlot m fuel cfa rs) regs).map fun regs =>
        setReturnAddress rs (Function.update regs t.regSp cfa)

end Apply

end Faultloggerd.Dwarf
