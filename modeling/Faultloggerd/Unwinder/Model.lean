import Faultloggerd.Dwarf.CfaRule
import Faultloggerd.Dwarf.EntryParser
import Faultloggerd.Foundations.FuelLoop

/-! # The unwinder: `Unwinder::Impl`

`Unwind` and what it calls for native frames: no map is Ark or V8 code, so `StepV8Frame` stops a frame that has no
map and no other, `UnwindArkFrame` lets every frame pass and no frame is a JS frame. The accessors are functions of the
address. As in the parser, `none` is a run that uses a value it never read, or that is out of fuel.
-/
namespace Faultloggerd.Unwinder

open Dwarf Foundations.FuelLoop

structure Arch extends Target where
  regFp : ℕ
  fpNeSp : regFp ≠ regSp
  fpNePc : regFp ≠ regPc
  /-- `REG_LR`, where a failed `Apply` falls back to it. -/
  regLr : Option ℕ
  pcAdjust : Word
  stripPac : (pacMask addr : Word) → Word
  /-- The stack pointer that `FpStep` sets, from the old and the new frame pointer. -/
  frameSp : (prevFp fp : Word) → Word
  /-- The registers that the signal interrupted; the inner `none` for another frame. -/
  stepIfSignalFrame : DfxMemory → Word → Regs → Option (Option Regs)
  setPcFromReturnAddress : DfxMemory → Regs → Option Regs

/-- `SP + sizeof(siginfo_t) + uc_mcontext offset + X0 offset` holds the registers; those that cannot
be read stay. -/
def arm64SignalFrame (m : DfxMemory) (pc : Word) (regs : Regs) : Option (Option Regs) :=
  if m.read pc 8 = some 0xd4000001d2801168 then
    let saved := m.readBytes (regs 31+128+0xb0+0x08) (8*35)
    some (some fun r =>
      if r<35 then overlay (regs r) ((saved.drop (8*r)).take 8) else regs r)
  else some none

def x86_64Gregs : List ℕ := [13, 12, 14, 11, 9, 8, 10, 15, 0, 1, 2, 3, 4, 5, 6, 7, 16]

def x86_64SignalFrame (m : DfxMemory) (pc : Word) (regs : Regs) : Option (Option Regs) :=
  if m.read pc 8 = some 0x0f0000000fc0c748 ∧ m.read (pc+8) 2 = some 0x0f05 then
    let saved := m.readBytes (regs 7+0x28) 256
    if saved.length < 8*17 then none
    else
      some (some fun r =>
        match x86_64Gregs[r]? with
        | none => regs r
        | some k => ofBytes ((saved.drop (8*k)).take 8))
  else some none

/-- `hint` is the strip instruction, used where no mask is set. -/
def Arch.arm64 (hint : Word → Word) : Arch where
  toTarget := Dwarf.arm64
  regFp := 29
  fpNeSp := by decide
  fpNePc := by decide
  regLr := some 30
  pcAdjust := 4
  stripPac := fun pacMask addr =>
    if addr ≠ 0 then if pacMask ≠ 0 then addr &&& ~~~pacMask else hint addr else addr
  frameSp := fun prevFp _ => prevFp
  stepIfSignalFrame := arm64SignalFrame
  setPcFromReturnAddress := fun _ regs =>
    if regs 32 = regs 30 then none else some (Function.update regs 32 (regs 30))

def Arch.x86_64 : Arch where
  toTarget := Dwarf.x86_64
  regFp := 6
  fpNeSp := by decide
  fpNePc := by decide
  regLr := none
  pcAdjust := 1
  stripPac := fun _ addr => addr
  frameSp := fun _ fp => fp+16
  stepIfSignalFrame := x86_64SignalFrame
  setPcFromReturnAddress := fun m regs =>
    match m.read (regs 7) 8 with
    | none => none
    | some pc => if pc = regs 16 then none else some (Function.update regs 16 pc)

structure DfxMap where
  name : String
  prots : BitVec 32
deriving DecidableEq

namespace DfxMap

def isMapExec (map : DfxMap) : Bool := map.prots &&& 4 ≠ 0

def isVdsoMap (map : DfxMap) : Bool :=
  (map.name = "[shmm]" || map.name = "[vdso]") && map.isMapExec

end DfxMap

inductive UnwindType where
  | customizeLocal
  | customize
  | local
  | remote

structure StepFrame where
  pc : Word
  sp : Word
  fp : Word

structure DfxFrame where
  index : ℕ
  pc : Word
  sp : Word
  fp : Word
  map : Option DfxMap
deriving DecidableEq

structure Env where
  memory : DfxMemory
  /-- `memory` while the local stack check is on. -/
  stackMemory : DfxMemory
  getMapByPc : Word → Option DfxMap
  findUnwindTable : Word → Option UnwindTableInfo
  /-- What a new `RegLocState` finds in the upper half of its union. -/
  union : Word
  /-- The bound on the rounds of the DWARF loops. -/
  rounds : ℕ
  unwindType : UnwindType
  pacMask : Word
  enableLrFallback : Bool
  enableFpCheckMapExec : Bool
  isCrash : Bool

structure StepCache (a : Arch) where
  map : Option DfxMap
  rs : RegLocState a.toTarget

structure Impl (a : Arch) where
  regs : Regs
  frames : List DfxFrame
  pcs : List Word
  isFpStep : Bool
  isResetFrames : Bool
  stepCache : Word → Option (StepCache a)
  parser : ParserState

namespace Impl

variable {a : Arch}

def fresh (regs : Regs) : Impl a := ⟨regs, [], [], false, false, fun _ => none, .fresh 0⟩

def setRegs (u : Impl a) (regs : Regs) : Impl a := {u with regs := regs}

def clear (u : Impl a) : Impl a := {u with isFpStep := false, pcs := [], frames := []}

def addFrame (u : Impl a) (frame : StepFrame) (map : Option DfxMap) : Impl a :=
  {u with
    pcs := u.pcs++[frame.pc]
    frames := u.frames++[⟨u.frames.length, frame.pc, frame.sp, frame.fp, map⟩]}

def current (u : Impl a) : StepFrame := ⟨u.regs a.regPc, u.regs a.regSp, u.regs a.regFp⟩

end Impl

section Step

variable {a : Arch} (e : Env)

def apply (regs : Regs) (rs : RegLocState a.toTarget) : Option (Bool×Regs) :=
  (Dwarf.apply e.stackMemory e.rounds regs rs).map fun out =>
    let readable := (e.stackMemory.read (out.regs a.regSp) 8).isSome
    let repeated := a.stripPac e.pacMask (out.regs a.regPc) = regs a.regPc ∧ out.regs a.regSp = regs a.regSp
    (out.ok && readable && !decide repeated, out.regs)

/-- The locals start as 0 and keep what a failed read leaves of them. -/
def stepToNextFpIfNeed (regs : Regs) : Regs :=
  let fpStepPc := overlay 0 (e.stackMemory.readBytes (regs a.regFp+8) 8)
  if regs a.regPc = fpStepPc then
    Function.update regs a.regFp (overlay 0 (e.stackMemory.readBytes (regs a.regFp) 8))
  else regs

structure FpOut where
  ok : Bool
  fp : Word
  pc : Word
  regs : Regs

def fpStep (fp pc : Word) (regs : Regs) : FpOut :=
  let nextFp := overlay fp (e.stackMemory.readBytes fp 8)
  let nextPc := overlay pc (e.stackMemory.readBytes (fp+8) 8)
  if fp = 0 then ⟨false, fp, pc, regs⟩
  else if (e.stackMemory.read fp 8).isNone then ⟨false, nextFp, pc, regs⟩
  else if (e.stackMemory.read (fp+8) 8).isNone then ⟨false, nextFp, nextPc, regs⟩
  else if nextFp ≠ 0 ∧ nextFp.toNat ≤ fp.toNat then ⟨false, nextFp, nextPc, regs⟩
  else
    let regs := Function.update regs a.regFp nextFp
    let regs := Function.update regs a.regSp (a.frameSp fp nextFp)
    ⟨true, nextFp, nextPc, Function.update regs a.regPc (a.stripPac e.pacMask nextPc)⟩

/-- The first half of `UpdateRegsState`: the rules if there are any, with the return address of the
first frame behind them. -/
def recover (u : Impl a) (rs : Option (RegLocState a.toTarget)) : Option (Bool×Regs) :=
  match rs with
  | some rs =>
    (apply e u.regs rs).map fun out =>
      match a.regLr with
      | none => out
      | some lr =>
        if ¬out.1 ∧ e.enableLrFallback ∧ u.frames.length = 1 then
          (true, Function.update out.2 a.regPc (u.regs lr))
        else out
  | none =>
    if e.enableLrFallback ∧ u.frames.length = 1 ∧ ¬u.isResetFrames then
      match a.setPcFromReturnAddress e.stackMemory u.regs with
      | none => some (false, u.regs)
      | some regs => some (true, stepToNextFpIfNeed (a := a) e regs)
    else some (false, u.regs)

/-- `UpdateRegsState`: whether there is a caller. Its frame is `current` then. -/
def updateRegsState (frame : StepFrame) (rs : Option (RegLocState a.toTarget)) (u : Impl a) :
    Option (Bool×Impl a) :=
  (recover e u rs).map fun out =>
    let regs := Function.update out.2 a.regPc (a.stripPac e.pacMask (out.2 a.regPc))
    if out.1 then (true, {u with regs := regs})
    else
      let step := fpStep (a := a) e frame.fp frame.pc regs
      (step.ok, {u with regs := step.regs, isFpStep := u.isFpStep || step.ok})

def findCache (enableCache : Bool) (pc : Word) (u : Impl a) : Option (StepCache a) :=
  if enableCache ∧ ¬u.isFpStep then u.stepCache pc else none

/-- `AddFrameMap`: the map of the frame, or `none` where the frame is not added. -/
def addFrameMap (frame : StepFrame) (u : Impl a) : Option (Option DfxMap×Impl a) :=
  match e.getMapByPc frame.pc with
  | none => if u.frames.length > 2 then none else some (none, u.addFrame frame none)
  | some map => some (some map, u.addFrame frame (some map))

theorem addFrameMap_eq (frame : StepFrame) (u : Impl a) : addFrameMap e frame u =
      if e.getMapByPc frame.pc=none ∧ 2<u.frames.length then none
      else some (e.getMapByPc frame.pc, u.addFrame frame (e.getMapByPc frame.pc)) := by
  unfold addFrameMap
  cases e.getMapByPc frame.pc with
  | none | some map => simp

def getCrashLastFrame (u : Impl a) : Option StepFrame :=
  if e.isCrash ∧ ¬u.isFpStep then
    u.frames.getLast?.map fun last => ⟨last.pc, last.sp, last.fp⟩
  else none

def parseUnwindTable (pc : Word) (u : Impl a) :
    Option (Option (RegLocState a.toTarget)×Impl a) :=
  match e.findUnwindTable pc with
  | none => some (none, u)
  | some uti =>
    (step e.memory e.rounds u.parser pc uti (freshState a.toTarget e.union)).map fun out =>
      (out.1, {u with parser := out.2})

def updateCache (enableCache : Bool) (pc : Word) (map : Option DfxMap)
    (rs : Option (RegLocState a.toTarget)) (u : Impl a) : Impl a :=
  match rs with
  | none => u
  | some rs =>
    if enableCache ∧ (u.stepCache pc).isNone then
      {u with stepCache := Function.update u.stepCache pc (some ⟨map, rs⟩)}
    else u

inductive Located (a : Arch) where
  | done (ret : Bool) (frame : StepFrame) (u : Impl a)
  | found (frame : StepFrame) (map : Option DfxMap) (rs : Option (RegLocState a.toTarget))
      (u : Impl a)

def checkFrameValid (frame : StepFrame) (map : Option DfxMap) (prevSp : Word) (u : Impl a) : Bool :=
  let illegal := !u.isFpStep && (match map with
    | none => false
    | some map => !map.isVdsoMap && decide (frame.sp.toNat<prevSp.toNat))
  !illegal && decide (frame.pc≠0)

/-- Whether the frame is passed on: a frame without a map is stepped without rules. -/
def stepV8Frame (map : Option DfxMap) : Bool := map.isSome

def locateUncached (enableCache isSigFrame : Bool) (frame : StepFrame) (u : Impl a) :
    Option (Located a) :=
  match addFrameMap e frame u with
  | none =>
    match getCrashLastFrame e u with
    | none => some (.done false frame u)
    | some last => some (.found last none none u)
  | some (map, u) =>
    if isSigFrame then some (.done true frame u)
    else if !stepV8Frame map then some (.found frame map none u)
    else if u.isFpStep then
      if e.enableFpCheckMapExec ∧ ∃ m ∈ map, ¬m.isMapExec then some (.done false frame u)
      else some (.found frame map none u)
    else
      (parseUnwindTable e frame.pc u).map fun out =>
        .found frame map out.1 (updateCache enableCache frame.pc map out.1 out.2)

def locate (enableCache isSigFrame : Bool) (frame : StepFrame) (u : Impl a) : Option (Located a) :=
  match findCache enableCache frame.pc u with
  | some cache => some (.found frame cache.map (some cache.rs) (u.addFrame frame cache.map))
  | none => locateUncached e enableCache isSigFrame frame u

structure StepOut (a : Arch) where
  ok : Bool
  frame : StepFrame
  u : Impl a

def finish (prevSp : Word) (loc : Located a) : Option (StepOut a) :=
  match loc with
  | .done ret frame u => some ⟨ret, frame, u⟩
  | .found frame map rs u =>
    (updateRegsState e frame rs u).map fun out =>
      ⟨checkFrameValid out.2.current map prevSp out.2 && out.1, out.2.current, out.2⟩

def stepInner (enableCache isSigFrame : Bool) (frame : StepFrame) (u : Impl a) :
    Option (StepOut a) :=
  (locate e enableCache isSigFrame frame u).bind (finish e frame.sp)

def doPcAdjust (a : Arch) (pc : Word) : Word := if pc.toNat ≤ 4 then pc else pc-a.pcAdjust

/-- The frame by which `UnwindFrame` looks for rules: a return address is moved into its call. -/
def lookupFrame (needAdjustPc : Bool) (u : Impl a) : StepFrame :=
  if needAdjustPc then {u.current with pc := doPcAdjust a u.current.pc} else u.current

def signalRegs (u : Impl a) : Option (Option Regs) :=
  match e.unwindType with
  | .local | .customizeLocal => some none
  | .customize | .remote => a.stepIfSignalFrame e.memory (u.regs a.regPc) u.regs

structure FrameOut (a : Arch) where
  ok : Bool
  needAdjustPc : Bool
  u : Impl a

def unwindFrame (enableCache needAdjustPc : Bool) (u : Impl a) : Option (FrameOut a) :=
  (signalRegs e u).bind fun signal =>
    match signal with
    | some regs =>
      (stepInner e enableCache true u.current (u.setRegs regs)).map fun out => ⟨true, needAdjustPc, out.u⟩
    | none =>
      let frame := lookupFrame needAdjustPc u
      (stepInner e enableCache false frame u).map fun out =>
        let repeated := out.frame.pc = frame.pc ∧ out.frame.sp = frame.sp ∧ out.u.frames.length > 1
        ⟨out.ok && !decide repeated, true, out.u⟩

def resetFrames (skipFrameNum : ℕ) (u : Impl a) : Impl a :=
  if ¬u.isResetFrames ∧ skipFrameNum ≠ 0 ∧ u.frames.length ≥ skipFrameNum then
    {u with isResetFrames := true, frames := []}
  else u

/-- One round of the loop of `Unwind`: the next `needAdjustPc` and unwinder, or the last one. -/
def unwindRound (enableCache : Bool) (maxFrameNum skipFrameNum : ℕ) (s : Bool×Impl a) :
    Option ((Bool×Impl a) ⊕ Impl a) :=
  let u := resetFrames skipFrameNum s.2
  if u.frames.length ≥ maxFrameNum then some (.inr u)
  else
    (unwindFrame e enableCache s.1 u).map fun out =>
      if out.ok then .inl (out.needAdjustPc, out.u) else .inr out.u

def start (u : Impl a) : Impl a := {u.clear with isResetFrames := false}

def unwind (enableCache : Bool) (fuel maxFrameNum skipFrameNum : ℕ) (u : Impl a) :
    Option (Bool×Impl a) :=
  (loop (unwindRound e enableCache maxFrameNum skipFrameNum) fuel (false, start u)).map fun u =>
    (decide (u.frames.length > 0), u)

end Step

end Faultloggerd.Unwinder
