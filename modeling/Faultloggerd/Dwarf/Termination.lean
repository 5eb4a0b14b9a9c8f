import Faultloggerd.Dwarf.CallFrame
import Faultloggerd.Dwarf.Leb128

/-! # Call-frame programs come to an end

A read that fails leaves the pointer where it is and one that succeeds moves it up, so no operand moves it down. The
opcode has moved it up already: a round of `Iterate` ends the run or brings the pointer nearer to the end.
-/
namespace Faultloggerd.Dwarf
open BitVec Nat

namespace DfxMemory

variable (m : DfxMemory) (addr : Word)

theorem le_readFormatEncodedValue (formatEncoding : Byte) :
    addr.toNat≤(m.readFormatEncodedValue addr formatEncoding).2.toNat := by
  unfold readFormatEncodedValue
  split
  · exact m.le_readUleb128 addr
  · exact m.le_readSleb128 addr
  iterate 8 exact m.le_readInto addr _ 0
  · exact le_refl _

end DfxMemory

theorem le_and_not_seven (w : Word) : w.toNat≤(w&&&~~~7).toNat+7 := by
  have hs := Foundations.BitMasks.toNat_and_not_add_and w 7
  have hl : (w &&& 7).toNat≤7 := and_le_right
  omega

/-- An aligned value is the only one whose address is rounded up, which could wrap around. -/
theorem DfxMemory.le_readEncodedValue (m : DfxMemory) {addr : Word} (ha : addr.toNat+7<2^64)
    (encoding : Byte) : addr.toNat≤(m.readEncodedValue addr encoding).2.toNat := by
  unfold readEncodedValue
  split_ifs with ho ha1 ho1 ha2 hi
  · exact le_refl _
  · omega
  · have hr := le_and_not_seven (addr+7)
    have hr1 := m.le_readInto ((addr+7) &&& ~~~7) 8 0
    rw [toNat_add_of_lt (by exact ha)] at hr
    change addr.toNat+7≤_ at hr
    rw [readUnsigned]
    omega
  · exact m.le_readInto addr 8 0
  · exact m.le_readFormatEncodedValue addr _
  · exact m.le_readFormatEncodedValue addr _

def Forward (instPtr : Word) (r : ReadInst) : Prop := r.2.2 = true → instPtr.toNat ≤ r.2.1.toNat

section Instructions

variable (m : DfxMemory) (ptr : Word)

theorem forward_still (inst : CfaInst) : Forward ptr (inst, ptr, true) := fun _ => le_refl _

theorem forward_readUleb (inst : Word → CfaInst) : Forward ptr (readUleb m ptr inst) := fun _ => m.le_readUleb128 ptr

theorem forward_readSleb (inst : Word → CfaInst) : Forward ptr (readSleb m ptr inst) := fun _ => m.le_readSleb128 ptr

theorem forward_readBlock (inst : CfaInst) : Forward ptr (readBlock m ptr inst) := by
  intro hf
  have hl := m.le_readUleb128 ptr
  have hlt := of_decide_eq_true hf
  change ptr.toNat≤((m.readUleb128 ptr).2+(m.readUleb128 ptr).1).toNat
  grind

theorem Forward.after_uleb {r : ReadInst} (h : Forward (m.readUleb128 ptr).2 r) : Forward ptr r :=
  fun hok => le_trans (m.le_readUleb128 ptr) (h hok)

section

variable (inst : Word → Word → CfaInst)

theorem forward_readUlebUleb : Forward ptr (readUlebUleb m ptr inst) :=
  .after_uleb m ptr (forward_readUleb m _ _)

theorem forward_readUlebSleb : Forward ptr (readUlebSleb m ptr inst) :=
  .after_uleb m ptr (forward_readSleb m _ _)

theorem forward_readUlebBlock : Forward ptr (readUlebBlock m ptr inst) :=
  .after_uleb m ptr (forward_readBlock m _ _)

end

theorem forward_readEncoded (hp : ptr.toNat+7<2^64) (encoding : Byte) (inst : Word → CfaInst) :
    Forward ptr (readEncoded m ptr encoding inst) := fun _ => m.le_readEncodedValue hp encoding

theorem forward_readShortInst (opCode : Byte) : Forward ptr (readShortInst m opCode ptr) := by
  unfold readShortInst
  split
  · exact forward_still ptr _
  · exact forward_readUleb m ptr _
  · exact forward_still ptr _
  · exact forward_still ptr _

theorem forward_readInst (hp : ptr.toNat+7<2^64) (cie : CommonInfoEntry) (opCode : Byte) :
    Forward ptr (readInst m cie opCode ptr) := by
  unfold readInst
  split <;> first
    | with_reducible exact forward_still ptr _
    | with_reducible exact forward_readEncoded m ptr hp _ _
    | with_reducible exact forward_readUleb m ptr _
    | with_reducible exact forward_readSleb m ptr _
    | with_reducible exact forward_readBlock m ptr _
    | with_reducible exact forward_readUlebUleb m ptr _
    | with_reducible exact forward_readUlebSleb m ptr _
    | with_reducible exact forward_readUlebBlock m ptr _
    | with_reducible exact forward_readShortInst m ptr opCode

end Instructions

variable {t : Target}

section Runs

variable (m : DfxMemory) (pc : Word) (fde : FrameDescEntry) (instEnd : Word)

/-- The loop returns here. -/
def EndsRun (s : CfaState t) : Prop := ∃ s', ∀ fuel, iterateLoop m pc fde instEnd (fuel+1) s = some s'

/-- The loop goes on behind the instruction it is at. -/
def AdvancesRun (s : CfaState t) : Prop := ∃ s', s.instPtr.toNat < s'.instPtr.toNat ∧
  ∀ fuel, iterateLoop m pc fde instEnd (fuel+1) s = iterateLoop m pc fde instEnd fuel s'

variable {instEnd}

theorem ends_or_advances (he : instEnd.toNat<2^63) (s : CfaState t) :
    EndsRun m pc fde instEnd s ∨ s.instPtr.toNat< instEnd.toNat ∧ AdvancesRun m pc fde instEnd s := by
  by_cases hpc : pc.toNat<s.pcOffset.toNat
  · exact .inl ⟨_, fun fuel => iterateLoop_above fuel hpc⟩
  have hpc := Nat.le_of_not_lt hpc
  by_cases hp : instEnd.toNat≤ s.instPtr.toNat
  · exact .inl ⟨_, fun fuel => iterateLoop_behind fuel hpc hp⟩
  have hp := Nat.lt_of_not_le hp
  cases hr : m.read s.instPtr 1 with
  | none => exact .inl ⟨_, fun fuel => iterateLoop_unread fuel hpc hp hr⟩
  | some opCode =>
    have hn := DfxMemory.toNat_succ_of_read hr
    have hf := forward_readInst m (s.instPtr+1) (by omega) fde.cie (opCode.setWidth 8)
    cases hok : (readInst m fde.cie (opCode.setWidth 8) (s.instPtr+1)).2.2 with
    | true =>
      have hrun := fun fuel => (iterateLoop_decode fuel hpc hp hr).trans (if_pos hok)
      refine .inr ⟨hp, _, ?_, hrun⟩
      have hle := hf hok
      rw [instPtr_execInst]
      change s.instPtr.toNat<(readInst m fde.cie (opCode.setWidth 8) (s.instPtr+1)).2.1.toNat
      omega
    | false =>
      have hs : ¬(readInst m fde.cie (opCode.setWidth 8) (s.instPtr+1)).2.2=true := by grind
      exact .inl ⟨_, fun fuel => (iterateLoop_decode fuel hpc hp hr).trans (if_neg hs)⟩

theorem iterateLoop_returns (he : instEnd.toNat<2^63) (bytes : ℕ) (s : CfaState t)
    (hb : instEnd.toNat-s.instPtr.toNat≤bytes) :
    ∃ s', ∀ fuel, bytes<fuel → iterateLoop m pc fde instEnd fuel s=some s' := by
  induction bytes generalizing s with
  | zero =>
    obtain ⟨s', hs'⟩ | ⟨hlt, -⟩ := ends_or_advances m pc fde he s
    · refine ⟨s', fun fuel hf => ?_⟩
      obtain ⟨fuel, rfl⟩ := exists_eq_succ_of_ne_zero (ne_of_gt hf)
      exact hs' fuel
    · omega
  | succ bytes ih =>
    obtain ⟨s', hs'⟩ | ⟨hlt, s', ha, hs'⟩ := ends_or_advances m pc fde he s
    · refine ⟨s', fun fuel hf => ?_⟩
      obtain ⟨fuel, rfl⟩ := Nat.exists_eq_succ_of_ne_zero (Nat.ne_zero_of_lt hf)
      exact hs' fuel
    · obtain ⟨s'', hs''⟩ := ih s' (by omega)
      refine ⟨s'', fun fuel hf => ?_⟩
      obtain ⟨fuel, rfl⟩ := Nat.exists_eq_succ_of_ne_zero (Nat.ne_zero_of_lt hf)
      rw [hs' fuel, hs'' fuel (lt_of_succ_lt_succ hf)]

def FrameDescEntry.programBytes (fde : FrameDescEntry) : ℕ :=
  max (fde.cie.instructionsEnd.toNat-fde.cie.instructionsOff.toNat)
    (fde.instructionsEnd.toNat-fde.instructionsOff.toNat)

/-- `Parse` returns after no more rounds than the programs have bytes: a round ends the loop or moves the pointer up. -/
theorem parse_returns (hcie : fde.cie.instructionsEnd.toNat<2^63) (hfde : fde.instructionsEnd.toNat<2^63)
    (rs : RegLocState t) : (∃ rs', ∀ fuel, fde.programBytes<fuel → parse m pc fde fuel rs=some rs') ∧
      ∀ instEnd ∈ [fde.cie.instructionsEnd, fde.instructionsEnd], ∀ s : CfaState t,
        EndsRun m pc fde instEnd s ∨ AdvancesRun m pc fde instEnd s := by
  constructor
  · obtain ⟨s, hs⟩ := iterateLoop_returns m pc fde hcie fde.programBytes
      ⟨fde.pcStart, fde.cie.instructionsOff, _, _, []⟩ (le_max_left ..)
    obtain ⟨s', hs'⟩ := iterateLoop_returns m pc fde hfde fde.programBytes
      ⟨fde.pcStart, fde.instructionsOff, _, _, s.saveRsStates⟩ (le_max_right ..)
    refine ⟨s'.rsState, fun fuel hf => ?_⟩
    dsimp only [parse, iterate]
    rw [hs fuel hf, Option.bind_some, hs' fuel hf, Option.map_some]
  · intro instEnd hm s
    have hb : instEnd.toNat<2^63 := by grind
    exact (ends_or_advances m pc fde hb s).imp_right And.right

end Runs

/-- Bounds that say nothing: two states are saved, a block leads out of the image, and nothing lies behind it. -/
def openEntry : FrameDescEntry :=
  {pcEnd := 0x10, instructionsOff := 0x1000, instructionsEnd := 0x7fffffffffffffff}

theorem openEntry_returns : openEntry.instructionsEnd.toNat < 2^63 ∧
    ∃ rs' : RegLocState arm64, ∀ fuel, openEntry.programBytes < fuel →
      parse (.ofImage 0x1000 [0x0a, 0x0a, 0x0f, 0x80, 0x01]) 0 openEntry fuel {} = some rs' :=
  ⟨by decide, (parse_returns _ 0 openEntry (by decide) (by decide) {}).1⟩

end Faultloggerd.Dwarf
