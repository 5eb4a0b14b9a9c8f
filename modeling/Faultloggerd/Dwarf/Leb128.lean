import Faultloggerd.Dwarf.Memory
import Faultloggerd.Foundations.Leb128

/-! # Reading LEB128

`ReadUleb128` and `ReadSleb128` against the format. The loop shifts each group by the bits before it; the sign bits are
shifted by all of them, which is more than a word has where a negative number takes ten bytes.
-/
namespace Faultloggerd.Dwarf
open Foundations.Leb128 List BitVec Nat

/-- The bytes stand in memory from the address on. -/
def HoldsBytes (m : DfxMemory) : Word → List Byte → Prop
  | _, [] => True
  | addr, b :: bs => m.read addr 1 = some (b.setWidth 64) ∧ HoldsBytes m (addr+1) bs

instance (m : DfxMemory) : (addr : Word) → (bs : List Byte) → Decidable (HoldsBytes m addr bs)
  | _, [] => inferInstanceAs (Decidable True)
  | addr, _ :: bs =>
    have := instDecidableHoldsBytes m (addr+1) bs
    inferInstanceAs (Decidable (_ ∧ _))

theorem HoldsBytes.add_lt {m : DfxMemory} {addr : Word} {bs : List Byte} (h : HoldsBytes m addr bs) :
    addr.toNat+bs.length<2^64 := by
  induction bs generalizing addr with
  | nil => exact addr.isLt
  | cons b bs ih =>
    obtain ⟨hr, hr1⟩ := h
    have hlt := ih hr1
    rw [DfxMemory.toNat_succ_of_read hr] at hlt
    grind

section Byte

variable (b : Byte)

theorem group_and : b.setWidth 64&&&(0x7f : Word)=BitVec.ofNat 64 (group b) := by
  revert b
  decide

theorem continues_iff : b.setWidth 64&&&(0x80 : Word)≠0 ↔ 128≤b.toNat := by
  revert b
  decide

theorem sign_iff : b.setWidth 64&&&(0x40 : Word)≠0 ↔ 64≤group b := by
  revert b
  decide

end Byte

namespace DfxMemory

variable {m : DfxMemory} {addr val : Word} {rounds shift : ℕ} {bs : List Byte}

theorem readUlebLoop_eq (m : DfxMemory) (rounds : ℕ) (addr val : Word) (shift : ℕ) (byte : Word) :
    m.readUlebLoop rounds addr val shift =
      ((m.readSlebLoop rounds addr val shift byte).1, (m.readSlebLoop rounds addr val shift byte).2.2.2) := by
  induction rounds generalizing addr val shift byte with
  | zero => rfl
  | succ rounds ih =>
    unfold readUlebLoop readSlebLoop
    cases m.read addr 1 with
    | none => rfl
    | some u8 =>
      dsimp only
      split
      · exact ih ..
      · rfl

theorem le_readSlebLoop (m : DfxMemory) (addr : Word) (rounds : ℕ) (val : Word) (shift : ℕ) (byte : Word) :
    addr.toNat≤(m.readSlebLoop rounds addr val shift byte).2.2.2.toNat := by
  induction rounds generalizing addr val shift byte with
  | zero => exact Nat.le_refl _
  | succ rounds ih =>
    rw [readSlebLoop]
    cases hr : m.read addr 1 with
    | none => exact Nat.le_refl _
    | some u8 =>
      have hn := toNat_succ_of_read hr
      dsimp only
      split
      · have hr1 := ih (addr+1) (val ||| (u8 &&& 0x7f) <<< shift) (shift+7) u8
        omega
      · grind

theorem le_readUleb128 (m : DfxMemory) (addr : Word) : addr.toNat≤(m.readUleb128 addr).2.toNat := by
  rw [readUleb128, readUlebLoop_eq m _ addr 0 0 0]
  exact m.le_readSlebLoop addr _ 0 0 0

theorem le_readSleb128 (m : DfxMemory) (addr : Word) : addr.toNat≤(m.readSleb128 addr).2.toNat :=
    m.le_readSlebLoop addr _ 0 0 0

theorem readSlebLoop_of_holds (hl2 : IsLeb bs) (hm : HoldsBytes m addr bs) (hr : bs.length≤ rounds)
    (hv : val.toNat<2^shift) (byte : Word) : ∃ b, bs.getLast?=some b ∧ m.readSlebLoop rounds addr val shift byte =
        (val+BitVec.ofNat 64 (2^shift*unsignedValue bs), shift+7*bs.length, b.setWidth 64,
          addr+BitVec.ofNat 64 bs.length) := by
  induction hl2 generalizing rounds addr val shift byte with
  | @last b hb =>
    obtain ⟨hr1, -⟩ := hm
    cases rounds with
    | zero => cases hr
    | succ rounds =>
      refine ⟨b, rfl, ?_⟩
      have hs : ¬b.setWidth 64 &&& (0x80 : Word)≠0 := by
        rw [continues_iff]
        omega
      have hc := collect_add hv b []
      rw [unsignedValue, Nat.mul_zero, BitVec.add_zero] at hc
      rw [readSlebLoop, hr1]
      dsimp only
      rw [if_neg hs, group_and, ←hc]
      rfl
  | @more b bs hb hbs ih =>
    obtain ⟨hr1, hr2⟩ := hm
    cases rounds with
    | zero => cases hr
    | succ rounds =>
      obtain ⟨c, hl, hl1⟩ := ih hr2 (le_of_succ_le_succ hr) (collect_lt hv b) (b.setWidth 64)
      refine ⟨c, ?_, ?_⟩
      · rw [getLast?_cons, hl]
        rfl
      rw [readSlebLoop, hr1]
      dsimp only
      rw [if_pos ((continues_iff b).mpr hb), group_and]
      change m.readSlebLoop rounds (addr+1) (collect val shift b) (shift+7) (b.setWidth 64)=_
      rw [hl1, collect_add hv, length_cons, BitVec.add_assoc, Nat.add_comm bs.length 1, BitVec.ofNat_add,
        Nat.mul_add, Nat.add_assoc]
      rfl

theorem readSleb_start (hl2 : IsLeb bs) (hm : HoldsBytes m addr bs) : ∃ b, bs.getLast?=some b ∧
    m.readSlebLoop (2^64-addr.toNat) addr 0 0 0 =
      (BitVec.ofNat 64 (unsignedValue bs), 7*bs.length, b.setWidth 64, addr+BitVec.ofNat 64 bs.length) := by
  have hlt := hm.add_lt
  have hr : bs.length≤2^64-addr.toNat := by omega
  have hz : (0 : Word).toNat<2^0 := Nat.one_pos
  obtain ⟨b, hl, hl1⟩ := readSlebLoop_of_holds hl2 hm hr hz 0
  refine ⟨b, hl, ?_⟩
  rw [hl1, Nat.pow_zero, Nat.one_mul, Nat.zero_add]
  exact congrArg (·, _) (BitVec.zero_add _)

theorem readUleb128_of_holds (hl1 : IsLeb bs) (hm : HoldsBytes m addr bs) :
    m.readUleb128 addr=(BitVec.ofNat 64 (unsignedValue bs), addr+BitVec.ofNat 64 bs.length) := by
  obtain ⟨b, -, hl⟩ := readSleb_start hl1 hm
  rw [readUleb128, readUlebLoop_eq m _ addr 0 0 0, hl]

theorem readSleb128_of_holds (hl2 : IsLeb bs) (hm : HoldsBytes m addr bs) :
    m.readSleb128 addr=(BitVec.ofInt 64 (signedValue bs), addr+BitVec.ofNat 64 bs.length) := by
  obtain ⟨b, hl, hl1⟩ := readSleb_start hl2 hm
  have hb : (BitVec.ofNat 64 (unsignedValue bs)).toNat<2^(7*bs.length) := by
    have hlt := unsignedValue_lt bs
    rw [Nat.pow_mul]
    exact Nat.lt_of_le_of_lt (Nat.mod_le _ _) hlt
  have hs : Negative bs ↔ b.setWidth 64 &&& (0x40 : Word)≠0 := by
    rw [sign_iff, Negative, hl]
    simp
  rw [readSleb128, hl1, ofInt_signedValue bs hb]
  dsimp only
  by_cases hn : Negative bs
  · rw [if_pos hn, if_pos (hs.mp hn)]
  · rw [if_neg hn, if_neg (fun h => hn (hs.mpr h))]

def shiftLoop (m : DfxMemory) : ℕ → Word → ℕ → List ℕ
  | 0, _, _ => []
  | rounds+1, addr, shift =>
    match m.read addr 1 with
    | none => []
    | some u8 => shift :: if u8 &&& 0x80 ≠ 0 then shiftLoop m rounds (addr+1) (shift+7) else []

def ulebShifts (m : DfxMemory) (addr : Word) : List ℕ :=
  m.shiftLoop (2^64-addr.toNat) addr 0

def slebShifts (m : DfxMemory) (addr : Word) : List ℕ :=
  let (_, shift, byte, _) := m.readSlebLoop (2^64-addr.toNat) addr 0 0 0
  m.shiftLoop (2^64-addr.toNat) addr 0++if byte &&& 0x40 ≠ 0 then [shift] else []

section

variable (hl : IsLeb bs)
include hl

section

variable (hm : HoldsBytes m addr bs)
include hm

theorem shiftLoop_of_holds (hr : bs.length≤ rounds) :
    m.shiftLoop rounds addr shift=(range bs.length).map fun i => shift+7*i := by
  induction hl generalizing rounds addr shift with
  | @last b hb =>
    obtain ⟨hr1, -⟩ := hm
    cases rounds with
    | zero => cases hr
    | succ rounds =>
      have hs : ¬b.setWidth 64 &&& (0x80 : Word)≠0 := by
        rw [continues_iff]
        omega
      rw [shiftLoop, hr1]
      dsimp only
      rw [if_neg hs]
      rfl
  | @more b bs hb hbs ih =>
    obtain ⟨hr1, hr2⟩ := hm
    cases rounds with
    | zero => cases hr
    | succ rounds =>
      rw [shiftLoop, hr1]
      dsimp only
      rw [if_pos ((continues_iff b).mpr hb), ih hr2 (le_of_succ_le_succ hr), length_cons,
        range_succ_eq_map, map_cons, map_map]
      refine congrArg (shift :: ·) (map_congr_left fun i _ => ?_)
      grind

theorem ulebShifts_of_holds :
    m.ulebShifts addr=(range bs.length).map (7 * ·) := by
  have hlt := hm.add_lt
  rw [ulebShifts, shiftLoop_of_holds hl hm (by omega)]
  simp

theorem slebShifts_of_holds :
    m.slebShifts addr=(range bs.length).map (7 * ·)++if Negative bs then [7*bs.length] else [] := by
  obtain ⟨b, hl1, hl2⟩ := readSleb_start hl hm
  have hs1 : b.setWidth 64 &&& (0x40 : Word)≠0 ↔ Negative bs := by
    rw [sign_iff, Negative, hl1]
    simp
  have hs := ulebShifts_of_holds hl hm
  rw [ulebShifts] at hs
  rw [slebShifts, hl2]
  rw [hs]
  simp only [hs1]

theorem ulebShifts_lt_iff :
    (∀ shift∈m.ulebShifts addr, shift<64) ↔ bs.length≤10 := by
  rw [ulebShifts_of_holds hl hm, forall_mem_map]
  constructor
  · intro h
    by_contra hlong
    have hl1 := h 10 (mem_range.mpr (by omega))
    omega
  · intro hl2 i hi
    have hlt := mem_range.mp hi
    omega

theorem slebShifts_lt_iff :
    (∀ shift∈m.slebShifts addr, shift<64) ↔ bs.length≤9 ∨ bs.length=10 ∧ ¬Negative bs := by
  have hg := ulebShifts_lt_iff hl hm
  rw [ulebShifts_of_holds hl hm] at hg
  rw [slebShifts_of_holds hl hm, forall_mem_append]
  by_cases hn : Negative bs
  · rw [if_pos hn, forall_mem_singleton]
    grind
  · grind

end

end

end DfxMemory

/-- The value and the address behind the number, with shifts that the language defines. -/
def UlebLaw (m : DfxMemory) (addr : Word) (length : ℕ) (value : Word) : Prop :=
  m.readUleb128 addr = (value, addr+BitVec.ofNat 64 length) ∧ ∀ shift ∈ m.ulebShifts addr, shift < 64

/-- The value is read, the pointer moves behind it, and every shift is below the width of a word. -/
def SlebLaw (m : DfxMemory) (addr : Word) (length : ℕ) (value : Word) : Prop :=
  m.readSleb128 addr = (value, addr+BitVec.ofNat 64 length) ∧ ∀ shift ∈ m.slebShifts addr, shift < 64

section RoundTrip

variable {m : DfxMemory} {addr value : Word} {bs : List Byte}

theorem ulebLaw_of_encoding (hl : IsLeb bs) (hl1 : bs.length≤10) (hm : HoldsBytes m addr bs)
    (hv : unsignedValue bs=value.toNat) : UlebLaw m addr bs.length value := by
  refine ⟨?_, (m.ulebShifts_lt_iff hl hm).mpr hl1⟩
  rw [m.readUleb128_of_holds hl hm, hv, ofNat_toNat, setWidth_eq]

theorem slebLaw_iff_of_encoding (hl : IsLeb bs) (hl1 : bs.length≤10) (hm : HoldsBytes m addr bs)
    (hv : signedValue bs=value.toInt) : SlebLaw m addr bs.length value ↔ bs.length≤9 ∨ 0≤value.toInt := by
  have hr : m.readSleb128 addr=(value, addr+BitVec.ofNat 64 bs.length) := by
    rw [m.readSleb128_of_holds hl hm, hv, ofInt_toInt]
  have hs : Negative bs ↔ value.toInt<0 := by rw [←signedValue_neg_iff, hv]
  rw [SlebLaw, m.slebShifts_lt_iff hl hm, hs]
  constructor
  · rintro ⟨-, hn | ht⟩
    · exact .inl hn
    · exact .inr (by omega)
  · intro hs1
    exact ⟨hr, by omega⟩

/-- Numbers of at most ten bytes are read back, but not the negative ones of ten bytes. -/
theorem leb128_law_iff (m : DfxMemory) (addr : Word) (bs : List Byte) (hleb : IsLeb bs) (hlen : bs.length≤10)
    (hm : HoldsBytes m addr bs) : (∀ value, unsignedValue bs=value.toNat → UlebLaw m addr bs.length value) ∧
      ∀ value, signedValue bs = value.toInt → (SlebLaw m addr bs.length value ↔ bs.length≤9 ∨ 0≤value.toInt) :=
  ⟨fun _ hv => ulebLaw_of_encoding hleb hlen hm hv, fun _ hv => slebLaw_iff_of_encoding hleb hlen hm hv⟩

def paddedMinusTwo : List Byte := [0xfe, 0x7f]

theorem leb128_law_padded : IsLeb paddedMinusTwo ∧ HoldsBytes (.ofImage 0x1000 paddedMinusTwo) 0x1000 paddedMinusTwo ∧
    SlebLaw (.ofImage 0x1000 paddedMinusTwo) 0x1000 2 (-2) := by
  refine ⟨by decide, by decide, ?_⟩
  have h := leb128_law_iff (.ofImage 0x1000 paddedMinusTwo) 0x1000 paddedMinusTwo (by decide) (by decide) (by decide)
  exact (h.2 (-2) (by decide)).mpr (.inl (by decide))

def leastNumber : List Byte := List.replicate 9 0x80++[0x7f]

theorem leastNumber_shift : IsLeb leastNumber ∧ leastNumber.length = 10 ∧
    signedValue leastNumber = (BitVec.intMin 64).toInt ∧ HoldsBytes (.ofImage 0x1000 leastNumber) 0x1000 leastNumber ∧
        ¬SlebLaw (.ofImage 0x1000 leastNumber) 0x1000 10 (BitVec.intMin 64) := by
  have hl : IsLeb leastNumber := by decide
  have hv : signedValue leastNumber=(intMin 64).toInt := by decide
  have hm : HoldsBytes (.ofImage 0x1000 leastNumber) 0x1000 leastNumber := by decide
  refine ⟨hl, rfl, hv, hm, fun hl1 => ?_⟩
  have hs := (slebLaw_iff_of_encoding hl (Nat.le_refl 10) hm hv).mp hl1
  exact absurd hs (by decide)

end RoundTrip

end Faultloggerd.Dwarf
