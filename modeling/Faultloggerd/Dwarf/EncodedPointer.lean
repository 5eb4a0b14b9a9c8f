import Faultloggerd.Dwarf.Leb128

/-! # Encoded pointers

A pointer encoding says how a field is laid out, which base is added to it, and whether the sum is the pointer or the
address of the pointer. `ReadEncodedValue` treats the three apart, but returns a field of the plain format as it is.
-/
namespace Faultloggerd.Dwarf
open Foundations.Leb128 DfxMemory

inductive Format where
  | absptr | uleb128 | udata2 | udata4 | udata8 | sleb128 | sdata2 | sdata4 | sdata8
deriving DecidableEq

inductive Application where
  | absolute | pcrel | datarel | funcrel

structure Encoding where
  format : Format
  application : Application
  indirect : Bool

def Format.code : Format → Byte
  | .absptr => 0x00
  | .uleb128 => 0x01
  | .udata2 => 0x02
  | .udata4 => 0x03
  | .udata8 => 0x04
  | .sleb128 => 0x09
  | .sdata2 => 0x0a
  | .sdata4 => 0x0b
  | .sdata8 => 0x0c

def Application.code : Application → Byte
  | .absolute => 0x00
  | .pcrel => 0x10
  | .datarel => 0x30
  | .funcrel => 0x40

def Encoding.byte (enc : Encoding) : Byte :=
  enc.format.code ||| enc.application.code ||| if enc.indirect then 0x80 else 0

def UnsignedAt (m : DfxMemory) (addr : Word) (size : ℕ) (bs : List Byte) (value : Word) : Prop :=
  m.readBytes addr size = bs ∧ bs.length = size ∧ value = ofBytes bs

def SignedAt (m : DfxMemory) (addr : Word) (size : ℕ) (bs : List Byte) (value : Word) : Prop :=
  m.readBytes addr size = bs ∧ bs.length = size ∧ value = ((ofBytes bs).setWidth (8*size)).signExtend 64

/-- The bytes of a readable field, and its value modulo the word size. -/
def FieldAt (m : DfxMemory) (addr : Word) (format : Format) (bs : List Byte) (value : Word) : Prop :=
  match format with
  | .absptr => UnsignedAt m addr 8 bs value
  | .uleb128 => IsLeb bs ∧ HoldsBytes m addr bs ∧ value = BitVec.ofNat 64 (unsignedValue bs)
  | .udata2 => UnsignedAt m addr 2 bs value
  | .udata4 => UnsignedAt m addr 4 bs value
  | .udata8 => UnsignedAt m addr 8 bs value
  | .sleb128 => IsLeb bs ∧ HoldsBytes m addr bs ∧ value = BitVec.ofInt 64 (signedValue bs)
  | .sdata2 => SignedAt m addr 2 bs value
  | .sdata4 => SignedAt m addr 4 bs value
  | .sdata8 => SignedAt m addr 8 bs value

def Application.base (m : DfxMemory) (addr : Word) : Application → Word
  | .absolute => 0
  | .pcrel => addr
  | .datarel => m.dataOffset
  | .funcrel => m.funcOffset

/-- What a value points to: it is relative to its base, and indirect if the encoding says so. -/
def PointsTo (m : DfxMemory) (addr : Word) (enc : Encoding) (value target : Word) : Prop :=
  if enc.indirect then m.read (value+enc.application.base m addr) 8 = some target
  else target = value+enc.application.base m addr

instance (m : DfxMemory) (addr : Word) (enc : Encoding) (value target : Word) :
    Decidable (PointsTo m addr enc value target) := by
  unfold PointsTo
  infer_instance

def formatShifts (m : DfxMemory) (addr : Word) : Format → List ℕ
  | .uleb128 => m.ulebShifts addr
  | .sleb128 => m.slebShifts addr
  | _ => []

/-- The pointer is returned, and the address moves over the field, with shifts that the language defines. -/
def EncodedLaw (m : DfxMemory) (addr : Word) (enc : Encoding) (length : ℕ) (target : Word) : Prop :=
  m.readEncodedValue addr enc.byte = (target, addr+BitVec.ofNat 64 length) ∧
    ∀ shift ∈ formatShifts m addr enc.format, shift < 64

/-- A plain field is the pointer already; a number fits into a word as it is read. -/
def Supported (format : Format) (bs : List Byte) (value target : Word) : Prop :=
  match format with
  | .absptr => target = value
  | .uleb128 => bs.length ≤ 10
  | .sleb128 => bs.length ≤ 9 ∨ bs.length = 10 ∧ ¬Negative bs
  | _ => True

namespace Encoding

variable (enc : Encoding)

theorem byte_and_format : enc.byte&&&0x0f=enc.format.code := by
  obtain ⟨format, application, indirect⟩ := enc
  cases format <;> cases application <;> cases indirect <;> decide

theorem byte_and_application : enc.byte&&&0x70=enc.application.code := by
  obtain ⟨format, application, indirect⟩ := enc
  cases format <;> cases application <;> cases indirect <;> decide

theorem byte_and_indirect : enc.byte&&&0x80≠0 ↔ enc.indirect=true := by
  obtain ⟨format, application, indirect⟩ := enc
  cases format <;> cases application <;> cases indirect <;> decide

theorem byte_ne : enc.byte≠dwEhPeOmit ∧ enc.byte≠dwEhPeAligned := by
  obtain ⟨format, application, indirect⟩ := enc
  cases format <;> cases application <;> cases indirect <;> decide

theorem applyBase_eq (m : DfxMemory) (addr : Word) : m.applyBase addr enc.byte=enc.application.base m addr := by
  unfold applyBase
  rw [byte_and_application]
  cases enc.application <;> rfl

end Encoding

theorem Format.code_eq_zero_iff (format : Format) : format.code=0 ↔ format=.absptr := by
  cases format <;> decide

section Fields

variable {m : DfxMemory} {addr value target : Word} {bs : List Byte}

theorem readUnsigned_of_at {size : ℕ} (h : UnsignedAt m addr size bs value) :
    m.readUnsigned addr size=(value, addr+BitVec.ofNat 64 bs.length) := by
  obtain ⟨hb, hl, rfl⟩ := h
  rw [readUnsigned, readInto, hb]
  rw [if_pos hl, overlay_zero, hl]

theorem readSigned_of_at {size : ℕ} (h : SignedAt m addr size bs value) :
    m.readSigned addr size=(value, addr+BitVec.ofNat 64 bs.length) := by
  obtain ⟨hb, hl, rfl⟩ := h
  have hr := readUnsigned_of_at ⟨hb, hl, rfl⟩
  rw [readUnsigned] at hr
  rw [readSigned, hr]

theorem readFormatEncodedValue_of_at {format : Format} (hf : format≠.absptr) (h : FieldAt m addr format bs value) :
    m.readFormatEncodedValue addr format.code=(value, addr+BitVec.ofNat 64 bs.length) := by
  cases format with
  | absptr => exact absurd rfl hf
  | uleb128 =>
    obtain ⟨hl, hm, rfl⟩ := h
    exact m.readUleb128_of_holds hl hm
  | sleb128 =>
    obtain ⟨hl, hm, rfl⟩ := h
    exact m.readSleb128_of_holds hl hm
  | udata2 | udata4 | udata8 => exact readUnsigned_of_at h
  | sdata2 | sdata4 | sdata8 => exact readSigned_of_at h

theorem shifts_lt_iff {format : Format} (hf : format≠.absptr) (h : FieldAt m addr format bs value) :
    (∀ shift∈formatShifts m addr format, shift<64) ↔ Supported format bs value target := by
  cases format with
  | absptr => exact absurd rfl hf
  | uleb128 =>
    obtain ⟨hl, hm, -⟩ := h
    exact m.ulebShifts_lt_iff hl hm
  | sleb128 =>
    obtain ⟨hl, hm, -⟩ := h
    exact m.slebShifts_lt_iff hl hm
  | udata2 | udata4 | udata8 | sdata2 | sdata4 | sdata8 => exact ⟨fun _ => trivial, fun _ => nofun⟩

variable {enc : Encoding}

theorem readEncodedValue_absptr (hf : enc.format=.absptr) (h : FieldAt m addr enc.format bs value) :
    m.readEncodedValue addr enc.byte=(value, addr+BitVec.ofNat 64 bs.length) := by
  have hne := enc.byte_ne
  rw [hf] at h
  unfold readEncodedValue
  rw [if_neg hne.1, if_neg hne.2, enc.byte_and_format, if_pos ((Format.code_eq_zero_iff _).mpr hf)]
  exact readUnsigned_of_at h

theorem readEncodedValue_of_at (hf : enc.format≠.absptr) (h : FieldAt m addr enc.format bs value)
    (ht : PointsTo m addr enc value target) :
    m.readEncodedValue addr enc.byte=(target, addr+BitVec.ofNat 64 bs.length) := by
  have hne := enc.byte_ne
  unfold readEncodedValue
  rw [if_neg hne.1, if_neg hne.2, enc.byte_and_format, if_neg (fun hz => hf ((Format.code_eq_zero_iff _).mp hz)),
    readFormatEncodedValue_of_at hf h]
  dsimp only
  rw [enc.applyBase_eq]
  unfold PointsTo at ht
  by_cases hi : enc.indirect=true
  · rw [if_pos hi] at ht
    rw [if_pos (enc.byte_and_indirect.mpr hi), m.readInto_word_of_read ht]
  · rw [if_neg hi] at ht
    rw [if_neg (fun hb => hi (enc.byte_and_indirect.mp hb)), ht]

/-- An encoded pointer is read as it is meant exactly when a plain field needs neither base nor load and a number fits
into a word as it is read. -/
theorem encodedLaw_iff (m : DfxMemory) (addr : Word) (enc : Encoding) (bs : List Byte) (value target : Word)
    (h : FieldAt m addr enc.format bs value) (htarget : PointsTo m addr enc value target) :
    EncodedLaw m addr enc bs.length target ↔ Supported enc.format bs value target := by
  by_cases hf : enc.format=.absptr
  · rw [EncodedLaw, readEncodedValue_absptr hf h, hf]
    constructor
    · rintro ⟨hv, -⟩
      exact (Prod.mk.inj hv).1.symm
    · intro hp
      exact ⟨by rw [show target=value from hp], nofun⟩
  · rw [EncodedLaw, readEncodedValue_of_at hf h htarget, shifts_lt_iff hf h]
    exact and_iff_right rfl

end Fields

def distanceImage : List Byte := [4, 0, 0, 0, 0x78, 0x56, 0x34, 0x12, 0, 0, 0, 0]

theorem encodedLaw_distance : FieldAt (.ofImage 0x1000 distanceImage) 0x1000 .sdata4 [4, 0, 0, 0] 4 ∧
      PointsTo (.ofImage 0x1000 distanceImage) 0x1000 ⟨.sdata4, .pcrel, true⟩ 4 0x12345678 ∧
        EncodedLaw (.ofImage 0x1000 distanceImage) 0x1000 ⟨.sdata4, .pcrel, true⟩ 4 0x12345678 := by
  have hf : FieldAt (.ofImage 0x1000 distanceImage) 0x1000 .sdata4 [4, 0, 0, 0] 4 := ⟨by decide, by decide, by decide⟩
  have ht : PointsTo (.ofImage 0x1000 distanceImage) 0x1000 ⟨.sdata4, .pcrel, true⟩ 4 0x12345678 := by decide
  exact ⟨hf, ht, (encodedLaw_iff _ _ ⟨.sdata4, .pcrel, true⟩ _ _ _ hf ht).mpr trivial⟩

def plainImage : List Byte := [0x20, 0, 0, 0, 0, 0, 0, 0]

theorem plainImage_base_skipped : FieldAt (.ofImage 0x1000 plainImage) 0x1000 .absptr plainImage 0x20 ∧
      PointsTo (.ofImage 0x1000 plainImage) 0x1000 ⟨.absptr, .pcrel, false⟩ 0x20 0x1020 ∧
        ¬EncodedLaw (.ofImage 0x1000 plainImage) 0x1000 ⟨.absptr, .pcrel, false⟩ 8 0x1020 := by
  have hf : FieldAt (.ofImage 0x1000 plainImage) 0x1000 .absptr plainImage 0x20 := ⟨by decide, by decide, by decide⟩
  refine ⟨hf, by decide, ?_⟩
  rintro ⟨hr, -⟩
  exact absurd (Prod.mk.inj hr).1 (by decide)

end Faultloggerd.Dwarf
