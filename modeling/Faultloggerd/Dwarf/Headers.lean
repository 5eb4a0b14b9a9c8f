import Faultloggerd.Dwarf.EntryParser

/-! # Headers of CIEs and FDEs

An entry begins with its length, in four bytes or, behind an escape, in eight. A field of the same width follows: zero
in a CIE, the distance back to its CIE in an FDE. `ParseCieOrFdeHeader` reads both forms.
-/
namespace Faultloggerd.Dwarf

inductive LengthForm where
  | short | long

namespace LengthForm

/-- How far the length reaches, and how wide the field behind it is. -/
def prefixSize : LengthForm → Word
  | .short => 4
  | .long => 12

def fieldSize : LengthForm → Word
  | .short => 4
  | .long => 8

end LengthForm

/-- The length and the id of an entry, in the format of 32 or of 64 bits. -/
def HeaderAt (m : DfxMemory) (addr : Word) (form : LengthForm) (length id : Word) : Prop :=
  match form with
  | .short => m.read addr 4 = some length ∧ length ≠ 0xffffffff ∧ m.read (addr+4) 4 = some id
  | .long => m.read addr 4 = some 0xffffffff ∧ m.read (addr+4) 8 = some length ∧ m.read (addr+12) 8 = some id

/-- The pointer stands behind the field, the end of the entry is found, and an FDE finds its CIE. -/
def HeaderLaw (m : DfxMemory) (addr : Word) (form : LengthForm) (length id : Word) : Prop :=
  ∃ h, readHeader m addr = some h ∧ h.ptr = addr+form.prefixSize+form.fieldSize ∧
    h.instructionsEnd = addr+form.prefixSize+length ∧ (h.isCieEntry ↔ id=0) ∧ (id≠0 → h.cieAddr=addr+form.prefixSize-id)

section Forms

variable {m : DfxMemory} {addr length id : Word}

theorem readHeader_short (hr : m.read addr 4=some length) (he : length≠0xffffffff) (hf : m.read (addr+4) 4=some id) :
    readHeader m addr=some ⟨decide (id=0), addr+4+4, addr+4+length, addr+4-id, 0x0b⟩ := by
  have hv : m.readInto addr 4 0=(length, addr+4) := m.readInto_zero_of_read hr
  have hid := m.readInto_over_read hr hf
  unfold readHeader
  rw [hv]
  dsimp only
  rw [if_neg he, hid]

/-- The second read moves the pointer over the field before the pointer is used. -/
theorem readHeader_long (hr : m.read addr 4=some 0xffffffff) (hl : m.read (addr+4) 8=some length)
    (hf : m.read (addr+12) 8=some id) :
    readHeader m addr=some ⟨decide (id=0), addr+12+8+8, addr+12+length, addr+12+8-id, 0x0c⟩ := by
  have hb : addr+4+8=addr+12 := BitVec.add_assoc addr 4 8
  have hv : m.readInto addr 4 0=(0xffffffff, addr+4) := m.readInto_zero_of_read hr
  have hid := m.readInto_word_of_read hf length
  unfold readHeader
  rw [hv]
  dsimp only
  rw [if_pos rfl, hl, Option.map_some, hb, hid]

end Forms

/-- A header is read as it is meant exactly in the format of 32 bits. -/
theorem headerLaw_iff (m : DfxMemory) (addr : Word) (form : LengthForm) (length id : Word)
    (h : HeaderAt m addr form length id) : HeaderLaw m addr form length id ↔ form = .short := by
  cases form with
  | short =>
    obtain ⟨hr, he, hf⟩ := h
    refine iff_of_true ⟨_, readHeader_short hr he hf, rfl, rfl, decide_eq_true_iff, fun _ => rfl⟩ rfl
  | long =>
    obtain ⟨hr, hl, hf⟩ := h
    refine iff_of_false ?_ nofun
    rintro ⟨hdr, hh, hp, -⟩
    rw [readHeader_long hr hl hf] at hh
    cases hh
    -- eight bytes too far
    change addr+12+8+8=addr+12+8 at hp
    bv_omega

def shortHeader : DfxMemory := .ofImage 0x1000 [0x10, 0, 0, 0, 0x14, 0, 0, 0]

theorem shortHeader_law : HeaderAt shortHeader 0x1000 .short 0x10 0x14 ∧
    HeaderLaw shortHeader 0x1000 .short 0x10 0x14 := by
  refine (and_iff_left_of_imp fun hat => (headerLaw_iff _ _ _ _ _ hat).mpr rfl).mpr ?_
  exact ⟨by decide, by decide, by decide⟩

/-- The same FDE in the long form: its CIE is looked for eight bytes behind the place where it is. -/
def longHeader : DfxMemory :=
  .ofImage 0x1000 [0xff, 0xff, 0xff, 0xff, 0x20, 0, 0, 0, 0, 0, 0, 0, 0x1c, 0, 0, 0, 0, 0, 0, 0]

theorem longHeader_misread : HeaderAt longHeader 0x1000 .long 0x20 0x1c ∧
    readHeader longHeader 0x1000 = some ⟨false, 0x101c, 0x102c, 0xff8, 0x0c⟩ ∧
      ¬HeaderLaw longHeader 0x1000 .long 0x20 0x1c := by
  have hh : readHeader longHeader 0x1000=some ⟨false, 0x101c, 0x102c, 0xff8, 0x0c⟩ := by decide
  refine ⟨⟨by decide, by decide, by decide⟩, hh, ?_⟩
  rintro ⟨hdr, hr, hp, -⟩
  cases hr
  exact absurd hp (by decide)

end Faultloggerd.Dwarf
