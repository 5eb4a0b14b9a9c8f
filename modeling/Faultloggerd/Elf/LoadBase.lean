import Faultloggerd.Dwarf.Memory
import Mathlib.Data.List.Basic

/-! # Load base and relative pcs: `DfxElf::GetLoadBase` and `DfxElf::GetRelPc`

The load base is computed from the map of the first query and kept.
-/
namespace Faultloggerd.Elf

open Dwarf

structure ProgramHeader where
  type : ℕ
  flags : BitVec 32
  offset : Word
  vaddr : Word
  align : Word

def ptLoad : ℕ := 1

def pfX : BitVec 32 := 1

structure ElfParser where
  loadBias : Word := 0
  firstLoadHeader : Bool := true

def parseProgramHeader (p : ElfParser) (phdr : ProgramHeader) : ElfParser :=
  if phdr.type ≠ ptLoad ∨ phdr.align = 0 ∨ phdr.flags &&& pfX = 0 then p
  else
    {loadBias := if p.firstLoadHeader then phdr.vaddr-phdr.offset else p.loadBias, firstLoadHeader := false}

def parseProgramHeaders (image : List ProgramHeader) : ElfParser := image.foldl parseProgramHeader {}

/-- `static_cast<uint64_t>(-1)`: the base is not known yet. -/
def noBase : Word := -1

structure DfxElf where
  valid : Bool
  elfParse : ElfParser
  loadBias : Word := 0
  loadBase : Word := noBase

def getLoadBias (elf : DfxElf) : DfxElf :=
  if elf.loadBias = 0 ∧ elf.valid then {elf with loadBias := elf.elfParse.loadBias} else elf

def getLoadBase (elf : DfxElf) (mapStart mapOffset : Word) : DfxElf :=
  if elf.loadBase = noBase ∧ elf.valid then
    let elf := getLoadBias elf
    if elf.loadBias.toInt < 0 then elf else {elf with loadBase := mapStart-mapOffset-elf.loadBias}
  else elf

structure Query where
  pc : Word
  mapStart : Word
  mapOffset : Word

def getRelPc (elf : DfxElf) (q : Query) : Word × DfxElf :=
  let elf := getLoadBase elf q.mapStart q.mapOffset
  (q.pc-elf.loadBase, elf)

def queried (elf : DfxElf) (queries : List Query) : DfxElf := queries.foldl (fun elf q => (getRelPc elf q).2) elf

/-- A segment that is loaded and can be executed. -/
def ProgramHeader.ExecLoad (phdr : ProgramHeader) : Prop := phdr.type = ptLoad ∧ phdr.flags &&& pfX ≠ 0

/-- The map of the query is one of an executable segment of the image loaded at `base`. -/
def Query.Mapped (image : List ProgramHeader) (base : Word) (q : Query) : Prop :=
  ∃ phdr ∈ image, phdr.ExecLoad ∧ q.mapStart-q.mapOffset = base+(phdr.vaddr-phdr.offset)

def opened (valid : Bool) (image : List ProgramHeader) : DfxElf := {valid, elfParse := parseProgramHeaders image}

/-- The relative pc of a query does not depend on the queries before it. -/
def OrderFree (valid : Bool) (image : List ProgramHeader) (base : Word) : Prop :=
  ∀ earlier earlier' : List Query, (∀ q∈earlier, q.Mapped image base) → (∀ q∈earlier', q.Mapped image base) →
    ∀ q : Query, q.Mapped image base →
      (getRelPc (queried (opened valid image) earlier) q).1 = (getRelPc (queried (opened valid image) earlier') q).1

section Runs

variable {valid : Bool} {image : List ProgramHeader} {base : Word} {elf : DfxElf}

structure Reached (valid : Bool) (image : List ProgramHeader) (elf : DfxElf) : Prop where
  valid : elf.valid = valid
  elfParse : elf.elfParse = parseProgramHeaders image
  loadBias : elf.loadBias = 0 ∨ elf.loadBias = (parseProgramHeaders image).loadBias

theorem Reached.getLoadBias (h : Reached true image elf) :
    getLoadBias elf={elf with loadBias := (parseProgramHeaders image).loadBias} := by
  unfold Elf.getLoadBias
  split_ifs with hz
  · rw [h.elfParse]
  · obtain hb | hb := h.loadBias
    · exact absurd ⟨hb, h.valid⟩ hz
    · rw [←hb]

def firstBase (valid : Bool) (image : List ProgramHeader) (q : Query) : Word :=
  if valid = false ∨ (parseProgramHeaders image).loadBias.toInt < 0 then noBase
  else q.mapStart-q.mapOffset-(parseProgramHeaders image).loadBias

theorem Reached.getRelPc (h : Reached valid image elf) (q : Query) : Reached valid image (getRelPc elf q).2 ∧
    (getRelPc elf q).2.loadBase=if elf.loadBase=noBase then firstBase valid image q else elf.loadBase := by
  unfold Elf.getRelPc getLoadBase firstBase
  by_cases hb : elf.loadBase=noBase
  · cases valid with
    | false => simp [h.valid, h]
    | true =>
      simp only [hb, h.valid, h.getLoadBias, and_self, if_true]
      by_cases hn : (parseProgramHeaders image).loadBias.toInt<0
      · simp only [hn, if_true, or_true]
        exact ⟨⟨rfl, h.elfParse, .inr rfl⟩, trivial⟩
      · simp only [hn, if_false, Bool.true_eq_false, or_self]
        exact ⟨⟨rfl, h.elfParse, .inr rfl⟩, trivial⟩
  · simp [hb, h]

theorem Reached.queried (h : Reached valid image elf) (queries : List Query) {b : Word}
    (hf : ∀ q∈queries, firstBase valid image q=b) (hb : elf.loadBase=noBase ∨ elf.loadBase=b) :
    Reached valid image (queried elf queries) ∧
    ((queried elf queries).loadBase=noBase ∨ (queried elf queries).loadBase=b) := by
  induction queries generalizing elf with
  | nil => exact ⟨h, hb⟩
  | cons q queries ih =>
    obtain ⟨hn, hl⟩ := h.getRelPc q
    refine ih hn (fun q' hq' => hf q' (List.mem_cons_of_mem _ hq')) ?_
    rw [hl, hf q List.mem_cons_self]
    split_ifs with hm
    · exact .inr rfl
    · exact hb

theorem opened_reached (valid : Bool) (image : List ProgramHeader) : Reached valid image (opened valid image) :=
  ⟨rfl, rfl, .inl rfl⟩

theorem relPc_of_first (h : Reached valid image elf) (q : Query)
    (hb : elf.loadBase=noBase ∨ elf.loadBase=firstBase valid image q) :
    (getRelPc elf q).1=q.pc-firstBase valid image q := by
  have hl := (h.getRelPc q).2
  change q.pc-(getRelPc elf q).2.loadBase=_
  rw [hl]
  split_ifs with hm
  · rfl
  · rw [hb.resolve_left hm]

theorem firstBase_eq_of_orderFree {q q' : Query} (hf : OrderFree valid image base) (hq : q.Mapped image base)
    (hq' : q'.Mapped image base) (hk1 : firstBase valid image q≠noBase) :
    firstBase valid image q=firstBase valid image q' := by
  obtain ⟨hr, hb⟩ := (opened_reached valid image).getRelPc q
  have hk : (getRelPc (opened valid image) q).2.loadBase=firstBase valid image q := hb.trans (if_pos rfl)
  have hb' := (hr.getRelPc q').2
  rw [if_neg (hk ▸ hk1)] at hb'
  have hr1 : q'.pc-(getRelPc (getRelPc (opened valid image) q).2 q').2.loadBase=q'.pc-firstBase valid image q' :=
    (hf [q] [] (by simpa using hq) (by simp) q' hq').trans
      (relPc_of_first (opened_reached valid image) q' (.inl rfl))
  bv_omega

theorem orderFree_iff_firstBase : OrderFree valid image base ↔ ∀ q q' : Query, q.Mapped image base →
    q'.Mapped image base → firstBase valid image q=firstBase valid image q' := by
  constructor
  · intro hf q q' hq hq'
    -- one of two different bases is not the mark for an unknown one
    by_contra hne
    by_cases hk : firstBase valid image q=noBase
    · exact hne (firstBase_eq_of_orderFree hf hq' hq fun hk' => hne (hk.trans hk'.symm)).symm
    · exact hne (firstBase_eq_of_orderFree hf hq hq' hk)
  · intro hs old earlier' he he' q hq
    obtain ⟨hr, hb⟩ := (opened_reached valid image).queried old (fun q' hq' => hs q' q (he q' hq') hq) (.inl rfl)
    obtain ⟨hr', hb'⟩ := (opened_reached valid image).queried earlier' (fun q' hq' => hs q' q (he' q' hq') hq)
      (.inl rfl)
    rw [relPc_of_first hr q hb, relPc_of_first hr' q hb']

end Runs

/-- Where a base is needed, earlier queries do not matter exactly if all executable segments give the same one. -/
theorem orderFree_iff (valid : Bool) (image : List ProgramHeader) (base : Word) : OrderFree valid image base ↔
    valid = false ∨ (parseProgramHeaders image).loadBias.toInt < 0 ∨
      ∀ phdr ∈ image, ∀ phdr' ∈ image, phdr.ExecLoad → phdr'.ExecLoad →
        phdr.vaddr-phdr.offset = phdr'.vaddr-phdr'.offset := by
  rw [orderFree_iff_firstBase, ←or_assoc]
  unfold firstBase
  by_cases hs : valid=false ∨ (parseProgramHeaders image).loadBias.toInt<0
  · simp [hs]
  · simp only [hs, if_false, false_or]
    constructor
    · intro hs1 phdr hm phdr' hm' he he'
      have hb := hs1 ⟨0, base+(phdr.vaddr-phdr.offset), 0⟩ ⟨0, base+(phdr'.vaddr-phdr'.offset), 0⟩
        ⟨phdr, hm, he, by simp⟩ ⟨phdr', hm', he', by simp⟩
      bv_omega
    · rintro he1 q q' ⟨phdr, hm, he, hm1⟩ ⟨phdr', hm', he', hm1'⟩
      rw [hm1, hm1', he1 phdr hm phdr' hm' he he']

def execSegment (offset vaddr : Word) : ProgramHeader :=
  {type := ptLoad, flags := 5, offset, vaddr, align := 0x1000}

theorem oneSegment_orderFree : OrderFree true [execSegment 0x1000 0x2000] 0x70000 :=
  (orderFree_iff _ _ _).mpr (.inr (.inr (by simp)))

/-- The second segment lies one page further in memory than in the file. -/
theorem twoSegments_order : ¬OrderFree true [execSegment 0x1000 0x1000, execSegment 0x2000 0x3000] 0x70000 := by
  intro hf
  have hr := hf [⟨0x71010, 0x71000, 0x1000⟩] []
    (by simp [Query.Mapped, execSegment, ProgramHeader.ExecLoad, pfX]) (by simp) ⟨0x73010, 0x73000, 0x2000⟩
    (by simp [Query.Mapped, execSegment, ProgramHeader.ExecLoad, pfX])
  exact absurd hr (by decide)

end Faultloggerd.Elf
