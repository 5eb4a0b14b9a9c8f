import Faultloggerd.CoreFile.Generator

/-! # The layout of a core file

What a reader of the finished file relies on, said in terms of the headers it finds there: the parts it is led to
do not overlap and lie inside the file, the counts are those of the headers present, the sections repeat the
segments, and the segments hold the target's memory.
-/
namespace Faultloggerd.CoreFile
open List Foundations.ByteStore Dump

/-! ## Reading the file -/

structure Extent where
  start : ℕ
  stop : ℕ

def Extent.Apart (e f : Extent) : Prop := e.stop ≤ f.start ∨ f.stop ≤ e.start

def Place.extent (p : Place) : Extent := ⟨p.offset.toNat, p.offset.toNat+p.size.toNat⟩

def programHeaderAt (m : Bytes) (i : ℕ) : Phdr := Phdr.read m ((tables m).phoff.toNat+phdrSize*i)

def sectionAt (m : Bytes) (i : ℕ) : Place := sectionPlace m ((tables m).shoff.toNat+shdrSize*i)

def headerTables (m : Bytes) : List Extent :=
  [⟨0, ehdrSize⟩, ⟨(tables m).phoff.toNat, (tables m).phoff.toNat+phdrSize*(tables m).phnum.toNat⟩]

def segments (m : Bytes) : List Extent :=
  (List.range (tables m).phnum.toNat).map fun i => (programHeaderAt m i).place.extent

def sectionTables (m : Bytes) : List Extent :=
  [(sectionAt m ((tables m).shnum.toNat-1)).extent, (sectionAt m (tables m).shstrndx.toNat).extent,
    ⟨(tables m).shoff.toNat, (tables m).shoff.toNat+shdrSize*(tables m).shnum.toNat⟩]

def extents (m : Bytes) : List Extent := headerTables m++segments m++sectionTables m

/-- The parts of the file lie apart and inside it, and its headers and sections place the notes and every dumped
region, with its contents. -/
structure WellLaidOut (vm : ProcessVm) (regions : List DumpMemoryRegions) (m : Bytes) (size : ℕ) : Prop where
  apart : (extents m).Pairwise Extent.Apart
  inside : ∀ e ∈ extents m, e.stop ≤ size
  /-- one header for the notes and one for each region; the notes follow the last header -/
  phnum : (tables m).phnum.toNat = regions.length+1
  note : (programHeaderAt m 0).pType = ptNote ∧
    (programHeaderAt m 0).pOffset.toNat = (tables m).phoff.toNat+phdrSize*(tables m).phnum.toNat
  load : ∀ i, ∀ hi : i < regions.length, (programHeaderAt m (i+1)).pType = ptLoad ∧
    (programHeaderAt m (i+1)).pVaddr = regions[i].startHex ∧
    (programHeaderAt m (i+1)).pFilesz = regions[i].memorySizeHex
  content : ∀ i < regions.length, ∀ j < (programHeaderAt m (i+1)).pFilesz.toNat,
    m ((programHeaderAt m (i+1)).pOffset.toNat+j) = vm.memory ((programHeaderAt m (i+1)).pVaddr+BitVec.ofNat 64 j)
  /-- the section headers fill the file to its end -/
  shnum : (tables m).shoff.toNat+shdrSize*(tables m).shnum.toNat = size
  sections : ∀ i < (tables m).phnum.toNat, sectionAt m (i+1) = (programHeaderAt m i).place

/-! ## Extents in the order of the file -/

def Extent.Before (e f : Extent) : Prop := e.stop ≤ f.start

def consecutive : ℕ → List ℕ → List Extent
  | _, [] => []
  | start, size :: sizes => ⟨start, start+size⟩ :: consecutive (start+size) sizes

variable (start : ℕ) (sizes : List ℕ)

theorem consecutive_append (sizes' : List ℕ) : consecutive start (sizes++sizes') =
      consecutive start sizes++consecutive (start+sizes.sum) sizes' := by
  induction sizes generalizing start with
  | nil => rfl
  | cons size sizes ih => simp [consecutive, ih, Nat.add_assoc]

theorem within_of_mem_consecutive {start : ℕ} {sizes : List ℕ} :
    ∀ e∈consecutive start sizes, start≤e.start ∧ e.stop≤ start+sizes.sum := by
  induction sizes generalizing start with
  | nil => simp [consecutive]
  | cons size sizes ih =>
    rw [consecutive, forall_mem_cons, sum_cons]
    refine ⟨⟨le_rfl, ?_⟩, fun e he => ?_⟩
    · grind
    · have := ih e he
      omega

theorem consecutive_before : (consecutive start sizes).Pairwise Extent.Before := by
  induction sizes generalizing start with
  | nil => exact .nil
  | cons size sizes ih => exact .cons (fun e he => (within_of_mem_consecutive e he).1) (ih _)

@[simp] theorem length_consecutive : (consecutive start sizes).length=sizes.length := by
  induction sizes generalizing start with
  | nil => rfl
  | cons size sizes ih => simp [consecutive, ih]

theorem getElem_consecutive (i : ℕ) (hi : i<(consecutive start sizes).length) :
    (consecutive start sizes)[i]=⟨start+(sizes.take i).sum,
      start+(sizes.take i).sum+sizes.get ⟨i, by simpa using hi⟩⟩ := by
  induction sizes generalizing start i with
  | nil => simp [consecutive] at hi
  | cons size sizes ih =>
    cases i with
    | zero => simp [consecutive]
    | succ i =>
      simp only [consecutive, getElem_cons_succ]
      rw [ih]
      simp [Nat.add_assoc]

section Count

variable {d : Dump}

section

variable (hregions : (includedRegions d.maps).length<65532)
include hregions

theorem phnum_eq : d.phnum.toNat=(includedRegions d.maps).length+1 := by
  rw [phnum, d.headerCount_eq]
  exact Nat.mod_eq_of_lt (by omega)

theorem shnum_eq : (d.phnum+3).toNat=(includedRegions d.maps).length+4 := by
  rw [BitVec.toNat_add, phnum_eq hregions]
  exact Nat.mod_eq_of_lt (by
    change (includedRegions d.maps).length+1+3<65536
    omega)

theorem dumpedRegions_eq : d.dumpedRegions=includedRegions d.maps := by
  rw [dumpedRegions, phnum_eq hregions, Nat.add_sub_cancel, take_length]

theorem sectionCount_eq : d.sectionCount=(includedRegions d.maps).length+4 := by
  rw [sectionCount, shnum_eq hregions, Nat.add_sub_cancel]

end

end Count

/-! ## The generated file -/

section File

variable {d : Dump} {size : ℕ} {b : Buffer}

def Dump.partSizes (d : Dump) : List ℕ :=
  [ehdrSize, phdrSize*d.headerCount] ++
    (d.noteSize::(includedRegions d.maps).map fun region => region.memorySizeHex.toNat) ++
    [(buildInfo d.version).length, strTable.length]

structure Complete (d : Dump) (size : ℕ) (b : Buffer) : Prop where
  generated : Generated d size b
  room : b.ranOut = false
  fits : d.coreSize < 2^64
  regions : (includedRegions d.maps).length < 65532

namespace Complete

section

variable (h : Complete d size b)
include h

theorem parts_le : d.noteStart<2^64 ∧ d.noteSize<2^64 ∧
    d.versionStart<2^64 ∧ strTableStart d.version d.versionStart<2^64 ∧
    (buildInfo d.version).length<2^64 ∧ d.sectionTableStart<2^64 := by
  have hf := h.fits
  grind

theorem tables : (tables b.bytes).phoff.toNat=ehdrSize ∧
    (tables b.bytes).shoff.toNat=d.sectionTableStart ∧ (tables b.bytes).phnum.toNat=d.headerCount ∧
    (tables b.bytes).shnum.toNat=d.sectionCount ∧ (tables b.bytes).shstrndx.toNat=d.sectionCount-2 := by
  have hp1 := h.parts_le
  have hp := phnum_eq h.regions
  have hc := d.headerCount_eq
  rw [h.generated.tables h.room]
  refine ⟨rfl, ?_, hp.trans hc.symm, ?_, ?_⟩
  · rw [BitVec.toNat_ofNat, Nat.mod_eq_of_lt (by omega)]
  · rw [sectionCount_eq h.regions]
    exact shnum_eq h.regions
  · rw [sectionCount_eq h.regions, BitVec.toNat_add]
    refine (Nat.mod_eq_of_lt ?_).trans ?_
    · have := h.regions
      grind
    · grind

theorem programHeaderAt_eq (i : ℕ) : programHeaderAt b.bytes i=Phdr.read b.bytes (phdrPos i) := by
  rw [programHeaderAt, h.tables.1]
  rfl

theorem sectionAt_eq (i : ℕ) : sectionAt b.bytes i=sectionPlace b.bytes (d.sectionTableStart+shdrSize*i) := by
  rw [sectionAt, h.tables.2.1]

theorem note_eq : (programHeaderAt b.bytes 0).place.extent=⟨d.noteStart, d.noteStart+d.noteSize⟩ := by
  have hp := h.parts_le
  rw [h.programHeaderAt_eq, h.generated.note h.room]
  simp only [Phdr.place, Place.extent, BitVec.toNat_ofNat]
  rw [Nat.mod_eq_of_lt (by omega), Nat.mod_eq_of_lt (by omega)]

theorem load_eq (i : ℕ) (hi : i<(includedRegions d.maps).length) :
    programHeaderAt b.bytes (i+1)={ ptLoadHeaderFill (includedRegions d.maps)[i] with
        pOffset := BitVec.ofNat 64 (d.loadStart+totalSize ((includedRegions d.maps).take i))} := by
  have hd := dumpedRegions_eq h.regions
  have hl := h.generated.load h.room i (by rw [hd]; exact hi)
  rw [h.programHeaderAt_eq, hl]
  simp [loadHeader, hd]

theorem load_offset (i : ℕ) (hi : i<(includedRegions d.maps).length) :
    (programHeaderAt b.bytes (i+1)).pOffset.toNat=d.loadStart+totalSize ((includedRegions d.maps).take i) := by
  have hp := h.parts_le
  have ht := totalSize_take_add_le (includedRegions d.maps) i hi
  have hd := dumpedRegions_eq h.regions
  rw [h.load_eq i hi, BitVec.toNat_ofNat]
  grind

theorem segments_eq : segments b.bytes=consecutive d.noteStart
    (d.noteSize::(includedRegions d.maps).map fun region => region.memorySizeHex.toNat) := by
  apply ext_getElem
  · simp [segments, h.tables.2.2.1, d.headerCount_eq]
  · intro i hi hi'
    rw [getElem_consecutive]
    simp only [segments, getElem_map, getElem_range]
    cases i with
    | zero => simpa using h.note_eq
    | succ i =>
      have hl : i<(includedRegions d.maps).length := by simpa using hi'
      have hf : (programHeaderAt b.bytes (i+1)).pFilesz=(includedRegions d.maps)[i].memorySizeHex := by
        rw [h.load_eq i hl]
        rfl
      simp only [Phdr.place, Place.extent, h.load_offset i hl, hf]
      simp [loadStart, totalSize, Nat.add_assoc]

theorem sectionTables_eq : sectionTables b.bytes =
    consecutive d.versionStart [(buildInfo d.version).length, strTable.length] ++
      [⟨d.sectionTableStart, d.coreSize⟩] := by
  have hp := h.parts_le
  obtain ⟨-, hs2, -, hs1, hs⟩ := h.tables
  have hn : strTable.length % 2^64=strTable.length := by decide
  simp only [sectionTables, hs2, hs1, hs, h.sectionAt_eq, h.generated.version h.room,
    h.generated.strTable h.room, Place.extent, BitVec.toNat_ofNat]
  rw [Nat.mod_eq_of_lt hp.2.2.1, Nat.mod_eq_of_lt hp.2.2.2.1, Nat.mod_eq_of_lt hp.2.2.2.2.1]
  rfl

theorem extents_eq : extents b.bytes=consecutive 0 d.partSizes++[⟨d.sectionTableStart, d.coreSize⟩] := by
  have hn : d.noteStart=0+[ehdrSize, phdrSize*d.headerCount].sum := by
    simp [noteStart, phdrPos]
  have hv : d.versionStart=0+([ehdrSize, phdrSize*d.headerCount] ++
      (d.noteSize::(includedRegions d.maps).map fun region => region.memorySizeHex.toNat)).sum := by
    simp [versionStart, loadStart, noteStart, phdrPos, dumpedRegions_eq h.regions, totalSize, Nat.add_assoc]
  have hh : headerTables b.bytes=consecutive 0 [ehdrSize, phdrSize*d.headerCount] := by
    simp [headerTables, h.tables, consecutive]
  rw [extents, hh, h.segments_eq, h.sectionTables_eq, partSizes, consecutive_append,
    consecutive_append, ←hn, ←hv, append_assoc, append_assoc, append_assoc]

theorem sum_partSizes : d.partSizes.sum=stringsEnd d.version d.versionStart := by
  simp [partSizes, stringsEnd, strTableStart, versionStart, loadStart, noteStart, phdrPos,
    dumpedRegions_eq h.regions, totalSize, Nat.add_assoc]

theorem stop_le : ∀ e∈consecutive 0 d.partSizes, e.stop≤d.sectionTableStart := by
  intro e he
  have hs1 := h.sum_partSizes
  have hs := (within_of_mem_consecutive e he).2
  grind

theorem apart : (extents b.bytes).Pairwise Extent.Apart := by
  have hb : (consecutive 0 d.partSizes++[Extent.mk d.sectionTableStart d.coreSize]).Pairwise
      Extent.Before := by
    rw [pairwise_append]
    refine ⟨consecutive_before _ _, pairwise_singleton _ _, fun e he f hf => ?_⟩
    rw [mem_singleton.mp hf]
    exact h.stop_le e he
  rw [h.extents_eq]
  exact hb.imp fun hef => .inl hef

theorem inside : ∀ e∈extents b.bytes, e.stop≤b.current := by
  rw [h.extents_eq, h.generated.current h.room]
  intro e he
  rcases mem_append.mp he with he | he
  · exact (h.stop_le e he).trans (Nat.le_add_right _ _)
  · rw [mem_singleton.mp he]

theorem note : (programHeaderAt b.bytes 0).pType=ptNote ∧ (programHeaderAt b.bytes 0).pOffset.toNat =
      (CoreFile.tables b.bytes).phoff.toNat+phdrSize*(CoreFile.tables b.bytes).phnum.toNat := by
  have ho := h.note_eq
  simp only [Phdr.place, Place.extent, Extent.mk.injEq] at ho
  obtain ⟨hp1, -, hp, -⟩ := h.tables
  refine ⟨?_, by rw [ho.1, hp1, hp]; rfl⟩
  rw [h.programHeaderAt_eq, h.generated.note h.room]
  rfl

theorem load (i : ℕ) (hi : i<(includedRegions d.maps).length) : (programHeaderAt b.bytes (i+1)).pType=ptLoad ∧
      (programHeaderAt b.bytes (i+1)).pVaddr=(includedRegions d.maps)[i].startHex ∧
      (programHeaderAt b.bytes (i+1)).pFilesz=(includedRegions d.maps)[i].memorySizeHex := by
  rw [h.load_eq i hi]
  exact ⟨rfl, rfl, rfl⟩

theorem content (hvm : d.vm.Delivers d.Dumped) (i : ℕ)
    (hi : i<(includedRegions d.maps).length) (j : ℕ) (hj : j<(programHeaderAt b.bytes (i+1)).pFilesz.toNat) :
    b.bytes ((programHeaderAt b.bytes (i+1)).pOffset.toNat+j) =
      d.vm.memory ((programHeaderAt b.bytes (i+1)).pVaddr+BitVec.ofNat 64 j) := by
  have hd := dumpedRegions_eq h.regions
  obtain ⟨-, ha, hf⟩ := h.load i hi
  have hc := h.generated.content h.room hvm i (by rw [hd]; exact hi) j (by
    simp only [hd, ←hf]
    exact hj)
  simp only [hd] at hc
  rw [h.load_offset i hi, ha, hc]

theorem sections (i : ℕ) (hi : i<(CoreFile.tables b.bytes).phnum.toNat) :
    sectionAt b.bytes (i+1)=(programHeaderAt b.bytes i).place := by
  rw [h.tables.2.2.1] at hi
  rw [h.sectionAt_eq, h.programHeaderAt_eq, h.generated.places h.room i (by
    rw [sectionCount_eq h.regions]
    have := d.headerCount_eq
    omega)]

theorem wellLaidOut (hvm : d.vm.Delivers d.Dumped) : WellLaidOut d.vm (includedRegions d.maps) b.bytes b.current where
  apart := h.apart
  inside := h.inside
  phnum := h.tables.2.2.1.trans d.headerCount_eq
  note := h.note
  load := h.load
  content := h.content hvm
  shnum := by
    rw [h.tables.2.1, h.tables.2.2.2.1, h.generated.current h.room]
    rfl
  sections := h.sections

end

end Complete

end File

/-! ## The layout theorem -/

theorem phdrPos_one_le_coreSize (d : Dump) : phdrPos 1+16≤d.coreSize := by
  simp only [coreSize, sectionCount, phdrPos, phdrSize, ehdrSize, shdrSize]
  omega

theorem totalSize_dumpedRegions_le (d : Dump) : totalSize d.dumpedRegions≤d.coreSize := by
  grind

theorem generated_of_coreSize_le {d : Dump} (bytes : Bytes) {cap : BitVec 64}
    (hc : d.coreSize≤ cap.toNat) : Generated d cap.toNat (d.generate bytes cap) :=
  generated d bytes cap ((phdrPos_one_le_coreSize d).trans hc)
    (((totalSize_dumpedRegions_le d).trans hc).trans_lt cap.isLt)

/-- With room for every byte the writers emit, and fewer than 65532 dumped regions, the file is well laid out,
whatever the notes, the number of threads, their schedule and the old contents of the mapping. -/
theorem core_file_layout (d : Dump) (bytes : Bytes) (capacity : BitVec 64)
    (hregions : (includedRegions d.maps).length<65532) (hcapacity : d.coreSize≤ capacity.toNat)
    (hvm : d.vm.Delivers d.Dumped) :
    let file := d.generate bytes capacity
    file.ranOut=false ∧ file.current=d.coreSize ∧
      WellLaidOut d.vm (includedRegions d.maps) file.bytes file.current := by
  intro file
  have hg := generated_of_coreSize_le bytes hcapacity
  have hr := hg.room.mpr hcapacity
  have hc : Complete d capacity.toNat file := ⟨hg, hr, hcapacity.trans_lt capacity.isLt, hregions⟩
  exact ⟨hr, hg.current hr, hc.wellLaidOut hvm⟩

theorem neighbours_layout :
    let d := sampleDump [anonymousRegion 0x1000 16, anonymousRegion 0x1010 32] 1
    let file := d.generate (fun _ => 0) 4096
    file.ranOut=false ∧ file.current=d.coreSize ∧ WellLaidOut d.vm (includedRegions d.maps) file.bytes file.current :=
  core_file_layout (sampleDump [anonymousRegion 0x1000 16, anonymousRegion 0x1010 32] 1) (fun _ => 0) 4096
    (by decide) (by decide +kernel) (sampleDump_delivers _ _ _)

/-! ## One region more -/

/-- With exactly 65532 dumped regions the count of the sections wraps to zero: only the four special headers are
written, and the file header announces none. -/
theorem sections_wrap (d : Dump) (bytes : Bytes) (cap : BitVec 64)
    (hregions : (includedRegions d.maps).length=65532) (hc : d.coreSize≤ cap.toNat) : let file := d.generate bytes cap
    file.ranOut=false ∧ (tables file.bytes).shnum=0 ∧ (tables file.bytes).shoff.toNat+shdrSize*4=file.current := by
  intro file
  have hg := generated_of_coreSize_le bytes hc
  have hr := hg.room.mpr hc
  have hp : d.phnum=65533 := by
    rw [phnum, d.headerCount_eq, hregions]
    rfl
  have hc1 : d.sectionCount=4 := by
    rw [sectionCount, hp]
    rfl
  have hs : d.sectionTableStart<2^64 := by
    have : d.sectionTableStart≤d.coreSize := Nat.le_add_right _ _
    omega
  rw [hg.tables hr, hg.current hr, coreSize, hc1, hp]
  refine ⟨hr, rfl, ?_⟩
  rw [BitVec.toNat_ofNat, Nat.mod_eq_of_lt hs]

@[irreducible] def crowdedMaps : List DumpMemoryRegions :=
  (List.range 65532).map fun i => anonymousRegion (BitVec.ofNat 64 (0x10000+0x2000*i)) 0x1000

theorem mem_crowdedMaps {region : DumpMemoryRegions} (h : region∈crowdedMaps) :
    region.shouldIncludeRegion=true ∧ region.isReadableFile=false ∧ region.memorySizeHex=0x1000 := by
  unfold crowdedMaps at h
  obtain ⟨i, -, rfl⟩ := mem_map.mp h
  exact ⟨rfl, rfl, rfl⟩

theorem length_crowdedMaps : crowdedMaps.length=65532 := by
  unfold crowdedMaps
  rw [length_map, length_range]

theorem includedRegions_crowdedMaps : includedRegions crowdedMaps=crowdedMaps :=
  filter_eq_self.mpr fun _ h => (mem_crowdedMaps h).1

theorem totalSize_crowdedMaps : totalSize crowdedMaps=65532*4096 := by
  have hs : crowdedMaps.map (fun region => region.memorySizeHex.toNat)=List.replicate 65532 4096 := by
    rw [eq_replicate_iff, length_map, length_crowdedMaps]
    refine ⟨rfl, fun size hs1 => ?_⟩
    obtain ⟨region, hr, rfl⟩ := mem_map.mp hs1
    rw [(mem_crowdedMaps hr).2.2]
    rfl
  rw [totalSize, hs, sum_replicate_nat]

theorem noteSize_crowdedMaps : (sampleDump crowdedMaps 1).noteSize=1384 :=
  noteSize_sampleDump 1 (filter_eq_nil_iff.mpr fun _ h => by simp [(mem_crowdedMaps h).2.1])

def crowdedCapacity : BitVec 64 := 0x100000000

theorem coreSize_crowdedMaps : (sampleDump crowdedMaps 1).coreSize≤ crowdedCapacity.toNat := by
  have hc : crowdedCapacity.toNat=4294967296 := rfl
  have hm : (sampleDump crowdedMaps 1).maps=crowdedMaps := rfl
  have hh : (sampleDump crowdedMaps 1).headerCount=65533 := by
    rw [headerCount_eq, hm, includedRegions_crowdedMaps, length_crowdedMaps]
  have hp1 : (sampleDump crowdedMaps 1).phnum=65533 := by
    rw [phnum, hh]
    rfl
  have hc1 : (sampleDump crowdedMaps 1).sectionCount=4 := by
    rw [sectionCount, hp1]
    rfl
  have hl : (65533 : BitVec 16).toNat-1=crowdedMaps.length := length_crowdedMaps.symm
  have hd : totalSize (sampleDump crowdedMaps 1).dumpedRegions=65532*4096 := by
    rw [dumpedRegions, hp1, hm, includedRegions_crowdedMaps, hl, take_length, totalSize_crowdedMaps]
  have hs : (buildInfo (sampleDump crowdedMaps 1).version).length+strTable.length=61 := rfl
  have hp := paddingOf_lt (stringsEnd (sampleDump crowdedMaps 1).version
    (sampleDump crowdedMaps 1).versionStart) (show 0<alignSize by decide)
  rw [coreSize, hc1, sectionTableStart, sectionsStart]
  generalize he : stringsEnd _ _=strings at hp ⊢
  rw [stringsEnd, strTableStart, Nat.add_assoc, versionStart, loadStart, noteSize_crowdedMaps, noteStart] at he
  generalize paddingOf alignSize strings=padding at hp ⊢
  rw [alignSize] at hp
  grind

theorem not_wellLaidOut_of_unannounced {vm : ProcessVm} {regions : List DumpMemoryRegions} {m : Bytes} {size : ℕ}
    (hs : (tables m).shnum=0) (hs1 : (tables m).shoff.toNat+shdrSize*4=size) : ¬WellLaidOut vm regions m size := by
  intro hl
  have hw := hl.shnum
  grind

theorem crowded_layout_fails : (sampleDump crowdedMaps 1).maps.length < 65533 ∧
      (sampleDump crowdedMaps 1).coreSize ≤ crowdedCapacity.toNat ∧
      (sampleDump crowdedMaps 1).vm.Delivers (sampleDump crowdedMaps 1).Dumped ∧
      ¬WellLaidOut (sampleDump crowdedMaps 1).vm (includedRegions crowdedMaps)
        ((sampleDump crowdedMaps 1).generate (fun _ => 0) crowdedCapacity).bytes
        ((sampleDump crowdedMaps 1).generate (fun _ => 0) crowdedCapacity).current := by
  have hm : (sampleDump crowdedMaps 1).maps=crowdedMaps := rfl
  have hregions : (includedRegions (sampleDump crowdedMaps 1).maps).length=65532 := by
    rw [hm, includedRegions_crowdedMaps, length_crowdedMaps]
  have hw := sections_wrap (sampleDump crowdedMaps 1) (fun _ => 0) crowdedCapacity hregions
    coreSize_crowdedMaps
  refine ⟨?_, coreSize_crowdedMaps, sampleDump_delivers _ _ _, not_wellLaidOut_of_unannounced hw.2.1 hw.2.2⟩
  rw [hm, length_crowdedMaps]
  omega

end Faultloggerd.CoreFile
