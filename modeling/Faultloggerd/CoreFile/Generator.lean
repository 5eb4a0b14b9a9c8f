import Faultloggerd.CoreFile.LoadThreads
import Faultloggerd.CoreFile.SectionWriter

/-! # Generating a core file

The writers in the order `CoredumpGenerator` calls them: the headers and the notes while the process is stopped,
the segments and the sections once its memory can be read. Each stage is summed up by the state it leaves, and
the whole by the size of the file.
-/
namespace Faultloggerd.CoreFile
open List Phdr Buffer Ehdr Nat Foundations.ByteStore

structure Dump where
  maps : List DumpMemoryRegions
  cfg : CoredumpConfig
  target : TargetNotes
  vm : ProcessVm
  version : DisplayVersion
  schedule : List ℕ

namespace Dump

def triggerCoredump (d : Dump) (b : Buffer) : BitVec 16 × Buffer :=
  let b := (Buffer.advance ehdrSize b).2
  let r := programSegmentHeaderWrite d.maps b
  let ePhnum := r.1.getD 0
  let b := (elfHeaderWrite ePhnum r.2).2
  (ePhnum, (noteSegmentWrite d.cfg d.target d.maps b).2)

def dumpMemoryForPid (d : Dump) (ePhnum : BitVec 16) (b : Buffer) : Buffer :=
  let b := (loadSegmentWrite d.vm d.cfg.dumperThreadCount d.schedule ePhnum b).2
  (sectionHeaderTableWrite d.version b).2

/-- The file in a mapping of the given capacity, which holds `bytes` at first. The file is cut to the final
position. -/
def generate (d : Dump) (bytes : Bytes) (capacity : BitVec 64) : Buffer :=
  let r := d.triggerCoredump (Buffer.fresh bytes capacity.toNat)
  d.dumpMemoryForPid r.1 r.2

/-! ## Places in the file -/

def headerCount (d : Dump) : ℕ := (programHeaders d.maps).length

def phnum (d : Dump) : BitVec 16 := BitVec.ofNat 16 d.headerCount

def noteStart (d : Dump) : ℕ := phdrPos d.headerCount

def noteSize (d : Dump) : ℕ := noteSegmentSize d.cfg d.target d.maps

def loadStart (d : Dump) : ℕ := d.noteStart+d.noteSize

def dumpedRegions (d : Dump) : List DumpMemoryRegions := (includedRegions d.maps).take (d.phnum.toNat-1)

def versionStart (d : Dump) : ℕ := d.loadStart+totalSize d.dumpedRegions

def sectionTableStart (d : Dump) : ℕ := sectionsStart d.version d.versionStart

def sectionCount (d : Dump) : ℕ := (d.phnum+3).toNat-4+4

def coreSize (d : Dump) : ℕ := d.sectionTableStart+shdrSize*d.sectionCount

attribute [grind unfold] noteStart loadStart dumpedRegions versionStart sectionTableStart sectionCount coreSize

end Dump

/-! ## The note segment -/

structure NotesWritten (d : Dump) (b b' : Buffer) : Prop where
  capacity : b'.capacity = b.capacity
  room : b'.ranOut = false ↔ b.ranOut = false ∧ b.current+d.noteSize ≤ b.capacity
  current : b'.ranOut = false → b'.current = b.current+d.noteSize
  header : b'.ranOut = false → Phdr.read b'.bytes (phdrPos 0) =
    { Phdr.read b.bytes (phdrPos 0) with
      pOffset := BitVec.ofNat 64 b.current
      pFilesz := BitVec.ofNat 64 d.noteSize}
  before : b'.ranOut = false → ∀ a < b.current, a < phdrPos 0 ∨ phdrPos 1 ≤ a → b'.bytes a = b.bytes a

theorem notesWritten (d : Dump) (b : Buffer) (hb : b.ranOut=false → phdrPos 1≤b.current) :
    NotesWritten d b (noteSegmentWrite d.cfg d.target d.maps b).2 := by
  have hn := emits_notes d.cfg d.target d.maps b
  simp only [noteSegmentWrite]
  set noted := Writer.each ((processWriters d.cfg.process).map (ProcessNote.write d.cfg d.target d.maps)) b
  set sized := noted.poke (ehdrSize+pFileszAt) (toLE 8 (noted.current-b.current)) with hs1
  have hp : noted.ranOut=false → phdrPos 1≤noted.current := fun h => by
    rw [hn.current h]
    exact (hb (hn.before h)).trans (le_add_right _ _)
  have hf : Emits (phdrPos 0) 0 noted sized := by
    refine emits_poke fun h => ?_
    grind
  have hs : Emits (phdrPos 0) 0 sized (sized.poke (ehdrSize+pOffsetAt) (toLE 8 b.current)) := by
    refine emits_poke fun h => ?_
    have : phdrPos 1≤ sized.current := hp (hf.before h)
    grind
  have ha1 := (hn.mono_of_room fun h => (by
    have := hb h
    simp only [phdrPos] at this ⊢
    omega : phdrPos 0≤b.current)).trans (hf.trans hs)
  refine ⟨ha1.capacity, ha1.room, ha1.current, fun h => ?_, fun h a ha ho => ?_⟩
  · have hroom := hf.before (hs.before h)
    have hr : read noted.bytes (phdrPos 0)=read b.bytes (phdrPos 0) := by
      refine read_congr fun a _ hhi => hn.frame hroom a (.inl ?_)
      have := hb (hn.before hroom)
      grind
    have hp0 : phdrPos 0=ehdrSize := rfl
    rw [hp0] at hr ⊢
    rw [bytes_poke, toLE_xword b.current, read_store_pOffset, bytes_poke, toLE_xword,
      read_store_pFilesz, hr, hn.current hroom, Nat.add_sub_cancel_left]
    rfl
  · have hroom := hf.before (hs.before h)
    simp only [phdrPos, phdrSize, ehdrSize] at ho
    rw [bytes_poke, store_of_outside (by
        simp only [length_toLE, ehdrSize, pOffsetAt]
        omega), bytes_poke, store_of_outside (by
        simp only [length_toLE, ehdrSize, pFileszAt]
        omega), hn.frame hroom a (.inl ha)]

/-! ## The stopped process -/

structure Triggered (d : Dump) (size : ℕ) (r : BitVec 16×Buffer) : Prop where
  capacity : r.2.capacity = size
  room : r.2.ranOut = false ↔ d.loadStart ≤ size
  phnum : r.2.ranOut = false → r.1 = d.phnum
  current : r.2.ranOut = false → r.2.current = d.loadStart
  tables : r.2.ranOut = false → tables r.2.bytes =
    ⟨BitVec.ofNat 64 ehdrSize, BitVec.ofNat 64 shdrSize, d.phnum, d.phnum+3, d.phnum+1⟩
  note : r.2.ranOut = false → Phdr.read r.2.bytes (phdrPos 0) =
    {ptNoteHeaderFill with
      pOffset := BitVec.ofNat 64 d.noteStart
      pFilesz := BitVec.ofNat 64 d.noteSize}
  load : r.2.ranOut = false → ∀ i, ∀ hi : i < (includedRegions d.maps).length,
    (Phdr.read r.2.bytes (phdrPos (i+1))).unplaced = (ptLoadHeaderFill (includedRegions d.maps)[i]).unplaced

theorem with_pOffset_congr {p q : Phdr} (h : p.unplaced=q.unplaced) (x : BitVec 64) :
    {p with pOffset := x}={q with pOffset := x} := congrArg (fun u => {u with pOffset := x}) h

theorem Dump.headerCount_pos (d : Dump) : 1≤d.headerCount := by
  simp [Dump.headerCount, programHeaders]

theorem triggered (d : Dump) (bytes : Bytes) (cap : ℕ) (hc : phdrPos 1+16≤ cap) :
    Triggered d cap (d.triggerCoredump (fresh bytes cap)) := by
  have ha1 : Emits 0 ehdrSize (fresh bytes cap)
      (advance ehdrSize (fresh bytes cap)).2 := emits_advance _
  simp only [Dump.triggerCoredump]
  set begun := (advance ehdrSize (fresh bytes cap)).2
  have hb1 : begun.ranOut=false := ha1.room.mpr ⟨rfl, by
    simp only [phdrPos, ehdrSize] at hc
    simp only [fresh, ehdrSize]
    omega⟩
  have hc1 : begun.current=ehdrSize := (ha1.current hb1).trans (zero_add _)
  have hb : begun.capacity=cap := ha1.capacity
  have hh1 := headersWritten d.maps begun hc1 (by rw [hb]; exact hc)
  set r := programSegmentHeaderWrite d.maps begun
  have hr : r.2.capacity=cap := hh1.capacity.trans hb
  obtain ⟨hb2, hh, hh4, hh3⟩ := elfHeaderWrite_spec (r.1.getD 0) r.2 (by
    simp only [phdrPos] at hc ⊢
    omega)
  set he := (elfHeaderWrite (r.1.getD 0) r.2).2
  replace hh : he.ranOut=false → he.current=d.noteStart := fun h =>
    hh.trans (hh1.current (hh3.symm.trans h))
  have hp : phdrPos 1≤phdrPos d.headerCount := by
    have := d.headerCount_pos
    grind
  have hn := notesWritten d he fun h => (hh h).symm ▸ hp
  set noted := (noteSegmentWrite d.cfg d.target d.maps he).2
  have hh2 : noted.ranOut=false → he.ranOut=false := fun h => (hn.room.mp h).1
  have hroom : noted.ranOut=false → r.2.ranOut=false := fun h => hh3 ▸ hh2 h
  have hk : ∀ i, read he.bytes (phdrPos i)=read r.2.bytes (phdrPos i) := by
    intro i
    refine read_congr fun a ha _ => ?_
    rw [hb2, store_of_outside (.inr (by
      rw [Ehdr.length_bytes]
      simp only [phdrPos] at ha ⊢
      omega))]
  refine ⟨hn.capacity.trans (hh4.trans hr), ?_, fun h => ?_, fun h => ?_, fun h => ?_, fun h => ?_, fun h i hi => ?_⟩
  · rw [hn.room]
    have hh5 := hh1.room
    rw [hb] at hh5
    constructor
    · rintro ⟨h, hf⟩
      rw [hh h, hh4, hr] at hf
      exact hf
    · intro hf
      have h : r.2.ranOut=false := hh5.mpr ⟨hb1, (le_add_right _ _).trans hf⟩
      rw [←hh3] at h
      exact ⟨h, by rw [hh h, hh4, hr]; exact hf⟩
  · simp only [hh1.count (hroom h)]
    rfl
  · rw [hn.current h, hh (hh2 h)]
    rfl
  · have hs1 : tables noted.bytes=tables he.bytes := by
      refine Ehdr.tables_congr fun a ha => hn.before h a ?_ (.inl ha)
      rw [hh (hh2 h)]
      exact lt_of_lt_of_le ha (le_add_right _ _)
    rw [hs1, hb2, Ehdr.tables_store, hh1.count (hroom h)]
    rfl
  · have hs := hh1.stand (hroom h) 0 (by simp [programHeaders])
    have hn1 := with_pOffset_congr hs (BitVec.ofNat 64 d.noteStart)
    rw [hn.header h, hh (hh2 h), hk]
    exact congrArg (fun p => {p with pFilesz := BitVec.ofNat 64 d.noteSize}) hn1
  · have hs := hh1.stand (hroom h) (i+1) (by simpa [programHeaders] using hi)
    have hr1 : read noted.bytes (phdrPos (i+1))=read he.bytes (phdrPos (i+1)) := by
      refine read_congr fun a hlo hhi => hn.before h a ?_ (.inr ?_)
      · have hl : (includedRegions d.maps).length+1=d.headerCount := by
          simp [Dump.headerCount, programHeaders]
        grind
      · grind
    rw [hr1, hk, hs]
    simp [programHeaders]

/-! ## The segments the load writer finds -/

def Dump.loadHeader (d : Dump) (i : ℕ) (region : DumpMemoryRegions) : Phdr :=
  { ptLoadHeaderFill region with
    pOffset := BitVec.ofNat 64 (d.loadStart+totalSize (d.dumpedRegions.take i))}

theorem Dump.phnum_le (d : Dump) : d.phnum.toNat≤d.headerCount := (BitVec.toNat_ofNat _ _).trans_le (mod_le _ _)

theorem Dump.headerCount_eq (d : Dump) : d.headerCount=(includedRegions d.maps).length+1 := by
  simp [Dump.headerCount, programHeaders]

theorem Dump.length_dumpedRegions (d : Dump) : d.dumpedRegions.length=d.phnum.toNat-1 := by
  have h1 := d.phnum_le
  have h2 := d.headerCount_eq
  grind

section Segments

variable {d : Dump} {m : Bytes}

theorem length_loadHeaders (ePhnum : BitVec 16) : (loadHeaders ePhnum m).length=ePhnum.toNat-1 := by
  simp [loadHeaders]

theorem loadHeaders_unplaced (hl : ∀ i, ∀ hi : i<(includedRegions d.maps).length,
      (read m (phdrPos (i+1))).unplaced=(ptLoadHeaderFill (includedRegions d.maps)[i]).unplaced) :
    (loadHeaders d.phnum m).map unplaced=d.dumpedRegions.map fun region => (ptLoadHeaderFill region).unplaced := by
  apply ext_getElem
  · rw [length_map, length_map, length_loadHeaders, d.length_dumpedRegions]
  · intro i hi hi'
    have hl1 : i<(includedRegions d.maps).length := by
      grind
    simp only [loadHeaders, Dump.dumpedRegions, getElem_map, getElem_range, getElem_take]
    exact hl i hl1

theorem segmentsSize_of_unplaced {segs : List Phdr} {regions : List DumpMemoryRegions}
    (h : segs.map unplaced=regions.map fun region => (ptLoadHeaderFill region).unplaced) :
    segmentsSize segs=totalSize regions := by
  have h' := congrArg (map fun p => p.pMemsz.toNat) h
  rw [map_map, map_map] at h'
  exact congrArg sum h'

end Segments

/-! ## The file -/

def DumpMemoryRegions.Covers (region : DumpMemoryRegions) (addr : BitVec 64) : Prop :=
  ∃ i < region.memorySizeHex.toNat, addr = region.startHex+BitVec.ofNat 64 i

/-- The address lies in a region that is dumped. -/
def Dump.Dumped (d : Dump) (addr : BitVec 64) : Prop := ∃ region ∈ includedRegions d.maps, region.Covers addr

structure Generated (d : Dump) (size : ℕ) (b : Buffer) : Prop where
  room : b.ranOut = false ↔ d.coreSize ≤ size
  current : b.ranOut = false → b.current = d.coreSize
  tables : b.ranOut = false → tables b.bytes =
    ⟨BitVec.ofNat 64 ehdrSize, BitVec.ofNat 64 d.sectionTableStart, d.phnum, d.phnum+3, d.phnum+1⟩
  note : b.ranOut = false → Phdr.read b.bytes (phdrPos 0) =
    {ptNoteHeaderFill with
      pOffset := BitVec.ofNat 64 d.noteStart
      pFilesz := BitVec.ofNat 64 d.noteSize}
  load : b.ranOut = false → ∀ i, ∀ hi : i < d.dumpedRegions.length,
    Phdr.read b.bytes (phdrPos (i+1)) = d.loadHeader i d.dumpedRegions[i]
  content : b.ranOut = false → d.vm.Delivers d.Dumped → ∀ i, ∀ hi : i < d.dumpedRegions.length,
    ∀ j < d.dumpedRegions[i].memorySizeHex.toNat,
      b.bytes (d.loadStart+totalSize (d.dumpedRegions.take i)+j) =
        d.vm.memory (d.dumpedRegions[i].startHex+BitVec.ofNat 64 j)
  places : b.ranOut = false → ∀ i, i+4 ≤ d.sectionCount →
    sectionPlace b.bytes (d.sectionTableStart+shdrSize*(i+1)) = (Phdr.read b.bytes (phdrPos i)).place
  strTable : b.ranOut = false →
    sectionPlace b.bytes (d.sectionTableStart+shdrSize*(d.sectionCount-2)) =
      ⟨0, BitVec.ofNat 64 (strTableStart d.version d.versionStart), BitVec.ofNat 64 strTable.length⟩
  version : b.ranOut = false →
    sectionPlace b.bytes (d.sectionTableStart+shdrSize*(d.sectionCount-1)) =
      ⟨0, BitVec.ofNat 64 d.versionStart, BitVec.ofNat 64 (buildInfo d.version).length⟩

/-! ## After the load writer -/

theorem loadSegmentWrite_later (vm : ProcessVm) (tcount : ℤ) (sched : List ℕ) (ePhnum : BitVec 16)
    (b : Buffer) : (loadSegmentWrite vm tcount sched ePhnum b).2.capacity=b.capacity ∧
      (b.ranOut=true → (loadSegmentWrite vm tcount sched ePhnum b).2.ranOut=true) := by
  set results := (generateWriteTasks (loadHeaders ePhnum b.bytes) (getDumpThreadCount tcount) b.current).map
    (writeMergedSeg vm b.capacity (loadHeaders ePhnum b.bytes))
  have ha := emits_each results (fun r _ _ => emits_advance r.totalWritten.toNat)
    (joinThreads sched results b)
  refine ⟨ha.capacity, fun ho => ha.ranOut_of_ranOut ?_⟩
  simp [joinThreads, ho]

structure Loaded (d : Dump) (size : ℕ) (b : Buffer) : Prop where
  capacity : b.capacity = size
  room : b.ranOut = false ↔ d.versionStart ≤ size
  current : b.ranOut = false → b.current = d.versionStart
  tables : b.ranOut = false → tables b.bytes =
    ⟨BitVec.ofNat 64 ehdrSize, BitVec.ofNat 64 shdrSize, d.phnum, d.phnum+3, d.phnum+1⟩
  note : b.ranOut = false → Phdr.read b.bytes (phdrPos 0) =
    {ptNoteHeaderFill with
      pOffset := BitVec.ofNat 64 d.noteStart
      pFilesz := BitVec.ofNat 64 d.noteSize}
  load : b.ranOut = false → ∀ i, ∀ hi : i < d.dumpedRegions.length,
    Phdr.read b.bytes (phdrPos (i+1)) = d.loadHeader i d.dumpedRegions[i]
  content : b.ranOut = false → d.vm.Delivers d.Dumped → ∀ i, ∀ hi : i < d.dumpedRegions.length,
    ∀ j < d.dumpedRegions[i].memorySizeHex.toNat,
      b.bytes (d.loadStart+totalSize (d.dumpedRegions.take i)+j) =
        d.vm.memory (d.dumpedRegions[i].startHex+BitVec.ofNat 64 j)

section Loads

variable {d : Dump} {segs : List Phdr} {b b' : Buffer}

theorem LoadsWritten.before (h : LoadsWritten d.vm segs b b') (hroom : b'.ranOut=false) {a : ℕ}
    (ha : a<phdrPos 1) (hb : phdrPos 1≤b.current) : b'.bytes a=b.bytes a := by
  refine h.elsewhere hroom a (fun i _ => .inl ?_) (.inl (by omega))
  grind

theorem LoadsWritten.read (h : LoadsWritten d.vm segs b b') (hroom : b'.ranOut=false)
    (hb : phdrPos (segs.length+1)≤b.current) {i : ℕ} (hi : i<segs.length) : read b'.bytes (phdrPos (i+1)) =
      { read b.bytes (phdrPos (i+1)) with
        pOffset := BitVec.ofNat 64 (b.current+segmentsSize (segs.take i))} := by
  rw [←read_store_pOffset, ←toLE_xword]
  refine read_congr fun a hlo hhi => ?_
  simp only [phdrPos, phdrSize] at hlo hhi hb
  by_cases hf : offsetPos i≤a ∧ a<offsetPos i+8
  · exact h.offset hroom i hi a hf.1 hf.2
  · have hf' := hf
    rw [h.elsewhere hroom a (fun k hk => ?_) (.inl (by omega)), store_of_outside ?_]
    · grind
    · grind

section
variable {size : ℕ} {r : BitVec 16×Buffer} (htrigger : Triggered d size r) (hroom : r.2.ranOut=false)
include htrigger hroom

theorem Triggered.length_loadHeaders : (loadHeaders d.phnum r.2.bytes).length=d.dumpedRegions.length := by
  simpa using congrArg length (loadHeaders_unplaced (htrigger.load hroom))

theorem Triggered.headers_before : phdrPos ((loadHeaders d.phnum r.2.bytes).length+1)≤ r.2.current := by
  have h2 := d.phnum_le
  have h3 := d.headerCount_pos
  rw [htrigger.current hroom, htrigger.length_loadHeaders hroom]
  grind

theorem Triggered.loaded (hc1 : b'.capacity=size)
    (hl : LoadsWritten d.vm (loadHeaders d.phnum r.2.bytes) r.2 b') : Loaded d size b' := by
  have hs1 := loadHeaders_unplaced (htrigger.load hroom)
  have hl1 := htrigger.length_loadHeaders hroom
  have hp := htrigger.headers_before hroom
  have hs := segmentsSize_of_unplaced hs1
  generalize loadHeaders d.phnum r.2.bytes=segs at *
  have hc := htrigger.current hroom
  have hp1 : phdrPos 1≤ r.2.current := le_trans (by
    simp only [phdrPos, phdrSize]
    omega) hp
  have ht : ∀ i, segmentsSize (segs.take i)=totalSize (d.dumpedRegions.take i) := by
    intro i
    refine segmentsSize_of_unplaced ?_
    rw [map_take, hs1, map_take]
  have hs2 : ∀ i, ∀ hi : i<segs.length, ∀ hi' : i<d.dumpedRegions.length,
      segs[i].unplaced=(ptLoadHeaderFill d.dumpedRegions[i]).unplaced := by
    intro i hi hi'
    have h := getElem_of_eq hs1 (i := i) (by simpa using hi)
    simpa using h
  refine ⟨hc1, ?_, fun h => ?_, fun h => ?_, fun h => ?_, fun h i hi => ?_, fun h hvm i hi j hj => ?_⟩
  · rw [hl.room, hc, htrigger.capacity, hs]
    exact ⟨fun h => h.2, fun h => ⟨hroom, h⟩⟩
  · rw [hl.current h, hc, hs]
    rfl
  · refine (tables_congr fun a ha => hl.before h ?_ hp1).trans (htrigger.tables hroom)
    grind
  · refine (read_congr fun a _ ha => hl.before h ?_ hp1).trans (htrigger.note hroom)
    simpa [phdrPos] using ha
  · rw [hl.read h hp (by rw [hl1]; exact hi), ht, hc]
    refine with_pOffset_congr ?_ _
    have hi2 : i<(includedRegions d.maps).length := by
      grind
    rw [htrigger.load hroom i hi2]
    simp [Dump.dumpedRegions]
  · have hi' : i<segs.length := by rw [hl1]; exact hi
    have hu1 := hs2 i hi' hi
    have ha1 : segs[i].pVaddr=d.dumpedRegions[i].startHex := congrArg pVaddr hu1
    have hm2 : segs[i].pMemsz=d.dumpedRegions[i].memorySizeHex := congrArg pMemsz hu1
    have hi1 : image d.vm r.2.current segs (r.2.current+segmentsSize (segs.take i)+j) =
        some (d.vm.memory (segs[i].pVaddr+BitVec.ofNat 64 j)) := image_at _ _ i hi' j (by rw [hm2]; exact hj)
    rw [ht, hc, ha1] at hi1
    refine hl.content h d.Dumped hvm ?_ _ _ (by rw [hc]; exact hi1)
    -- every segment read is one of the dumped regions
    intro seg hm1 k hk
    obtain ⟨n, hn, rfl⟩ := getElem_of_mem hm1
    have hn' : n<d.dumpedRegions.length := by rw [←hl1]; exact hn
    have hu := hs2 n hn hn'
    have ha : segs[n].pVaddr=d.dumpedRegions[n].startHex := congrArg pVaddr hu
    have hm : segs[n].pMemsz=d.dumpedRegions[n].memorySizeHex := congrArg pMemsz hu
    refine ⟨d.dumpedRegions[n], mem_of_mem_take (getElem_mem hn'), k, ?_, ?_⟩
    · rw [←hm]
      exact hk
    · rw [ha]

end
end Loads

theorem loaded (d : Dump) (bytes : Bytes) (size : ℕ) (hc1 : phdrPos 1+16≤ size)
    (hs1 : totalSize d.dumpedRegions<2^64) : let r := d.triggerCoredump (fresh bytes size)
    Loaded d size (loadSegmentWrite d.vm d.cfg.dumperThreadCount d.schedule r.1 r.2).2 := by
  intro r
  have htrigger : Triggered d size r := triggered d bytes size hc1
  have hl := loadSegmentWrite_later d.vm d.cfg.dumperThreadCount d.schedule r.1 r.2
  have hc := hl.1.trans htrigger.capacity
  cases hroom : r.2.ranOut with
  | true =>
    have ho := hl.2 hroom
    have hno : ¬d.loadStart≤ size := htrigger.room.not.mp (by simp [hroom])
    refine ⟨hc, ⟨fun h => by simp [ho] at h, fun h => ?_⟩, ?_, ?_, ?_, ?_, ?_⟩
    · exact absurd ((le_add_right _ _).trans h) hno
    all_goals exact fun h => absurd h (by simp [ho])
  | false =>
    have hs := segmentsSize_of_unplaced (loadHeaders_unplaced (htrigger.load hroom))
    rw [htrigger.phnum hroom] at hc ⊢
    exact htrigger.loaded hroom hc (loadsWritten d.vm d.cfg.dumperThreadCount d.schedule d.phnum r.2
      (by rw [hs]; exact hs1) fun _ => htrigger.headers_before hroom)

/-! ## The finished file -/

theorem Dump.headers_before (d : Dump) : phdrPos d.headerCount≤d.versionStart := by
  grind

theorem Loaded.generated {d : Dump} {size : ℕ} {b b' : Buffer} (hl : Loaded d size b)
    (hs : SectionsWritten d.version b b') : Generated d size b' := by
  have hh := d.headers_before
  have hc : b.ranOut=false → loadSectionCount b.bytes+4=d.sectionCount := by
    intro h
    rw [loadSectionCount, hl.tables h]
    rfl
  have hb : b'.ranOut=false → b.ranOut=false := fun h => (hs.room.mp h).1
  have hs1 : b.ranOut=false → sectionsStart d.version b.current=d.sectionTableStart := by
    intro h
    rw [hl.current h]
    rfl
  have hf1 : d.sectionCount≤d.headerCount+3 := by
    have h1 := d.phnum_le
    have h2 := d.headerCount_pos
    grind
  have hr : b'.ranOut=false → ∀ i<d.headerCount, read b'.bytes (phdrPos i)=read b.bytes (phdrPos i) := by
    intro h i hi
    refine read_congr fun a hlo hhi => hs.before h a ?_ (.inr ?_)
    · rw [hl.current (hb h)]
      grind
    · grind
  have hd := d.length_dumpedRegions
  have hp1 := d.phnum_le
  refine ⟨⟨fun h => ?_, fun h => ?_⟩, fun h => ?_, fun h => ?_, fun h => ?_, fun h i hi => ?_,
    fun h hvm i hi j hj => ?_, fun h i hi => ?_, fun h => ?_, fun h => ?_⟩
  · have hf := hs.room.mp h
    rw [hs1 hf.1, hc hf.1, hl.capacity] at hf
    exact hf.2
  · have hroom := hl.room.mpr (le_trans (by
      simp only [Dump.coreSize, Dump.sectionTableStart, sectionsStart, stringsEnd, strTableStart]
      omega) h)
    rw [hs.room, hs1 hroom, hc hroom, hl.capacity]
    exact ⟨hroom, h⟩
  · rw [hs.current h, hs1 (hb h), hc (hb h)]
    rfl
  · rw [hs.tables h, hl.tables (hb h), hs1 (hb h)]
  · rw [hr h 0 d.headerCount_pos, hl.note (hb h)]
  · rw [hr h (i+1) (by omega), hl.load (hb h) i hi]
  · rw [←hl.content (hb h) hvm i hi j hj]
    refine hs.before h _ ?_ (.inr ?_)
    · have ht := totalSize_take_add_le d.dumpedRegions i hi
      rw [hl.current (hb h)]
      grind
    · have : eShoffAt+8≤d.loadStart := by
        grind
      omega
  · have hle : i≤loadSectionCount b.bytes := by grind
    have hp := hs.places h (by
      rw [hl.current (hb h)]
      refine le_trans ?_ hh
      have := hc (hb h)
      simp only [phdrPos, phdrSize]
      omega) i hle
    rw [hs1 (hb h)] at hp
    rw [hp, hr h i (by omega)]
  · have hp := hs.strTable h
    rw [hl.current (hb h)] at hp
    rw [←hp, ←hc (hb h)]
    rfl
  · have hp := hs.version h
    rw [hl.current (hb h)] at hp
    rw [←hp, ←hc (hb h)]
    rfl

theorem generated (d : Dump) (bytes : Bytes) (cap : BitVec 64) (hc : phdrPos 1+16≤ cap.toNat)
    (hs : totalSize d.dumpedRegions<2^64) : Generated d cap.toNat (d.generate bytes cap) := by
  have hl := loaded d bytes cap.toNat hc hs
  refine hl.generated (sectionsWritten d.version _ fun h => ?_)
  rw [hl.current h]
  exact (le_add_right _ _).trans d.headers_before

/-! ## Sample targets -/

def anonymousRegion (startHex memorySizeHex : BitVec 64) : DumpMemoryRegions where
  startHex := startHex
  endHex := startHex+memorySizeHex
  offsetHex := 0
  memorySizeHex := memorySizeHex
  priority := text ['r', '-', '-', 'p']
  pathName := []
  length_priority := by decide
  length_pathName := by decide

def zeros (n : ℕ) : Blob n := ⟨List.replicate n 0, List.length_replicate⟩

def threadEntry : TaskEntry := ⟨text ['1'], ⟨zeros 392, zeros 16, zeros 528, zeros 128⟩⟩

def sampleDump (maps : List DumpMemoryRegions) (threads : ℕ) : Dump where
  maps := maps
  cfg := {}
  target := ⟨zeros 136, some (List.replicate threads threadEntry), some []⟩
  vm := ⟨fun _ => 7, fun _ len => len.toNat⟩
  version := ⟨[], by decide⟩
  schedule := []

theorem sampleDump_delivers (maps : List DumpMemoryRegions) (ths : ℕ) (P : BitVec 64 → Prop) :
    (sampleDump maps ths).vm.Delivers P := fun _ _ _ => le_rfl

theorem noteSize_sampleDump {maps : List DumpMemoryRegions} (ths : ℕ) (hf : fileRegions maps=[]) :
    (sampleDump maps ths).noteSize=212+1172*ths := by
  have ht : threadEntry.isThread=true := by decide
  have hn : threadNoteSize {} = 1172 := by decide
  have hp : paddingOf 4 16=0 := by decide
  have hc : (sampleDump maps ths).target.threadCount=ths := by
    simp [sampleDump, TargetNotes.threadCount, ht]
  have ha : (sampleDump maps ths).target.auxvCount=0 := by
    simp [sampleDump, TargetNotes.auxvCount, auxvRecords, auxvRecordsFrom]
  have hd : fileDescSize maps=16 := by
    rw [fileDescSize, hf]
    rfl
  have hc1 : (sampleDump maps ths).cfg={} := rfl
  have hm : (sampleDump maps ths).maps=maps := rfl
  have hw : processWriters {} = [.prpsinfo, .multiThread, .auxv, .dumpMappings] := rfl
  simp only [Dump.noteSize, noteSegmentSize, hc1, hm, hw, map_cons, map_nil, sum_cons,
    sum_nil, ProcessNote.size, ha, hd, hn, noteHeadSize, nhdrSize, noteNameSize]
  omega

end Faultloggerd.CoreFile
