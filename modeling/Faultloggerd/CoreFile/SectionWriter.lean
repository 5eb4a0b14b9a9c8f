import Faultloggerd.CoreFile.NoteSizes
import Faultloggerd.CoreFile.HeaderWriters

/-! # The string tables and the section headers

The last writer of the file: the build string, the section names, and one section header for each program header
with four special ones around them. The headers are filled through raw pointers; their number is read back from
the file header.
-/
namespace Faultloggerd.CoreFile
open List Phdr Ehdr Foundations.ByteStore Buffer

/-! ## The writer -/

abbrev DisplayVersion := {version : List UInt8 // version.length+12≤Buffer.maxCopyCap}

def buildInfo (version : DisplayVersion) : List UInt8 :=
  text ['B', 'u', 'i', 'l', 'd', ' ', 'i', 'n', 'f', 'o', ':']++version.val++[0]

def strTable : List UInt8 :=
  [0]++text ['.', 'n', 'o', 't', 'e']++[0] ++
    text ['.', 's', 'h', 's', 't', 'r', 't', 'a', 'b']++[0] ++
    text ['.', 'l', 'o', 'a', 'd']++[0] ++
    text ['.', 'n', 'o', 't', 'e', '.', 'd', 'f', 'x', '.', 's', 'y', 's', 't', 'e', 'm',
      '.', 'v', 'e', 'r', 's', 'i', 'o', 'n']++[0, 0]

def alignSize : ℕ := 8

def setShFlag (pFlags : BitVec 32) : BitVec 64 :=
  if pFlags = pfR then shfAlloc
  else if pFlags = pfR ||| pfW then shfWrite ||| shfAlloc
  else if pFlags = pfR ||| pfX then shfAlloc ||| shfExecinstr
  else 0

def sectionHeaderFill (shName shType : BitVec 32) (shFlag : BitVec 64) (programHeader : Phdr) : Shdr where
  shName := shName
  shType := shType
  shFlags := shFlag
  shAddr := programHeader.pVaddr
  shOffset := programHeader.pOffset
  shSize := programHeader.pFilesz
  shLink := 0
  shInfo := 0
  shAddralign := 1
  shEntsize := 0

/-- The sections of the load segments, from section position `pos` and program header `idx` on. -/
def writeLoadSections : ℕ → ℕ → ℕ → Buffer → Buffer
  | 0, _, _, b => b
  | count+1, pos, idx, b =>
    let programHeader := Phdr.read b.bytes (phdrPos idx)
    let sectionHeader := sectionHeaderFill 0x11 shtProgbits (setShFlag programHeader.pFlags) programHeader
    writeLoadSections count (pos+shdrSize) (idx+1) (b.poke pos sectionHeader.bytes)

/-- The section of the names, filled from the program header that follows the last and then corrected. -/
def strTableSection (programHeader : Phdr) (strTableAddr : ℕ) : Shdr :=
  { sectionHeaderFill 0x07 shtStrtab shfAlloc programHeader with
    shAddr := 0
    shOffset := BitVec.ofNat 64 strTableAddr
    shSize := BitVec.ofNat 64 strTable.length}

/-- The section of the build string; link, info, alignment and entry size are left as they were. -/
def versionSection (versionStartAddr size : ℕ) : Shdr where
  shName := 0x17
  shType := shtNote
  shFlags := 0
  shAddr := 0
  shOffset := BitVec.ofNat 64 versionStartAddr
  shSize := BitVec.ofNat 64 size
  shLink := 0
  shInfo := 0
  shAddralign := 0
  shEntsize := 0

def loadSectionCount (m : Bytes) : ℕ := (tables m).shnum.toNat-4

def noteSection (m : Bytes) : Shdr := sectionHeaderFill 0x01 shtNote 0 (Phdr.read m (phdrPos 0))

def writeSections (versionStartAddr strTableAddr versionSize : ℕ) : Writer := fun b =>
  let pos := b.current
  let b := b.poke pos (noteSection b.bytes).bytes
  let count := loadSectionCount b.bytes
  let b := writeLoadSections count (pos+shdrSize) 1 b
  let last := pos+shdrSize*(count+1)
  let b := b.poke last (strTableSection (Phdr.read b.bytes (phdrPos (count+1))) strTableAddr).bytes
  let b := b.poke (last+shdrSize) (versionSection versionStartAddr versionSize).placeBytes
  (true, (Buffer.setCurrent (last+shdrSize*2) b).2)

def sectionHeaderTableWrite (version : DisplayVersion) : Writer := fun b =>
  let versionStartAddr := b.current
  let b := (Buffer.write (buildInfo version) b).2
  let strTableAddr := b.current
  Writer.andThen (Buffer.write strTable) (fun b =>
    let b := padZeros (paddingOf alignSize b.current) b
    let b := b.poke Ehdr.eShoffAt (toLE 8 b.current)
    let b := (Buffer.advance shdrSize (b.pokes [⟨b.current, List.replicate shdrSize 0⟩])).2
    writeSections versionStartAddr strTableAddr (buildInfo version).length b) b

/-! ## The sections of the load segments -/

theorem place_bytes_poke (b : Buffer) (pos : ℕ) (s : Shdr) : sectionPlace (b.poke pos s.bytes).bytes pos=s.place :=
  sectionPlace_store_encode s _

theorem place_placeBytes_poke (b : Buffer) (pos : ℕ) (s : Shdr) :
    sectionPlace (b.poke pos s.placeBytes).bytes pos=s.place := by
  have h : sectionPlace (store b.bytes pos (encode (s.placeFields++[]))) pos=s.place := sectionPlace_store_encode s []
  rwa [append_nil] at h

theorem writeLoadSections_frame (count pos idx : ℕ) (b : Buffer) :
    (writeLoadSections count pos idx b).capacity=b.capacity ∧
      (writeLoadSections count pos idx b).current=b.current ∧ ((writeLoadSections count pos idx b).ranOut=false ↔
        b.ranOut=false ∧ (count=0 ∨ pos+shdrSize*count≤b.capacity)) ∧
      ∀ a, a<pos ∨ pos+shdrSize*count≤a → (writeLoadSections count pos idx b).bytes a=b.bytes a := by
  induction count generalizing pos idx b with
  | zero => simp [writeLoadSections]
  | succ count ih =>
    rw [writeLoadSections]
    set s := sectionHeaderFill 0x11 shtProgbits (setShFlag (read b.bytes (phdrPos idx)).pFlags)
      (read b.bytes (phdrPos idx))
    obtain ⟨hc, hc1, hr, hf⟩ := ih (pos+shdrSize) (idx+1) (b.poke pos s.bytes)
    refine ⟨hc, hc1, ?_, fun a ha => ?_⟩
    · rw [hr, ranOut_poke, and_assoc]
      refine and_congr_right fun _ => ?_
      change pos+shdrSize≤b.capacity ∧ (count=0 ∨ pos+shdrSize+shdrSize*count≤b.capacity) ↔ _
      rw [Nat.mul_succ]
      constructor
      · rintro ⟨hf1, rfl | hr1⟩
        · exact .inr (by omega)
        · exact .inr (by omega)
      · omega
    · rw [Nat.mul_succ] at ha
      rw [hf a (by omega), bytes_poke, store_of_outside (by grind)]

theorem place_writeLoadSections (count pos idx : ℕ) (b : Buffer) (hp : phdrPos (idx+count)≤pos)
    (i : ℕ) (hi : i<count) : sectionPlace (writeLoadSections count pos idx b).bytes (pos+shdrSize*i) =
      (read b.bytes (phdrPos (idx+i))).place := by
  induction count generalizing pos idx b i with
  | zero => exact absurd hi (Nat.not_lt_zero i)
  | succ count ih =>
    rw [writeLoadSections]
    set s := sectionHeaderFill 0x11 shtProgbits (setShFlag (read b.bytes (phdrPos idx)).pFlags)
      (read b.bytes (phdrPos idx))
    cases i with
    | zero =>
      obtain ⟨-, -, -, hf⟩ := writeLoadSections_frame count (pos+shdrSize) (idx+1) (b.poke pos s.bytes)
      have hk1 : sectionPlace (writeLoadSections count (pos+shdrSize) (idx+1) (b.poke pos s.bytes)).bytes
          pos=sectionPlace (b.poke pos s.bytes).bytes pos := sectionPlace_congr fun a _ ha => hf a (by grind)
      exact hk1.trans (place_bytes_poke b pos s)
    | succ i =>
      -- the program headers lie before the sections, so the store leaves them alone
      have hr : ∀ k< idx+(count+1), read (b.poke pos s.bytes).bytes (phdrPos k) = read b.bytes (phdrPos k) := by
        intro k hk
        refine read_congr fun a _ ha => store_of_outside (.inl ?_)
        grind
      have h := ih (pos+shdrSize) (idx+1) (b.poke pos s.bytes)
        (by grind) i (by omega)
      rw [hr _ (by omega)] at h
      rw [Nat.mul_succ, Nat.add_comm (shdrSize*i), ←Nat.add_assoc, h, Nat.add_assoc idx, Nat.add_comm 1 i]

/-! ## The table -/

theorem setCurrent_spec (pos : ℕ) (b : Buffer) :
    (setCurrent pos b).2.capacity=b.capacity ∧ (setCurrent pos b).2.bytes=b.bytes ∧
      ((setCurrent pos b).2.ranOut=false ↔ b.ranOut=false ∧ pos≤b.capacity) ∧
      ((setCurrent pos b).2.ranOut=false → (setCurrent pos b).2.current=pos) := by
  unfold setCurrent
  split
  · simp [refuse]
    omega
  · refine ⟨rfl, rfl, ⟨fun h => ⟨h, by omega⟩, fun h => h.1⟩, fun _ => rfl⟩

theorem tables_poke {b : Buffer} {pos : ℕ} {data : List UInt8} (hp : ehdrSize≤pos) :
    tables (b.poke pos data).bytes=tables b.bytes := tables_congr fun _ ha => store_of_outside (.inl (by omega))

structure TableWritten (versionStartAddr strTableAddr versionSize count : ℕ) (b b' : Buffer) : Prop where
  emits : Emits b.current (shdrSize*(count+3)) b b'
  places : b'.ranOut = false → phdrPos (count+1) ≤ b.current → ∀ i ≤ count,
    sectionPlace b'.bytes (b.current+shdrSize*i) = (Phdr.read b.bytes (phdrPos i)).place
  strTable : b'.ranOut = false → sectionPlace b'.bytes (b.current+shdrSize*(count+1)) =
    ⟨0, BitVec.ofNat 64 strTableAddr, BitVec.ofNat 64 strTable.length⟩
  version : b'.ranOut = false → sectionPlace b'.bytes (b.current+shdrSize*(count+2)) =
    ⟨0, BitVec.ofNat 64 versionStartAddr, BitVec.ofNat 64 versionSize⟩

theorem tableWritten (versionStartAddr strTableAddr versionSize : ℕ) {count : ℕ} (b : Buffer)
    (hc3 : loadSectionCount (b.poke b.current (noteSection b.bytes).bytes).bytes=count) :
    TableWritten versionStartAddr strTableAddr versionSize count b
      (writeSections versionStartAddr strTableAddr versionSize b).2 := by
  simp only [writeSections, hc3]
  set note := noteSection b.bytes
  obtain ⟨hc1, hc21, hr1, hf1⟩ := writeLoadSections_frame count (b.current+shdrSize) 1 (b.poke b.current note.bytes)
  set loads := writeLoadSections count (b.current+shdrSize) 1 (b.poke b.current note.bytes)
  set last := b.current+shdrSize*(count+1)
  set names := strTableSection (read loads.bytes (phdrPos (count+1))) strTableAddr
  set info := versionSection versionStartAddr versionSize
  set patched := (loads.poke last names.bytes).poke (last+shdrSize) info.placeBytes
  obtain ⟨hc, hb, hr, hc2⟩ := setCurrent_spec (last+shdrSize*2) patched
  have he : last+shdrSize*2=b.current+shdrSize*(count+3) := by
    grind
  have hl1 : last=b.current+shdrSize+shdrSize*count := by
    grind
  have hl : ∀ a, a<last → patched.bytes a=loads.bytes a := fun a ha =>
    (store_of_outside (.inl (by omega))).trans (store_of_outside (.inl ha))
  refine ⟨⟨hc.trans hc1, ?_, fun h => (hc2 h).trans he, fun _ a ha => ?_⟩, fun _ hh i hi => ?_,
    fun _ => ?_, fun _ => ?_⟩
  · have hm : patched.ranOut=false ↔ b.ranOut=false ∧ b.current+shdrSize≤b.capacity ∧
        (count=0 ∨ b.current+shdrSize+shdrSize*count≤b.capacity) ∧
        last+shdrSize≤b.capacity ∧ last+shdrSize+40≤b.capacity := by
      simp only [patched, ranOut_poke, hr1, and_assoc]
      rw [show (loads.poke last names.bytes).capacity=b.capacity from hc1, hc1]
      rfl
    have hcap' : patched.capacity=b.capacity := hc1
    rw [hr, hm]
    grind
  · rw [hb]
    have ho : a<last ∨ last+shdrSize+40≤a := by
      grind
    have hp1 : patched.bytes a=loads.bytes a := by
      refine (store_of_outside ?_).trans (store_of_outside ?_)
      · grind
      · grind
    rw [hp1, hf1 a (by grind), bytes_poke, store_of_outside (by grind)]
  · rw [hb]
    cases i with
    | zero =>
      refine (sectionPlace_congr fun a _ ha => ?_).trans (place_bytes_poke b b.current note)
      simp only [shdrSize] at ha hl1
      rw [hl a (by omega), hf1 a (.inl (by grind))]
    | succ i =>
      have hp := place_writeLoadSections count (b.current+shdrSize) 1 (b.poke b.current note.bytes)
        (by grind) i (by omega)
      have hr2 : read (b.poke b.current note.bytes).bytes (phdrPos (1+i)) = read b.bytes (phdrPos (1+i)) := by
        refine read_congr fun a _ ha => store_of_outside (.inl ?_)
        grind
      have hp2 : b.current+shdrSize*(i+1)=b.current+shdrSize+shdrSize*i := by
        grind
      rw [hr2] at hp
      rw [hp2, Nat.add_comm i 1, ←hp]
      refine sectionPlace_congr fun a _ ha => hl a ?_
      grind
  · rw [hb]
    refine (sectionPlace_congr fun a _ ha => ?_).trans (place_bytes_poke loads last names)
    exact store_of_outside (.inl (by grind))
  · rw [hb]
    exact place_placeBytes_poke _ _ info

/-! ## The writer as a whole -/

def strTableStart (version : DisplayVersion) (start : ℕ) : ℕ := start+(buildInfo version).length

def stringsEnd (version : DisplayVersion) (start : ℕ) : ℕ := strTableStart version start+strTable.length

def sectionsStart (version : DisplayVersion) (start : ℕ) : ℕ :=
  stringsEnd version start+paddingOf alignSize (stringsEnd version start)

attribute [grind unfold] strTableStart stringsEnd sectionsStart

variable (version : DisplayVersion)

theorem le_sectionsStart (start : ℕ) : start≤ sectionsStart version start := by
  grind

structure SectionsWritten (version : DisplayVersion) (b b' : Buffer) : Prop where
  capacity : b'.capacity = b.capacity
  room : b'.ranOut = false ↔ b.ranOut = false ∧
    sectionsStart version b.current+shdrSize*(loadSectionCount b.bytes+4) ≤ b.capacity
  current : b'.ranOut = false → b'.current = sectionsStart version b.current+shdrSize*(loadSectionCount b.bytes+4)
  before : b'.ranOut = false → ∀ a < b.current, a < Ehdr.eShoffAt ∨ Ehdr.eShoffAt+8 ≤ a → b'.bytes a = b.bytes a
  tables : b'.ranOut = false → tables b'.bytes =
    {tables b.bytes with shoff := BitVec.ofNat 64 (sectionsStart version b.current)}
  places : b'.ranOut = false → phdrPos (loadSectionCount b.bytes+1) ≤ b.current →
    ∀ i ≤ loadSectionCount b.bytes,
      sectionPlace b'.bytes (sectionsStart version b.current+shdrSize*(i+1)) = (Phdr.read b.bytes (phdrPos i)).place
  strTable : b'.ranOut = false →
    sectionPlace b'.bytes (sectionsStart version b.current+shdrSize*(loadSectionCount b.bytes+2)) =
      ⟨0, BitVec.ofNat 64 (strTableStart version b.current), BitVec.ofNat 64 strTable.length⟩
  version : b'.ranOut = false →
    sectionPlace b'.bytes (sectionsStart version b.current+shdrSize*(loadSectionCount b.bytes+3)) =
      ⟨0, BitVec.ofNat 64 b.current, BitVec.ofNat 64 (buildInfo version).length⟩

theorem length_buildInfo_le : (buildInfo version).length≤ maxCopyCap := by
  simp only [buildInfo, length_append, text, length_map, length_cons, length_nil]
  omega

theorem emits_names (b : Buffer) : Emits b.current ((buildInfo version).length+strTable.length) b
      (write strTable (write (buildInfo version) b).2).2 :=
  (emits_write (length_buildInfo_le version) fun _ => le_rfl).append le_rfl
    (emits_write (by decide) fun _ => le_rfl)

theorem emits_strings (version : DisplayVersion) (b : Buffer) :
    let named := (write strTable (write (buildInfo version) b).2).2
    Emits b.current (sectionsStart version b.current-b.current) b
      (padZeros (paddingOf alignSize named.current) named) := by
  intro named
  have hn : Emits b.current ((buildInfo version).length+strTable.length) b named := emits_names version b
  have hp := emits_padZeros (paddingOf alignSize named.current) named
  have ha : sectionsStart version b.current-b.current =
      (buildInfo version).length+strTable.length+paddingOf alignSize (stringsEnd version b.current) := by
    grind
  rw [ha]
  cases hr : named.ranOut with
  | true => exact hn.trans (.of_ranOut hp.capacity hr (hp.ranOut_of_ranOut hr))
  | false =>
    have hc : named.current=stringsEnd version b.current := by
      rw [hn.current hr]
      grind
    have h := hn.append le_rfl hp
    rwa [hc] at h ⊢

/-- The state before the table proper: the strings are written, the place of the table is patched into the file
header, and the empty section is there. -/
structure TableBegun (version : DisplayVersion) (b b' : Buffer) : Prop where
  emits : Emits Ehdr.eShoffAt (sectionsStart version b.current-b.current+shdrSize) b b'
  before : b'.ranOut = false → ∀ a < b.current, a < Ehdr.eShoffAt ∨ Ehdr.eShoffAt+8 ≤ a → b'.bytes a = b.bytes a
  tables : b'.ranOut = false → tables b'.bytes =
    {tables b.bytes with shoff := BitVec.ofNat 64 (sectionsStart version b.current)}

theorem tableBegun (b padded : Buffer) (hp : Emits b.current (sectionsStart version b.current-b.current) b padded)
    (hb : b.ranOut=false → ehdrSize≤b.current) : let shoffed := padded.poke eShoffAt (toLE 8 padded.current)
    TableBegun version b (advance shdrSize (shoffed.pokes [⟨shoffed.current, List.replicate shdrSize 0⟩])).2 := by
  intro shoffed
  have hs := le_sectionsStart version b.current
  have hc : padded.ranOut=false → padded.current=sectionsStart version b.current := by
    intro h
    rw [hp.current h]
    omega
  have hp1 : Emits eShoffAt 0 padded shoffed := by
    refine emits_poke fun h => ⟨le_rfl, ?_⟩
    have := hb (hp.before h)
    grind
  have he : Emits padded.current shdrSize shoffed
      (advance shdrSize (shoffed.pokes [⟨shoffed.current, List.replicate shdrSize 0⟩])).2 :=
    (emits_pokes_advance _ (by simp) : Emits shoffed.current shdrSize shoffed _)
  have hl : ∀ h : padded.ranOut=false, eShoffAt+8≤b.current := by
    intro h
    have := hb (hp.before h)
    grind
  have hp40 : Emits eShoffAt _ b padded := hp.mono_of_room fun h => by
    grind
  have he40 : Emits eShoffAt shdrSize shoffed _ := he.mono_of_room fun h => by
    have := hl (hp1.before h)
    rw [hc (hp1.before h)]
    omega
  refine ⟨(hp40.trans (hp1.trans he40)).congr_amount (by omega), fun h a ha ho => ?_, fun h => ?_⟩
  · have hr := hp1.before (he.before h)
    rw [he.frame h a (.inl (by grind)), bytes_poke, store_of_outside (by exact ho), hp.frame hr a (.inl ha)]
  · have hr := hp1.before (he.before h)
    have h1 : CoreFile.tables (advance shdrSize
        (shoffed.pokes [⟨shoffed.current, List.replicate shdrSize 0⟩])).2.bytes=CoreFile.tables shoffed.bytes :=
      tables_congr fun a ha => he.frame h a (.inl (by
        have := hb (hp.before hr)
        rw [hc hr]
        omega))
    have h2 : CoreFile.tables padded.bytes=CoreFile.tables b.bytes := tables_congr fun a ha => hp.frame hr a (.inl (by
        have := hb (hp.before hr)
        omega))
    rw [h1, bytes_poke, toLE_xword, hc hr, tables_store_eShoff, h2]

theorem TableBegun.sectionsWritten {version : DisplayVersion} {b begun : Buffer} (hb2 : TableBegun version b begun)
    {strTableAddr : ℕ} (ha1 : begun.ranOut=false → strTableAddr=strTableStart version b.current) :
    SectionsWritten version b (writeSections b.current strTableAddr (buildInfo version).length begun).2 := by
  have hs1 := le_sectionsStart version b.current
  have hc : begun.ranOut=false → begun.current=sectionsStart version b.current+shdrSize := by
    intro h
    rw [hb2.emits.current h]
    omega
  have hc1 : begun.ranOut=false →
      loadSectionCount (begun.poke begun.current (noteSection begun.bytes).bytes).bytes = loadSectionCount b.bytes := by
    intro h
    have hle : ehdrSize≤begun.current := by grind
    rw [loadSectionCount, tables_poke hle, hb2.tables h]
    rfl
  have ht := tableWritten b.current strTableAddr (buildInfo version).length begun rfl
  generalize (writeSections b.current strTableAddr (buildInfo version).length begun).2=done at ht ⊢
  have hw : begun.ranOut=false → TableWritten b.current strTableAddr (buildInfo version).length
      (loadSectionCount b.bytes) begun done := fun h => hc1 h ▸ ht
  have hb1 : done.ranOut=false → begun.ranOut=false := fun h => ht.emits.before h
  have hs : ∀ k, sectionsStart version b.current+shdrSize*(k+1) =
      sectionsStart version b.current+shdrSize+shdrSize*k := by
    grind
  refine ⟨ht.emits.capacity.trans hb2.emits.capacity, ⟨fun h => ?_, fun h => ?_⟩, fun h => ?_,
    fun h a ha ho => ?_, fun h => ?_, fun h hh i hi => ?_, fun h => ?_, fun h => ?_⟩
  · have hr := (hw (hb1 h)).emits.room.mp h
    rw [hc hr.1, hb2.emits.capacity] at hr
    exact ⟨hb2.emits.before hr.1, by rw [hs]; exact hr.2⟩
  · have hr := hb2.emits.room.mpr ⟨h.1, by simp only [shdrSize] at h ⊢; omega⟩
    rw [(hw hr).emits.room, hc hr, hb2.emits.capacity, ←hs]
    exact ⟨hr, h.2⟩
  · rw [(hw (hb1 h)).emits.current h, hc (hb1 h), hs]
  · have hl : a<begun.current := by
      grind
    rw [(hw (hb1 h)).emits.frame h a (.inl hl), hb2.before (hb1 h) a ha ho]
  · refine Eq.trans (tables_congr fun a ha => ?_) (hb2.tables (hb1 h))
    refine (hw (hb1 h)).emits.frame h a (.inl ?_)
    grind
  · have hp := (hw (hb1 h)).places h (by grind) i hi
    have hr1 : read begun.bytes (phdrPos i)=read b.bytes (phdrPos i) := by
      refine read_congr fun a hlo hhi => hb2.before (hb1 h) a ?_ (.inr ?_)
      · grind
      · grind
    rw [hc (hb1 h), hr1] at hp
    rw [hs, hp]
  · have hp := (hw (hb1 h)).strTable h
    rw [hc (hb1 h), ha1 (hb1 h)] at hp
    rw [hs, hp]
  · have hp := (hw (hb1 h)).version h
    rw [hc (hb1 h)] at hp
    rw [hs, hp]

theorem sectionsWritten (b : Buffer) (hb : b.ranOut=false → ehdrSize≤b.current) :
    SectionsWritten version b (sectionHeaderTableWrite version b).2 := by
  have hp := emits_strings version b
  have hn1 := emits_names version b
  have hn : Sound (write strTable (write (buildInfo version) b).2) := sound_write (by decide)
  have hb2 : Emits b.current (buildInfo version).length b (write (buildInfo version) b).2 :=
    emits_write (length_buildInfo_le version) fun _ => le_rfl
  simp only [sectionHeaderTableWrite, Writer.andThen]
  set built := (write (buildInfo version) b).2
  set named := (write strTable built).2
  set padded := padZeros (paddingOf alignSize named.current) named
  have hp1 : Emits named.current _ named padded := emits_padZeros _ named
  have hs := le_sectionsStart version b.current
  cases hok : (write strTable built).1 with
  | false =>
    -- the names did not fit, so the table would not fit either
    have ho : named.ranOut=true := by
      by_contra h
      simp [hn (by simpa using h)] at hok
    refine ⟨hn1.capacity, ⟨fun h => by simp [ho] at h, fun h => ?_⟩, ?_, ?_, ?_, ?_, ?_, ?_⟩
    · exact absurd (hp1.before (hp.room.mpr ⟨h.1, by omega⟩)) (by simp [ho])
    all_goals exact fun h => absurd h (by simp [ho])
  | true =>
    have hb1 := tableBegun version b padded hp hb
    refine hb1.sectionsWritten fun h => hb2.current ?_
    have hf := hb1.emits.room.mp h
    refine hb2.room.mpr ⟨hf.1, ?_⟩
    grind

end Faultloggerd.CoreFile
