import Faultloggerd.Minidump.StaleRanges
import Faultloggerd.Minidump.CallEffects

/-! # A file for every probe

Files with one stream, a memory list or a module list, whose members are those of a probe. The parser reads them back:
from any optimizer it registers the ranges of the probe and answers lookups as the probe is answered
(`memoryFile_answer`, `moduleFile_answer`).
-/
namespace Faultloggerd.Minidump
open MinidumpMemoryReader MinidumpModuleList MinidumpMemoryList MinidumpParser List Nat

/-! ## Little-endian fields -/

def leBytes : ℕ → ℕ → List UInt8
  | 0, _ => []
  | width+1, n => UInt8.ofNat n :: leBytes width (n/256)

@[simp] theorem length_leBytes (width n : ℕ) : (leBytes width n).length=width := by
  induction width generalizing n with
  | zero => rfl
  | succ width ih => rw [leBytes, length_cons, ih]

theorem leValue_leBytes {width n : ℕ} (h : n<256^width) : leValue (leBytes width n)=n := by
  induction width generalizing n with
  | zero =>
    rw [pow_zero, lt_one_iff] at h
    rw [h]
    rfl
  | succ width ih =>
    have hr : n/256<256^width := Nat.div_lt_of_lt_mul (by rwa [pow_succ, mul_comm] at h)
    have hc : leValue (leBytes (width+1) n)=(UInt8.ofNat n).toNat+256*leValue (leBytes width (n/256)) := ofDigits_cons
    rw [hc, ih hr, UInt8.toNat_ofNat']
    omega

theorem slice_flatMap {α : Type} {f : α → List UInt8} {n : ℕ} (hf : ∀ a, (f a).length=n) (l : List α) {i : ℕ}
    (hi : i<l.length) : ((l.flatMap f).drop (n*i)).take n=f l[i] := by
  induction l generalizing i with
  | nil => cases hi
  | cons a l ih =>
    cases i with
    | zero => rw [mul_zero, drop_zero, flatMap_cons, take_left' (hf a), getElem_cons_zero]
    | succ i =>
      rw [flatMap_cons, mul_succ, add_comm, ←drop_drop, drop_left' (hf a), ih (lt_of_succ_lt_succ hi),
        getElem_cons_succ]

theorem length_flatMap_of_length {α : Type} {f : α → List UInt8} {n : ℕ} (hf : ∀ a, (f a).length=n) (l : List α) :
    (l.flatMap f).length=n*l.length := by
  induction l with
  | nil => rfl
  | cons a l ih => rw [flatMap_cons, length_append, hf, ih, length_cons, mul_succ, add_comm]

namespace MinidumpMemoryReader

theorem readBytes_at (before bytes rest : List UInt8) : readBytes ⟨before++(bytes++rest), before.length⟩ bytes.length =
      some (bytes, ⟨before++(bytes++rest), before.length+bytes.length⟩) := by
  rw [readBytes]
  split_ifs with hz
  · rw [length_eq_zero_iff.mp hz]
    rfl
  · rw [readFromMmap]
    simp

theorem readRecords_at {α : Type} {f : α → List UInt8} {n : ℕ} (hf : ∀ a, (f a).length=n) (l : List α)
    (before rest : List UInt8) : readRecords n l.length ⟨before++(l.flatMap f++rest), before.length⟩ =
      (some (l.map f), ⟨before++(l.flatMap f++rest), before.length+n*l.length⟩) := by
  induction l generalizing before with
  | nil => rfl
  | cons a l ih =>
    have hr := readBytes_at before (f a) (l.flatMap f++rest)
    have hn := ih (before++f a)
    rw [length_append, append_assoc, hf] at hn
    rw [hf] at hr
    rw [length_cons, readRecords, flatMap_cons, append_assoc, hr]
    dsimp only
    rw [hn, map_cons, mul_succ, add_assoc, add_comm n]

end MinidumpMemoryReader

/-! ## Files of one stream -/

def fileHeader : List UInt8 :=
  [0x4d, 0x44, 0x4d, 0x50, 0x93, 0xa7, 0, 0, 1, 0, 0, 0, 32, 0, 0, 0, 0, 0, 0, 0, 0, 0, 0, 0, 0, 0, 0, 0, 0, 0, 0, 0]

def directoryEntry (streamType length : ℕ) : List UInt8 := leBytes 4 streamType++(leBytes 4 length++leBytes 4 44)

def streamFile (streamType : ℕ) (body : List UInt8) : List UInt8 :=
  fileHeader++(directoryEntry streamType body.length++body)

def parsedFile (streamType : ℕ) (body : List UInt8) : MinidumpParser where
  file := streamFile streamType body
  header := ⟨minidumpHeaderSignature, minidumpHeaderVersion, 1, 32⟩
  directory := [⟨streamType, body.length, 44⟩]
  streamMap := Function.update (fun _ => none) streamType (some ⟨0, none⟩)
  memoryReader := some ⟨streamFile streamType body, 44⟩
  isValid := true
  lastError := none

section StreamFile
variable {config : ParserConfig} {type : ℕ} {body : List UInt8}

theorem decode_directoryEntry {length : ℕ} (ht : type<2^32) (hl : length<2^32) :
    MDRawDirectory.decode (directoryEntry type length)=⟨type, length, 44⟩ := by
  rw [MDRawDirectory.decode, directoryEntry, take_left' (length_leBytes 4 _), drop_left' (length_leBytes 4 _),
    take_left' (length_leBytes 4 _), ←append_assoc, drop_left' (by rw [length_append, length_leBytes, length_leBytes]),
    take_of_length_le (length_leBytes 4 _).le, leValue_leBytes ht, leValue_leBytes hl, leValue_leBytes (by decide)]

theorem readMinidumpHeader_streamFile (h : 1≤ config.maxStreams) (p : MinidumpParser)
    (hp : p.file=streamFile type body) : p.readMinidumpHeader config=(true, {p with
      memoryReader := some ⟨streamFile type body, 32⟩
      header := ⟨minidumpHeaderSignature, minidumpHeaderVersion, 1, 32⟩}) := by
  have hr : readBytes ⟨p.file, 0⟩ MDRawHeader.byteSize = some (fileHeader, ⟨streamFile type body, 32⟩) := by
    rw [hp]
    exact readBytes_at [] fileHeader _
  have hd : MDRawHeader.decode fileHeader=⟨minidumpHeaderSignature, minidumpHeaderVersion, 1, 32⟩ := by decide
  rw [readMinidumpHeader, hr]
  dsimp only
  rw [hd, if_neg (by decide), validateFileHeader]
  dsimp only
  rw [if_neg (not_not_intro rfl), if_neg (by decide), if_neg (by omega)]

theorem length_streamFile : (streamFile type body).length=44+body.length := by
  rw [streamFile, directoryEntry]
  simp only [length_append, length_leBytes]
  change 32+_=_
  omega

theorem seekSet_streamFile {off pos : ℕ} (h : off≤44) :
    seekSet off ⟨streamFile type body, pos⟩=some ⟨streamFile type body, off⟩ := by
  rw [seekSet, if_neg (by omega), if_neg (by rw [length_streamFile]; omega)]

theorem readStreamDirectory_streamFile (ht : type<2^32) (hb : body.length<2^32) (p : MinidumpParser)
    (hh : p.header=⟨minidumpHeaderSignature, minidumpHeaderVersion, 1, 32⟩)
    (hr : p.memoryReader=some ⟨streamFile type body, 32⟩) (hm : p.streamMap=fun _ => none) :
    p.readStreamDirectory=(true, {p with
      memoryReader := some ⟨streamFile type body, 44⟩
      streamMap := Function.update (fun _ => none) type (some ⟨0, none⟩)
      directory := [⟨type, body.length, 44⟩]}) := by
  have hr1 : readBytes ⟨streamFile type body, 32⟩ (MDRawDirectory.byteSize*1) =
      some (directoryEntry type body.length, ⟨streamFile type body, 44⟩) := by
    have h := readBytes_at fileHeader (directoryEntry type body.length) body
    exact h
  have hd : (range 1).map (MDRawDirectory.decodeAt (directoryEntry type body.length)) = [⟨type, body.length, 44⟩] := by
    rw [range_one, map_singleton, MDRawDirectory.decodeAt, mul_zero, drop_zero,
      take_of_length_le (by rfl), decode_directoryEntry ht hb]
  rw [readStreamDirectory, hh, hr]
  dsimp only
  rw [if_neg (by decide), seekSet_streamFile (by decide)]
  dsimp only
  rw [hr1]
  dsimp only
  rw [hd]
  simp [registerEntries, registerStreamDirectoryEntry, hm]

theorem parse_streamFile (h : 1≤ config.maxStreams) (ht : type<2^32) (hb : body.length<2^32) :
    (new (streamFile type body)).parse config=(true, parsedFile type body) := by
  rw [parse, readMinidumpHeader_streamFile h _ rfl]
  dsimp only
  rw [readStreamDirectory_streamFile ht hb _ rfl rfl rfl]
  rfl

variable {opt opt' : ProcessOptimizer} {s s' : MinidumpStream}

theorem getStream_parsedFile (hc : MinidumpStream.create config type ⟨streamFile type body, 44⟩=some s)
    (hr : s.read config body.length opt=(true, opt', s')) :
    ∃ p, (parsedFile type body).getStream config type opt=(true, p, opt') ∧ p.stream type=some s' := by
  have hm : (parsedFile type body).streamMap type=some ⟨0, none⟩ := by
    simp [parsedFile]
  have hs : (parsedFile type body).seekToStreamType type =
      (some (⟨streamFile type body, 44⟩, body.length), parsedFile type body) := by
    have he1 : (parsedFile type body).getDirectoryEntryAtType type = some ⟨type, body.length, 44⟩ := by
      rw [getDirectoryEntryAtType, hm]
      rfl
    have he : validateStreamExtent 44 body.length ⟨streamFile type body, 44⟩=true := by
      rw [validateStreamExtent, length_streamFile]
      simp
    rw [seekToStreamType, he1]
    simp [parsedFile, he, seekSet_streamFile le_rfl]
  have hl : (parsedFile type body).getStream config type opt = (parsedFile type body).loadStream config type opt := by
    rw [getStream, hm]
    rfl
  rw [hl, loadStream, hs]
  dsimp only
  rw [hc]
  dsimp only
  rw [hr]
  simp [stream, setStream, hm]

theorem answersOf_streamFile (hs : 1≤ config.maxStreams) (ht : type<2^32) (hb : body.length<2^32)
    (hc : MinidumpStream.create config type ⟨streamFile type body, 44⟩=some s)
    (hr : s.read config body.length opt=(true, opt', s')) (op : Operation) :
    ∃ p : MinidumpParser, p.stream type=some s' ∧
      Operation.answersOf config [.parse, .getStream type, op] (.new (streamFile type body)) opt =
        [.returned true, .returned true, (op.step config p opt').1] := by
  obtain ⟨p, hg, hs1⟩ := getStream_parsedFile hc hr
  refine ⟨p, hs1, ?_⟩
  simp [Operation.answersOf, Operation.step, parse_streamFile hs ht hb, hg]

end StreamFile

/-! ## Memory lists -/

def regionOf : Option ℕ → MDMemoryDescriptor
  | none => ⟨2^64-1, 2^32-1, 0⟩
  | some start => ⟨start, 0, 0⟩

def encodeRegion (member : Option ℕ) : List UInt8 :=
  leBytes 8 (regionOf member).startOfMemoryRange++(leBytes 4 (regionOf member).dataSize++leBytes 4 0)

def memoryBody (probe : Probe) : List UInt8 := leBytes 4 probe.length++probe.flatMap encodeRegion

def memoryFile (probe : Probe) : List UInt8 := streamFile MDStreamType.memoryList (memoryBody probe)

section MemoryFile
variable {config : ParserConfig} {probe : Probe}

theorem length_encodeRegion (member : Option ℕ) : (encodeRegion member).length=16 := by
  simp [encodeRegion]

theorem decode_encodeRegion {member : Option ℕ} (h : ∀ start, member=some start → start<2^64) :
    MDMemoryDescriptor.decode (encodeRegion member)=regionOf member := by
  have hs : (regionOf member).startOfMemoryRange<256^8 := by
    cases member with
    | none => decide
    | some start => exact h start rfl
  have hs1 : (regionOf member).dataSize<256^4 := by
    cases member with
    | none => decide
    | some start => exact Nat.two_pow_pos 32
  rw [MDMemoryDescriptor.decode, encodeRegion, take_left' (length_leBytes 8 _),
    drop_left' (length_leBytes 8 _), take_left' (length_leBytes 4 _), ←append_assoc,
    drop_left' (by rw [length_append, length_leBytes, length_leBytes]), leValue_leBytes hs, leValue_leBytes hs1]
  cases member with
  | none | some start => rfl

theorem entriesOf_regionOf (probe : Probe) (k : ℕ) :
    entriesOf ((probe.map regionOf).zipIdx k)=Probe.entriesFrom k probe := by
  induction probe generalizing k with
  | nil => rfl
  | cons member probe ih =>
    cases member with
    | none =>
      have hf : ¬(regionOf none).Fits := by decide
      rw [Probe.entriesFrom_none, ←ih]
      simp [entriesOf, hf]
    | some start =>
      rw [Probe.entriesFrom_some, ←ih]
      rfl

@[grind =] theorem length_memoryBody : (memoryBody probe).length=4+16*probe.length := by
  rw [memoryBody, length_append, length_leBytes, length_flatMap_of_length length_encodeRegion]

theorem getMemoryRegionForAddress_fresh {l : MinidumpMemoryList} (hv : l.isValid=true) (hi : l.addressIndex=true)
    {cap : ℕ} (hc : l.addressCache=LruCache.empty cap) (opt : PerformanceOptimizer) (a : ℕ) :
    (l.getMemoryRegionForAddress config.toMinidumpConfig opt a).1 =
      (opt.adaptiveMemoryIndex.lookup a).filter (·<l.regionCount) := by
  rw [getMemoryRegionForAddress, if_neg (by simp [hv])]
  rw [hc]
  have hg : (LruCache.empty cap : LruCache ℕ ℕ).get a=(none, LruCache.empty cap) := rfl
  rw [hg]
  dsimp only
  rw [Option.filter_none]
  rw [findRegion, if_pos (by exact hi)]
  cases opt.adaptiveMemoryIndex.lookup a with
  | none => rfl
  | some i =>
    dsimp only
    rw [getMemoryRegionAtIndex, Option.filter_some]
    rw [hv]
    by_cases hlt : i<l.regionCount
    · rw [if_neg (by simpa using hlt), if_pos (by simpa using hlt)]
    · rw [if_pos (by simpa using hlt), if_neg (by simpa using hlt)]

variable (hne : probe≠[]) (htwo : probe.length≤2) (hlimit : probe.length≤ config.maxMemoryRegions)
  (hstarts : ∀ start, some start∈probe → start<2^64)
include hne htwo hlimit hstarts

theorem readRegionCountAndDescriptors_memoryBody (before : List UInt8) :
    (MinidumpMemoryList.new config.toMinidumpConfig (some ⟨before++memoryBody probe, before.length⟩) true
      ).readRegionCountAndDescriptors config.toMinidumpConfig =
      (some (probe.map regionOf), { MinidumpMemoryList.new config.toMinidumpConfig
        (some ⟨before++memoryBody probe, before.length+(memoryBody probe).length⟩) true with
          regionCount := probe.length}) := by
  have hp := length_pos_of_ne_nil hne
  have hc : readBytes ⟨before++memoryBody probe, before.length⟩ 4 =
      some (leBytes 4 probe.length, ⟨before++memoryBody probe, before.length+4⟩) := by
    have h := readBytes_at before (leBytes 4 probe.length) (probe.flatMap encodeRegion)
    rwa [length_leBytes] at h
  have hv : leValue (leBytes 4 probe.length)=probe.length := leValue_leBytes (by omega)
  have hr : readBytes ⟨before++memoryBody probe, before.length+4⟩ (16*probe.length) =
      some (probe.flatMap encodeRegion, ⟨before++memoryBody probe, before.length+(memoryBody probe).length⟩) := by
    have h := readBytes_at (before++leBytes 4 probe.length) (probe.flatMap encodeRegion) []
    rw [append_nil, append_assoc, length_append, length_flatMap_of_length length_encodeRegion] at h
    rw [length_memoryBody, ←add_assoc]
    exact h
  have hd : (range probe.length).map (MDMemoryDescriptor.decodeAt (probe.flatMap encodeRegion)) =
      probe.map regionOf := by
    apply ext_getElem
    · simp
    · intro i hi hi'
      rw [getElem_map, getElem_map, getElem_range, MDMemoryDescriptor.decodeAt,
        MDMemoryDescriptor.byteSize, slice_flatMap length_encodeRegion, decode_encodeRegion]
      intro start hs
      exact hstarts start (hs ▸ getElem_mem _)
  simp only [MinidumpMemoryList.readRegionCountAndDescriptors, MinidumpMemoryList.new, hc, hv]
  rw [if_neg (by omega), if_neg (by omega)]
  simp [MDMemoryDescriptor.byteSize, hr, hd]

theorem read_memoryBody (before : List UInt8) (opt : PerformanceOptimizer) :
    ∃ l, (MinidumpMemoryList.new config.toMinidumpConfig (some ⟨before++memoryBody probe, before.length⟩) true
        ).read config.toMinidumpConfig (memoryBody probe).length opt =
          (true, {opt with adaptiveMemoryIndex := opt.adaptiveMemoryIndex.insertAll probe.entries}, l) ∧
      l.isValid=true ∧ l.addressIndex=true ∧ l.regionCount=probe.length ∧
      l.addressCache=LruCache.empty config.lruCacheCapacity := by
  rw [MinidumpMemoryList.read, readRegionCountAndDescriptors_memoryBody hne htwo hlimit hstarts]
  dsimp only
  rw [if_neg (by rw [length_memoryBody]; exact lt_irrefl _), MinidumpMemoryList.buildMemoryRegions,
    MinidumpMemoryList.foldl_buildRegion_entries _ _ _ rfl, entriesOf_regionOf]
  exact ⟨_, rfl, rfl, rfl, rfl, rfl⟩

theorem memoryFile_answer (hs : 1≤ config.maxStreams) (opt : ProcessOptimizer) (a : ℕ) :
    Operation.answersOf config [.parse, .getStream MDStreamType.memoryList, .getMemoryRegionForAddress a]
        (.new (memoryFile probe)) opt =
      [.returned true, .returned true, .position (probe.answer opt.adaptiveMemoryIndex a)] := by
  obtain ⟨l, hr, hv, hi, hc1, hc⟩ := read_memoryBody hne htwo hlimit hstarts
    (fileHeader++directoryEntry MDStreamType.memoryList (memoryBody probe).length) opt.toPerformanceOptimizer
  have hr' : (MinidumpStream.memoryList (.new config.toMinidumpConfig (some ⟨memoryFile probe, 44⟩) true)).read
      config (memoryBody probe).length opt=(true, opt.register ⟨probe.entries, []⟩, .memoryList l) := by
    have hf : (new config.toMinidumpConfig (some ⟨memoryFile probe, 44⟩) true).read
        config.toMinidumpConfig (memoryBody probe).length opt.toPerformanceOptimizer=_ := hr
    rw [MinidumpStream.read, hf]
    rfl
  have ht : MDStreamType.memoryList<2^32 := by decide
  have hb : (memoryBody probe).length<2^32 := by
    grind
  obtain ⟨p, hs1, ha⟩ := answersOf_streamFile hs ht hb rfl hr' (.getMemoryRegionForAddress a)
  refine ha.trans ?_
  rw [Operation.step, hs1]
  dsimp only
  rw [getMemoryRegionForAddress_fresh hv hi hc, hc1]
  rfl

end MemoryFile

/-! ## Module lists -/

def moduleOf (rva : ℕ) : Option ℕ → MDRawModule
  | none => ⟨2^64-2, 2^32-1, rva⟩
  | some start => ⟨start, 0, rva⟩

def encodeModule (rva : ℕ) (member : Option ℕ) : List UInt8 :=
  leBytes 8 (moduleOf rva member).baseOfImage++(leBytes 4 (moduleOf rva member).sizeOfImage ++
    (List.replicate 8 0++(leBytes 4 rva++List.replicate 84 0)))

def moduleName : List UInt8 := [2, 0, 0, 0, 97, 0]

@[grind unfold] def nameRva (length : ℕ) : ℕ := 48+108*length

def moduleBody (probe : Probe) : List UInt8 :=
  leBytes 4 probe.length++(probe.flatMap (encodeModule (nameRva probe.length))++moduleName)

def moduleFile (probe : Probe) : List UInt8 := streamFile MDStreamType.moduleList (moduleBody probe)

section ModuleFile
variable {config : ParserConfig} {probe : Probe}

theorem length_encodeModule (rva : ℕ) (member : Option ℕ) : (encodeModule rva member).length=108 := by
  simp [encodeModule]

theorem decode_encodeModule {rva : ℕ} (hr : rva<2^32) {member : Option ℕ}
    (h : ∀ start, member=some start → start<2^64-1) :
    MDRawModule.decode (encodeModule rva member)=moduleOf rva member := by
  have hs : (moduleOf rva member).baseOfImage<256^8 := by
    cases member with
    | none => exact (by decide : 2^64-2<256^8)
    | some start => exact (h start rfl).trans_le (by decide)
  have hs1 : (moduleOf rva member).sizeOfImage<256^4 := by
    cases member with
    | none => exact (by decide : 2^32-1<256^4)
    | some start => exact Nat.two_pow_pos 32
  have hn : ((encodeModule rva member).drop 20).take 4=leBytes 4 rva := by
    rw [encodeModule, ←append_assoc, ←append_assoc, drop_left' (by simp), take_left' (length_leBytes 4 _)]
  rw [MDRawModule.decode, hn, encodeModule, take_left' (length_leBytes 8 _),
    drop_left' (length_leBytes 8 _), take_left' (length_leBytes 4 _), leValue_leBytes hs,
    leValue_leBytes hs1, leValue_leBytes hr]
  cases member with
  | none | some start => rfl

variable {before : List UInt8}

theorem readString_moduleName (hlimit : 1≤ config.maxStringLength) (hs1 : before.length<2^63) (rest : List UInt8)
    (pos : ℕ) :
    readString config before.length ⟨before++(moduleName++rest), pos⟩ =
      (some [97], ⟨before++(moduleName++rest), before.length+6⟩) := by
  have hs : seekSet before.length ⟨before++(moduleName++rest), pos⟩ =
      some ⟨before++(moduleName++rest), before.length⟩ := by
    rw [seekSet, if_neg (by omega), if_neg (by grind)]
  have hl : readBytes ⟨before++(moduleName++rest), before.length⟩ 4 =
      some ([2, 0, 0, 0], ⟨before++(moduleName++rest), before.length+4⟩) :=
        readBytes_at before [2, 0, 0, 0] (97::0::rest)
  have hd : readBytes ⟨before++(moduleName++rest), before.length+4⟩ 2 =
      some ([97, 0], ⟨before++(moduleName++rest), before.length+6⟩) := by
    have h := readBytes_at (before++[2, 0, 0, 0]) [97, 0] rest
    rw [append_assoc, length_append] at h
    exact h
  have hv : leValue [2, 0, 0, 0]=2 := by decide
  rw [readString, hs]
  dsimp only
  rw [hl]
  dsimp only
  rw [hv, if_neg (by decide), if_neg (by omega), hd]
  dsimp only
  rw [show convertUTF16ToUTF8 (utf16Units [97, 0])=[97] by decide]

theorem readModuleAuxiliaryDataAndIndex_probe (hlimit : 1≤ config.maxStringLength) (before rest : List UInt8)
    (hp : 0<before.length) (hs1 : before.length<2^63) (probe : Probe)
    (hstarts : ∀ start, some start∈probe → start<2^64-1) (k pos : ℕ) (opt : ProcessOptimizer)
    (l : MinidumpModuleList) (hi : l.addressIndex=true) : ∃ l', readModuleAuxiliaryDataAndIndex config
        ((probe.map fun member => MinidumpModule.ofRaw (moduleOf before.length member)).zipIdx k)
        ⟨before++(moduleName++rest), pos⟩ (opt, l)=(true, {opt with
            adaptiveModuleIndex := opt.adaptiveModuleIndex.insertAll (Probe.entriesFrom k probe)}, l') ∧
      l'.addressIndex=true := by
  induction probe generalizing k pos opt l with
  | nil => exact ⟨_, rfl, hi⟩
  | cons member probe ih =>
    have hr1 : ∀ start, some start∈probe → start<2^64-1 := fun start hs => hstarts start (mem_cons_of_mem _ hs)
    have ha : (MinidumpModule.ofRaw (moduleOf before.length member)).readAuxiliaryData config
        ⟨before++(moduleName++rest), pos⟩=(true, ⟨true, moduleOf before.length member, some [97], true⟩,
          ⟨before++(moduleName++rest), before.length+6⟩) := by
      have hr2 : (moduleOf before.length member).moduleNameRva=before.length := by
        cases member with
        | none | some start => rfl
      simp [MinidumpModule.readAuxiliaryData, MinidumpModule.ofRaw, hr2, readString_moduleName hlimit hs1, if_pos hp]
    have hb : (moduleOf before.length member).baseOfImage≠2^64-1 := by
      cases member with
      | none => exact (by decide : 2^64-2≠2^64-1)
      | some start => exact (hstarts start mem_cons_self).ne
    obtain ⟨e, hr⟩ := registerModuleRange_eq config
      (moduleOf before.length member).baseOfImage (moduleOf before.length member).sizeOfImage k opt
      (l := {l with modules := l.modules.set k ⟨true, moduleOf before.length member, some [97], true⟩}) hi
    have he : Probe.entriesFrom k (member::probe) = rangeOf (moduleOf before.length member).baseOfImage
          (moduleOf before.length member).sizeOfImage k++Probe.entriesFrom (k+1) probe := by
      cases member with
      | none =>
        have ho : (moduleOf before.length none).baseOfImage+(moduleOf before.length none).sizeOfImage ≥ 2^64 :=
          (by decide : 2^64-2+(2^32-1) ≥ 2^64)
        rw [rangeOf, if_pos ho, nil_append, Probe.entriesFrom_none]
      | some start =>
        have hs2 := hstarts start mem_cons_self
        rw [rangeOf, if_neg (by change ¬start+0 ≥ 2^64; omega)]
        rfl
    rw [map_cons, zipIdx_cons, readModuleAuxiliaryDataAndIndex, ha]
    simp only [MinidumpModule.baseAddress, MinidumpModule.size, if_true, if_neg hb]
    rw [hr, he, AdaptiveAddressIndex.insertAll_append]
    exact ih hr1 (k+1) _ {opt with adaptiveModuleIndex := _} _ (by exact hi)

@[grind =] theorem length_moduleBody : (moduleBody probe).length=4+(108*probe.length+6) := by
  rw [moduleBody, length_append, length_append, length_flatMap_of_length (length_encodeModule _)]
  rfl

theorem getModuleForAddress_loaded {l : MinidumpModuleList} (hv : l.isValid=true) (hi : l.addressIndex=true)
    (opt : ProcessOptimizer) (a : ℕ) :
    l.getModuleForAddress config opt a=(opt.adaptiveModuleIndex.lookup a).filter (·<l.moduleCount) := by
  rw [getModuleForAddress, if_neg (by simp [hv]), findModule, if_pos hi]
  cases opt.adaptiveModuleIndex.lookup a with
  | none => rfl
  | some i =>
    rw [Option.bind_some, getModuleAtIndex, hv, Option.filter_some]
    by_cases hlt : i<l.moduleCount
    · rw [if_neg (by simpa using hlt), if_pos (by simpa using hlt)]
    · rw [if_pos (by simpa using hlt), if_neg (by simpa using hlt)]

variable (hne : probe≠[]) (htwo : probe.length≤2) (hmax : probe.length≤ config.maxModules)
  (hlimit : 1≤ config.maxStringLength) (hstarts : ∀ start, some start∈probe → start<2^64-1)
include hne htwo hmax hlimit hstarts

theorem read_moduleBody (hb : before.length=44) (opt : ProcessOptimizer) :
    ∃ l, (MinidumpModuleList.new (some ⟨before++moduleBody probe, before.length⟩) true).read config opt =
        (true, {opt with adaptiveModuleIndex := opt.adaptiveModuleIndex.insertAll probe.entries}, l) ∧
      l.isValid=true ∧ l.addressIndex=true ∧ l.moduleCount=probe.length := by
  have hp := length_pos_of_ne_nil hne
  have hv : leValue (leBytes 4 probe.length)=probe.length := leValue_leBytes (by omega)
  have hc : readBytes ⟨before++moduleBody probe, before.length⟩ 4 =
      some (leBytes 4 probe.length, ⟨before++moduleBody probe, before.length+4⟩) := by
    have h := readBytes_at before (leBytes 4 probe.length)
      (probe.flatMap (encodeModule (nameRva probe.length))++moduleName)
    rwa [length_leBytes] at h
  have hr : readRecords MDRawModule.byteSize probe.length
      ⟨before++moduleBody probe, before.length+4⟩ = (some (probe.map (encodeModule (nameRva probe.length))),
          ⟨before++moduleBody probe, before.length+4+108*probe.length⟩) := by
    have h := readRecords_at (length_encodeModule (nameRva probe.length)) probe
      (before++leBytes 4 probe.length) moduleName
    rwa [append_assoc, length_append] at h
  have hd : ((probe.map (encodeModule (nameRva probe.length))).map fun bytes =>
      MinidumpModule.ofRaw (MDRawModule.decode bytes)) =
        probe.map fun member => MinidumpModule.ofRaw (moduleOf (nameRva probe.length) member) := by
    rw [map_map]
    apply map_congr_left
    intro member hm
    dsimp only [Function.comp]
    rw [decode_encodeModule (by grind)]
    rintro start rfl
    exact hstarts start hm
  let front := before++(leBytes 4 probe.length++probe.flatMap (encodeModule (nameRva probe.length)))
  have hf : front.length=nameRva probe.length := by
    simp only [front, length_append, length_leBytes, length_flatMap_of_length (length_encodeModule _), nameRva]
    omega
  have hf1 : before++moduleBody probe=front++(moduleName++[]) := by
    simp [front, moduleBody]
  obtain ⟨l, hl, hi⟩ := readModuleAuxiliaryDataAndIndex_probe hlimit front []
    (by grind) (by grind) probe hstarts 0
    (before.length+4+108*probe.length) opt
    { MinidumpModuleList.new (some ⟨before++moduleBody probe, before.length⟩) true with
      modules := probe.map fun member => MinidumpModule.ofRaw (moduleOf (nameRva probe.length) member)} rfl
  rw [hf, ←hf1] at hl
  refine ⟨{l with moduleCount := probe.length, isValid := true, lastError := none}, ?_, rfl, hi, rfl⟩
  rw [MinidumpModuleList.read]
  simp only [MinidumpModuleList.new, hc, hv, hr, hd]
  rw [if_neg (by omega)]
  simp only [MinidumpModuleList.new] at hl
  rw [hl]
  rfl

theorem moduleFile_answer (hs : 1≤ config.maxStreams) (opt : ProcessOptimizer) (a : ℕ) :
    Operation.answersOf config [.parse, .getStream MDStreamType.moduleList, .getModuleForAddress a]
        (.new (moduleFile probe)) opt =
      [.returned true, .returned true, .position (probe.answer opt.adaptiveModuleIndex a)] := by
  have hb : (fileHeader++directoryEntry MDStreamType.moduleList (moduleBody probe).length).length=44 := rfl
  obtain ⟨l, hr, hv, hi, hc⟩ := read_moduleBody hne htwo hmax hlimit hstarts hb opt
  have hr' : (MinidumpStream.moduleList (.new (some ⟨moduleFile probe, 44⟩) true)).read config
      (moduleBody probe).length opt=(true, opt.register ⟨[], probe.entries⟩, .moduleList l) := by
    have hf : (new (some ⟨moduleFile probe, 44⟩) true).read config opt=_ := hr
    rw [MinidumpStream.read, hf]
    rfl
  have ht : MDStreamType.moduleList<2^32 := by decide
  have hb1 : (moduleBody probe).length<2^32 := by
    grind
  obtain ⟨p, hs1, ha⟩ := answersOf_streamFile hs ht hb1 rfl hr' (.getModuleForAddress a)
  refine ha.trans ?_
  have ha1 : ((Operation.getModuleForAddress a).step config p (opt.register ⟨[], probe.entries⟩)).1 =
      .position (l.getModuleForAddress config (opt.register ⟨[], probe.entries⟩) a) := by
    change ((p.stream MDStreamType.moduleList).map _).getD _=_
    rw [hs1]
    rfl
  rw [ha1, getModuleForAddress_loaded hv hi, hc]
  rfl

end ModuleFile
end Faultloggerd.Minidump
