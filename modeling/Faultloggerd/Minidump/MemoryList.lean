import Faultloggerd.Minidump.LruCache
import Faultloggerd.Minidump.Optimizer
import Mathlib.Data.Nat.Digits.Defs

/-! # The memory list stream (`minidump_memory.cpp`)

`read` decodes a count and that many 16-byte descriptors and registers every region with the address
index; `getMemoryRegionForAddress` answers from the lookup cache or the index. A region
`[start, start + size)` is registered with `start + size` as its last address, one too many.

After a successful read the log of the index is `logOf` of the descriptors (`read_log`), and from
then on every lookup, whatever was looked up before, is the index lookup
(`getMemoryRegionForAddress_eq`): the cache never answers anything else.
-/
namespace Faultloggerd.Minidump
open List LruCache

/-- A reader on its `mmap` backend: the file and the current position. -/
structure MinidumpMemoryReader where
  mmapData : List UInt8
  mmapPos : ℕ

def MinidumpMemoryReader.readFromMmap (r : MinidumpMemoryReader) (count : ℕ) :
    Option (List UInt8×MinidumpMemoryReader) :=
  if r.mmapPos+count > r.mmapData.length then none
  else some ((r.mmapData.drop r.mmapPos).take count, {r with mmapPos := r.mmapPos+count})

def MinidumpMemoryReader.readBytes (r : MinidumpMemoryReader) (count : ℕ) :
    Option (List UInt8×MinidumpMemoryReader) :=
  if count = 0 then some ([], r) else r.readFromMmap count

def leValue (bytes : List UInt8) : ℕ := Nat.ofDigits 256 (bytes.map UInt8.toNat)

structure MDMemoryDescriptor where
  startOfMemoryRange : ℕ
  dataSize : ℕ
  rva : ℕ
deriving DecidableEq

namespace MDMemoryDescriptor

def byteSize : ℕ := 16

def decode (bytes : List UInt8) : MDMemoryDescriptor where
  startOfMemoryRange := leValue (bytes.take 8)
  dataSize := leValue ((bytes.drop 8).take 4)
  rva := leValue ((bytes.drop 12).take 4)

def decodeAt (bytes : List UInt8) (i : ℕ) : MDMemoryDescriptor :=
  decode ((bytes.drop (byteSize*i)).take byteSize)

def limit (d : MDMemoryDescriptor) : ℕ := d.startOfMemoryRange+d.dataSize

/-- `size <= UINT64_MAX - start`. -/
def Fits (d : MDMemoryDescriptor) : Prop := d.dataSize ≤ 2^64-1-d.startOfMemoryRange

instance (d : MDMemoryDescriptor) : Decidable d.Fits := inferInstanceAs (Decidable (_≤_))

end MDMemoryDescriptor

structure MinidumpMemoryRegion where
  descriptor : MDMemoryDescriptor
  isValid : Bool
deriving DecidableEq

def MinidumpMemoryRegion.ofDescriptor (d : MDMemoryDescriptor) : MinidumpMemoryRegion where
  descriptor := d
  isValid := decide d.Fits

inductive MinidumpError where
  | memoryAlloc | memorySize | streamRead | rangeOverlap

structure MinidumpMemoryList where
  memoryReader : Option MinidumpMemoryReader
  isValid : Bool
  lastError : Option (MinidumpError×String)
  descriptors : List MDMemoryDescriptor
  regions : List MinidumpMemoryRegion
  regionCount : ℕ
  addressCache : LruCache ℕ ℕ
  /-- `addressIndex_` points at the optimizer's adaptive index, or is null. -/
  addressIndex : Bool

namespace MinidumpMemoryList

def new (config : MinidumpConfig) (reader : Option MinidumpMemoryReader) (addressIndex : Bool) :
    MinidumpMemoryList where
  memoryReader := reader
  isValid := false
  lastError := none
  descriptors := []
  regions := []
  regionCount := 0
  addressCache := LruCache.empty config.lruCacheCapacity
  addressIndex := addressIndex

def readRegionCountAndDescriptors (config : MinidumpConfig) (l : MinidumpMemoryList) :
    Option (List MDMemoryDescriptor) × MinidumpMemoryList :=
  let l := {l with regionCount := 0}
  match l.memoryReader with
  | none => (none, {l with lastError := some (.memoryAlloc, "MinidumpMemoryList memoryReader is null")})
  | some r =>
    match r.readBytes 4 with
    | none => (none, {l with lastError := some (.memoryAlloc, "Cannot read memory region count")})
    | some (bytes, r) =>
      let l := {l with memoryReader := some r, regionCount := leValue bytes}
      if l.regionCount > config.maxMemoryRegions then
        (none, {l with lastError := some (.memorySize, "Memory region count exceeds maximum")})
      else if l.regionCount = 0 then
        (none, {l with lastError := some (.memorySize, "Memory region count is zero")})
      else
        match r.readBytes (MDMemoryDescriptor.byteSize*l.regionCount) with
        | none =>
          (none, {l with
            lastError := some (.memoryAlloc, "Cannot read memory region descriptors")})
        | some (bytes, r) =>
          (some ((List.range l.regionCount).map (MDMemoryDescriptor.decodeAt bytes)), {l with memoryReader := some r})

def registerMemoryRange (config : MinidumpConfig) (start stop size index : ℕ)
    (s : PerformanceOptimizer×MinidumpMemoryList) : PerformanceOptimizer × MinidumpMemoryList :=
  let (opt, l) := s
  if l.addressIndex then
    ({opt with adaptiveMemoryIndex := (opt.adaptiveMemoryIndex.insert start stop index).2}, l)
  else
    let opt :=
      if config.enableRangeMap then
        {opt with rangeMapMemory := (opt.rangeMapMemory.storeRange start size index).2}
      else opt
    let (opt, l) :=
      if config.enableIntervalTree then
        let (ok, tree) := opt.intervalTreeMemory.insert start stop index
        ({opt with intervalTreeMemory := tree},
          if ok then l else {l with lastError := some (.rangeOverlap, "memory range overlap detected")})
      else (opt, l)
    if config.enableBitmapIndex then
      ({opt with bitmapIndex := opt.bitmapIndex.markRange start stop}, l)
    else (opt, l)

def buildRegion (config : MinidumpConfig) (s : PerformanceOptimizer×MinidumpMemoryList)
    (d : MDMemoryDescriptor×ℕ) : PerformanceOptimizer × MinidumpMemoryList :=
  let start := d.1.startOfMemoryRange
  let size := d.1.dataSize
  let (opt, l) :=
    if d.1.Fits then registerMemoryRange config start (start+size) size d.2 s else s
  (opt, {l with regions := l.regions++[MinidumpMemoryRegion.ofDescriptor d.1]})

def buildMemoryRegions (config : MinidumpConfig) (descriptors : List MDMemoryDescriptor)
    (s : PerformanceOptimizer×MinidumpMemoryList) : PerformanceOptimizer × MinidumpMemoryList :=
  let (opt, l) := descriptors.zipIdx.foldl (buildRegion config) s
  (opt, {l with descriptors := descriptors})

def read (config : MinidumpConfig) (expectedSize : ℕ) (opt : PerformanceOptimizer)
    (l : MinidumpMemoryList) : Bool × PerformanceOptimizer × MinidumpMemoryList :=
  match l.readRegionCountAndDescriptors config with
  | (none, l) => (false, opt, l)
  | (some descriptors, l) =>
    let actualSize := 4+MDMemoryDescriptor.byteSize*l.regionCount
    if actualSize > expectedSize then
      (false, opt, {l with lastError := some (.streamRead, "Memory list stream size mismatch")})
    else
      let (opt, l) := buildMemoryRegions config descriptors (opt, l)
      (true, opt, {l with isValid := true, lastError := none})

def getMemoryRegionAtIndex (l : MinidumpMemoryList) (index : ℕ) : Option ℕ :=
  if !l.isValid || index ≥ l.regionCount then none else some index

def findRegion (config : MinidumpConfig) (opt : PerformanceOptimizer) (l : MinidumpMemoryList)
    (address : ℕ) : Option ℕ :=
  if l.addressIndex then opt.adaptiveMemoryIndex.lookup address
  else
    let found := if config.enableRangeMap then opt.rangeMapMemory.retrieveRange address else none
    if config.enableBitmapIndex && !opt.bitmapIndex.isInRange address && opt.bitmapIndex.size != 0 then
      none
    else if found.isNone && config.enableIntervalTree then opt.intervalTreeMemory.search address
    else found

/-- The result of the lookup, and the list with its updated cache. -/
def getMemoryRegionForAddress (config : MinidumpConfig) (opt : PerformanceOptimizer)
    (l : MinidumpMemoryList) (address : ℕ) : Option ℕ × MinidumpMemoryList :=
  if !l.isValid then (none, l)
  else
    let (cached, cache) := l.addressCache.get address
    let l := {l with addressCache := cache}
    match cached.filter (· < l.regionCount) with
    | some idx => (some idx, l)
    | none =>
      match findRegion config opt l address with
      | none => (none, l)
      | some regionIndex =>
        let l := {l with addressCache := l.addressCache.put address regionIndex}
        (l.getMemoryRegionAtIndex regionIndex, l)

def lookups (config : MinidumpConfig) (opt : PerformanceOptimizer) (l : MinidumpMemoryList)
    (addresses : List ℕ) : MinidumpMemoryList :=
  addresses.foldl (fun l a => (l.getMemoryRegionForAddress config opt a).2) l

/-- The range a region is registered with: its end counts as an address of the range. -/
def entryOf (d : MDMemoryDescriptor×ℕ) : IndexEntry ℕ ℕ := ⟨d.1.startOfMemoryRange, d.1.limit, d.2⟩

def logOf (descriptors : List MDMemoryDescriptor) : List (IndexEntry ℕ ℕ) :=
  descriptors.zipIdx.map entryOf

section Build
variable {config : MinidumpConfig} {range gran : ℕ}

theorem buildRegion_fits {s : PerformanceOptimizer×MinidumpMemoryList}
    (d : MDMemoryDescriptor×ℕ) (hf : d.1.Fits) (hi : s.2.addressIndex=true) : buildRegion config s d =
      ({s.1 with adaptiveMemoryIndex :=
          (s.1.adaptiveMemoryIndex.insert (entryOf d).start (entryOf d).stop (entryOf d).value).2},
        {s.2 with regions := s.2.regions++[MinidumpMemoryRegion.ofDescriptor d.1]}) := by
  simp only [buildRegion, if_pos hf, registerMemoryRange, hi, if_true]
  rfl

variable (config) in
theorem foldl_buildRegion (ds : List (MDMemoryDescriptor×ℕ))
    (s : PerformanceOptimizer×MinidumpMemoryList) (hf : ∀ d∈ds, d.1.Fits) (hi : s.2.addressIndex=true)
    (hb : AdaptiveAddressIndex.Built range gran s.1.adaptiveMemoryIndex) : let s' := ds.foldl (buildRegion config) s
    AdaptiveAddressIndex.Built range gran s'.1.adaptiveMemoryIndex ∧ s'.1.adaptiveMemoryIndex.masterList =
        s.1.adaptiveMemoryIndex.masterList++ds.map entryOf ∧ ∃ regions, s'.2={s.2 with regions := regions} := by
  induction ds generalizing s with
  | nil => exact ⟨hb, by simp, s.2.regions, rfl⟩
  | cons d ds ih =>
    have hle : (entryOf d).start≤(entryOf d).stop := Nat.le_add_right _ _
    rw [foldl_cons, buildRegion_fits d (hf d (by simp)) hi]
    obtain ⟨hb', hl1, regions, hl⟩ := ih
      ({s.1 with adaptiveMemoryIndex :=
          (s.1.adaptiveMemoryIndex.insert (entryOf d).start (entryOf d).stop (entryOf d).value).2},
        {s.2 with regions := s.2.regions++[MinidumpMemoryRegion.ofDescriptor d.1]})
      (fun d' hd' => hf d' (by simp [hd'])) hi (hb.insert _ _ _)
    refine ⟨hb', ?_, regions, hl⟩
    rw [hl1]
    rw [AdaptiveAddressIndex.insert_masterList hb _ hle, map_cons, append_assoc, singleton_append]

end Build

/-- A list after a successful read through an address index, and after any lookups since. -/
structure Loaded (addressRange granularity : ℕ) (opt : PerformanceOptimizer)
    (l : MinidumpMemoryList) : Prop where
  valid : l.isValid = true
  index : l.addressIndex = true
  count : l.regionCount = l.descriptors.length
  built : AdaptiveAddressIndex.Built addressRange granularity opt.adaptiveMemoryIndex
  log : opt.adaptiveMemoryIndex.masterList = logOf l.descriptors
  coherent : l.addressCache.Coherent
  cached : l.addressCache.Holds fun a i => opt.adaptiveMemoryIndex.lookup a = some i

theorem readRegionCountAndDescriptors_some {config : MinidumpConfig} {l l' : MinidumpMemoryList}
    {ds : List MDMemoryDescriptor} (h : l.readRegionCountAndDescriptors config=(some ds, l')) :
    ds.length=l'.regionCount ∧ ∃ reader, l'={l with memoryReader := reader, regionCount := l'.regionCount} := by
  simp only [readRegionCountAndDescriptors] at h
  split at h
  · cases h
  split at h
  · cases h
  split_ifs at h
  · cases h
  · cases h
  split at h
  · cases h
  · cases h
    exact ⟨by simp, _, rfl⟩

theorem read_loaded {config : MinidumpConfig} {range gran size : ℕ}
    {opt opt' : PerformanceOptimizer} {reader : Option MinidumpMemoryReader} {l : MinidumpMemoryList}
    (hb : AdaptiveAddressIndex.Built range gran opt.adaptiveMemoryIndex) (he : opt.adaptiveMemoryIndex.masterList=[])
    (hr : (new config reader true).read config size opt=(true, opt', l))
    (hf : ∀ d∈l.descriptors, d.Fits) : Loaded range gran opt' l := by
  unfold read at hr
  split at hr
  · cases hr
  rename_i descriptors l1 hd1
  obtain ⟨hl2, r, hl1⟩ := readRegionCountAndDescriptors_some hd1
  dsimp only at hr
  split_ifs at hr
  · cases hr
  simp only [buildMemoryRegions] at hr
  obtain ⟨rfl, rfl⟩ := hr
  have hi : l1.addressIndex=true := by rw [hl1]; rfl
  have hc : l1.addressCache=empty config.lruCacheCapacity := by rw [hl1]; rfl
  obtain ⟨hb1, hl3, regions, hl⟩ := foldl_buildRegion config descriptors.zipIdx
    (opt, l1) (fun d hd => hf d.1 (fst_mem_of_mem_zipIdx hd)) hi hb
  constructor
  · rfl
  · simp [hl, hi]
  · simp [hl, hl2]
  · exact hb1
  · rw [hl3, he]
    rfl
  · simp only [hl, hc]
    exact coherent_empty _
  · simp only [hl, hc]
    exact holds_empty _ _

theorem logOf_value_lt {descriptors : List MDMemoryDescriptor} {e : IndexEntry ℕ ℕ}
    (he : e∈logOf descriptors) : e.value<descriptors.length := by
  obtain ⟨⟨d, i⟩, hd, rfl⟩ := mem_map.mp he
  exact snd_lt_of_mem_zipIdx hd

section Lookup
variable {config : MinidumpConfig} {range gran : ℕ} {opt : PerformanceOptimizer}
  {l : MinidumpMemoryList}

variable (config) in
theorem getMemoryRegionForAddress_step (h : Loaded range gran opt l) (addr : ℕ) :
    let (res, l') := l.getMemoryRegionForAddress config opt addr
    res=opt.adaptiveMemoryIndex.lookup addr ∧ l'.descriptors=l.descriptors ∧ Loaded range gran opt l' := by
  have hlt : ∀ i, opt.adaptiveMemoryIndex.lookup addr=some i → i<l.regionCount := by
    intro i hi
    obtain ⟨e, he, rfl, -⟩ := AdaptiveAddressIndex.lookup_mem h.built hi
    rw [h.log] at he
    rw [h.count]
    exact logOf_value_lt he
  have hg : Loaded range gran opt
      {l with addressCache := (l.addressCache.get addr).2} :=
    {h with coherent := h.coherent.get addr, cached := holds_get h.cached addr}
  unfold getMemoryRegionForAddress
  rw [if_neg (by simp [h.valid])]
  dsimp only
  cases hc : ((l.addressCache.get addr).1).filter (· < l.regionCount) with
  | some idx =>
    have hi1 : (l.addressCache.get addr).1=some idx := (Option.filter_eq_some_iff.mp hc).1
    exact ⟨(get_value h.coherent h.cached hi1).symm, rfl, hg⟩
  | none =>
    have hf : ∀ cache, findRegion config opt {l with addressCache := cache} addr =
        opt.adaptiveMemoryIndex.lookup addr := fun _ => if_pos h.index
    rw [hf]
    cases hi : opt.adaptiveMemoryIndex.lookup addr with
    | none => exact ⟨rfl, rfl, hg⟩
    | some i =>
      refine ⟨?_, rfl, {hg with
        coherent := hg.coherent.put addr i
        cached := holds_put hg.coherent hg.cached hi}⟩
      exact if_neg (by simp [h.valid, hlt i hi])

theorem lookups_loaded (h : Loaded range gran opt l) (addresses : List ℕ) :
    (l.lookups config opt addresses).descriptors=l.descriptors ∧
      Loaded range gran opt (l.lookups config opt addresses) := by
  induction addresses generalizing l with
  | nil => exact ⟨rfl, h⟩
  | cons a addresses ih =>
    obtain ⟨-, hds, hl⟩ := getMemoryRegionForAddress_step config h a
    obtain ⟨hds', hl'⟩ := ih hl
    exact ⟨hds'.trans hds, hl'⟩

theorem getMemoryRegionForAddress_eq (h : Loaded range gran opt l) (old : List ℕ) (addr : ℕ) :
    ((l.lookups config opt old).getMemoryRegionForAddress config opt addr).1 = opt.adaptiveMemoryIndex.lookup addr :=
  (getMemoryRegionForAddress_step config (lookups_loaded h old).2 addr).1

end Lookup

end MinidumpMemoryList
end Faultloggerd.Minidump
