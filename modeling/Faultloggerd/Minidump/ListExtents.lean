import Faultloggerd.Minidump.ProbeFiles

/-! # The extent of a list stream

`Read` gets the size the directory gives its stream. The memory list and the thread names compare it with their number
of records. The thread list only asks for the four bytes of the count, the module list ignores it: both read on behind
the end of their stream.
-/
namespace Faultloggerd.Minidump
open MinidumpMemoryReader List

inductive ListStream where
  | threads | modules | memory | threadNames

namespace ListStream

def recordSize : ListStream → ℕ
  | .threads => MDRawThread.byteSize
  | .modules => MDRawModule.byteSize
  | .memory => MDMemoryDescriptor.byteSize
  | .threadNames => MDRawThreadName.byteSize

/-- A list on this reader, with any contents, returns true from `Read` and has then this number of records. -/
def Reads (config : ParserConfig) (expectedSize : ℕ) (r : MinidumpMemoryReader) (count : ℕ) : ListStream → Prop
  | .threads => ∃ l l' : MinidumpThreadList, l.memoryReader = some r ∧ l.read config expectedSize = (true, l') ∧
      l'.threadCount = count
  | .modules => ∃ (l l' : MinidumpModuleList) (opt opt' : ProcessOptimizer), l.memoryReader = some r ∧
      l.read config opt = (true, opt', l') ∧ l'.moduleCount = count
  | .memory => ∃ (l l' : MinidumpMemoryList) (opt opt' : PerformanceOptimizer), l.memoryReader = some r ∧
      l.read config.toMinidumpConfig expectedSize opt = (true, opt', l') ∧ l'.regionCount = count
  | .threadNames => ∃ l l' : MinidumpThreadNameList, l.memoryReader = some r ∧
      l.read config expectedSize = (true, l') ∧ l'.threadNameCount = count

/-- The largest number of records the settings and the field admit fits. -/
def Fits (config : ParserConfig) (expectedSize : ℕ) : ListStream → Prop
  | .threads => expectedSize < 4 ∨ 4+MDRawThread.byteSize*min config.maxThreads (2^32-1) ≤ expectedSize
  | .modules => config.maxStringLength = 0 ∨ config.maxModules = 0 ∨
      4+MDRawModule.byteSize*min config.maxModules (2^32-1) ≤ expectedSize
  | .memory | .threadNames => True

end ListStream

variable {config : ParserConfig} {size : ℕ}

theorem leValue_readBytes_lt {r r' : MinidumpMemoryReader} {bytes : List UInt8} (h : r.readBytes 4=some (bytes, r')) :
    leValue bytes<2^32 := by
  rw [readBytes, if_neg (by decide), readFromMmap] at h
  split_ifs at h
  cases h
  exact leValue_take_lt _ 4

namespace MinidumpThreadList

theorem readThreads_threadCount (n : ℕ) (ths : List MinidumpThread) (l : MinidumpThreadList) :
    (readThreads n ths l).2.threadCount=l.threadCount := by
  induction n generalizing ths l with
  | zero => rfl
  | succ n ih =>
    unfold readThreads
    grind

theorem read_count {l l' : MinidumpThreadList} (h : l.read config size=(true, l')) :
    4≤ size ∧ l'.threadCount≤ min config.maxThreads (2^32-1) := by
  unfold read readThreadCount readThreadData at h
  grind [leValue_readBytes_lt, readThreads_threadCount]

def encodeThread (threadId : ℕ) : List UInt8 := leBytes 4 threadId++replicate 44 0

theorem readThreads_encoded {ids : List ℕ} (hi1 : ids.Nodup) (hlt : ∀ i∈ids, i<2^32) (before : List UInt8)
    (ths : List MinidumpThread) {l : MinidumpThreadList} (hm : ∀ e∈l.idToThreadMap, e.1∉ids)
    (hr : l.memoryReader=some ⟨before++ids.flatMap encodeThread, before.length⟩) :
    (readThreads ids.length ths l).1=true := by
  induction ids generalizing before ths l with
  | nil => rfl
  | cons id ids ih =>
    have hr1 : readBytes ⟨before++(id::ids).flatMap encodeThread, before.length⟩ 48 = _ :=
      readBytes_at before (encodeThread id) (ids.flatMap encodeThread)
    have hid : (MDRawThread.decode (encodeThread id)).threadId=id := by
      rw [MDRawThread.decode, encodeThread, take_left' (length_leBytes 4 _), leValue_leBytes (hlt id mem_cons_self)]
    have hn : l.idToThreadMap.any (·.1=id)=false := by
      simp only [any_eq_false, decide_eq_true_eq]
      exact fun e he heq => hm e he (heq ▸ mem_cons_self)
    rw [length_cons, readThreads, hr]
    simp only [MinidumpThread.read, MDRawThread.byteSize, hr1, Option.map_some, MinidumpThread.getThreadID, hid,
      if_true, hn]
    refine ih (nodup_cons.mp hi1).2 (fun i hi => hlt i (mem_cons_of_mem _ hi)) (before++encodeThread id) _ ?_ ?_
    · grind
    · simp

theorem read_encoded {n : ℕ} (hn : 0<n) (hm : n≤ config.maxThreads) (hf : n<2^32)
    (hs : 4≤ size) : ListStream.threads.Reads config size
      ⟨leBytes 4 n++(range n).flatMap encodeThread, 0⟩ n := by
  have hc : readBytes ⟨leBytes 4 n++(range n).flatMap encodeThread, 0⟩ 4 =
      some (leBytes 4 n, ⟨leBytes 4 n++(range n).flatMap encodeThread, 4⟩) := readBytes_at [] (leBytes 4 n) _
  have hv : leValue (leBytes 4 n)=n := leValue_leBytes hf
  let start : MinidumpThreadList := ⟨some ⟨leBytes 4 n++(range n).flatMap encodeThread, 4⟩, false, none, [], none, n⟩
  have ht : (readThreads (range n).length [] start).1=true :=
    readThreads_encoded nodup_range (fun i hi => (mem_range.mp hi).trans hf) (leBytes 4 n) [] nofun rfl
  rw [length_range] at ht
  refine ⟨new _, {(readThreads n [] start).2 with isValid := true, lastError := none}, rfl, ?_,
    readThreads_threadCount _ _ _⟩
  simp only [read, readThreadCount, new, hc, hv, if_neg (not_lt.mpr hs), if_neg (not_lt.mpr hm), if_neg hn.ne']
  split
  · rename_i hf1
    cases ht.symm.trans (congrArg Prod.fst hf1)
  · rename_i hd
    rw [show readThreads n [] start=_ from hd]

end MinidumpThreadList

namespace MinidumpModuleList

variable {opt opt' : ProcessOptimizer} {l l' : MinidumpModuleList}

theorem loop_limit {modules : List (MinidumpModule×ℕ)} (hne : modules≠[]) (hn1 : ∀ m∈modules, m.1.isValid=false)
    {r : MinidumpMemoryReader} (h : readModuleAuxiliaryDataAndIndex config modules r (opt, l)=(true, opt', l')) :
    1≤ config.maxStringLength := by
  cases modules with
  | nil => exact absurd rfl hne
  | cons m modules =>
    simp only [readModuleAuxiliaryDataAndIndex] at h
    split_ifs at h with hn
    · cases h
    · cases h
    · exact readAuxiliaryData_valid rfl (hn1 m mem_cons_self) hn

theorem read_count (h : l.read config opt=(true, opt', l')) :
    1≤ config.maxStringLength ∧ 0<l'.moduleCount ∧ l'.moduleCount≤ min config.maxModules (2^32-1) := by
  simp only [read] at h
  split at h
  · cases h
  split at h
  · cases h
  rename_i hr1
  split_ifs at h with hb
  · cases h
  split at h
  · cases h
  rename_i hr
  split at h
  · cases h
  rename_i hl
  cases h
  obtain ⟨hz, hm⟩ := not_or.mp hb
  refine ⟨loop_limit ?_ ?_ hl, Nat.pos_of_ne_zero hz, le_min (not_lt.mp hm) ?_⟩
  · rw [Ne, zipIdx_eq_nil_iff, map_eq_nil_iff, ←length_eq_zero_iff, readRecords_length _ hr]
    exact hz
  · grind [MinidumpModule.ofRaw]
  · exact Nat.le_pred_of_lt (leValue_readBytes_lt hr1)

theorem read_encoded {n : ℕ} (hn : 0<n) (hm : n≤ config.maxModules) (hf : n<2^32)
    (hl1 : 1≤ config.maxStringLength) : ListStream.modules.Reads config size
      ⟨0::(moduleName++(leBytes 4 n++(replicate n (some 0)).flatMap (encodeModule 1))), 7⟩ n := by
  let rest := leBytes 4 n++(replicate n (some 0)).flatMap (encodeModule 1)
  obtain ⟨l, hl, -⟩ := readModuleAuxiliaryDataAndIndex_probe hl1 [0] rest (by decide) (by decide) (replicate n (some 0))
    (by simp) 0 (11+108*n) (.new config.toMinidumpConfig)
    ⟨some ⟨0::(moduleName++rest), 7⟩, false, none,
      (replicate n (some 0)).map fun member => MinidumpModule.ofRaw (moduleOf 1 member), 0, true⟩ rfl
  have hc : readBytes ⟨0::(moduleName++rest), 7⟩ 4=some (leBytes 4 n, ⟨0::(moduleName++rest), 11⟩) :=
    readBytes_at (0::moduleName) (leBytes 4 n) _
  have hr : readRecords MDRawModule.byteSize n ⟨0::(moduleName++rest), 11⟩=
      (some ((replicate n (some 0)).map (encodeModule 1)), ⟨0::(moduleName++rest), 11+108*n⟩) := by
    have h := readRecords_at (length_encodeModule 1) (replicate n (some 0)) (0::(moduleName++leBytes 4 n)) []
    rw [length_replicate, append_nil] at h
    exact h
  have hv : leValue (leBytes 4 n)=n := leValue_leBytes hf
  have hd : ((replicate n (some 0)).map (encodeModule 1)).map
      (fun bytes => MinidumpModule.ofRaw (MDRawModule.decode bytes)) =
      (replicate n (some 0)).map fun member => MinidumpModule.ofRaw (moduleOf 1 member) := by
    rw [map_replicate, map_replicate, map_replicate, decode_encodeModule (by decide) (by simp)]
  refine ⟨new (some ⟨0::(moduleName++rest), 7⟩) true, {l with moduleCount := n, isValid := true, lastError := none},
    .new config.toMinidumpConfig, ?opt, rfl, ?_, rfl⟩
  rotate_left
  · simp only [read, new, hc, hv, hr, hd, if_neg (by omega : ¬(n=0 ∨ n>config.maxModules))]
    simp only [length_singleton, singleton_append] at hl
    rw [hl]

end MinidumpModuleList

theorem MinidumpMemoryList.buildMemoryRegions_regionCount (config : MinidumpConfig) (ds : List MDMemoryDescriptor)
    (s : PerformanceOptimizer×MinidumpMemoryList) : (buildMemoryRegions config ds s).2.regionCount=s.2.regionCount := by
  refine foldlRecOn (motive := fun t : PerformanceOptimizer×MinidumpMemoryList => t.2.regionCount=s.2.regionCount)
    _ _ rfl fun t ht d _ => ?_
  unfold buildRegion registerMemoryRange
  grind

/-- Every list that `Read` accepts lies inside its stream if and only if the settings admit no longer one. -/
theorem list_inside_iff (config : ParserConfig) (expectedSize : ℕ) (list : ListStream) :
    (∀ r count, list.Reads config expectedSize r count → 4+list.recordSize*count ≤ expectedSize) ↔
      list.Fits config expectedSize := by
  cases list with
  | threads =>
    refine ⟨fun h => ?_, ?_⟩
    · rw [ListStream.Fits, or_iff_not_imp_left, not_lt]
      intro hs
      obtain hz | hp := Nat.eq_zero_or_pos (min config.maxThreads (2^32-1))
      · rwa [hz]
      · exact h _ _ (MinidumpThreadList.read_encoded hp (min_le_left _ _) (by omega) hs)
    · rintro hf r count ⟨l, l', -, h, rfl⟩
      have hr := MinidumpThreadList.read_count h
      grind [ListStream.Fits, ListStream.recordSize, MDRawThread.byteSize]
  | modules =>
    refine ⟨fun h => ?_, ?_⟩
    · rw [ListStream.Fits, or_iff_not_imp_left, or_iff_not_imp_left]
      intro hl hm
      exact h _ _ (MinidumpModuleList.read_encoded (by omega) (min_le_left _ _) (by omega) (Nat.pos_of_ne_zero hl))
    · rintro hf r count ⟨l, l', opt, opt', -, h, rfl⟩
      have hr := MinidumpModuleList.read_count h
      grind [ListStream.Fits, ListStream.recordSize, MDRawModule.byteSize]
  | memory =>
    refine iff_of_true ?_ trivial
    rintro r count ⟨l, l', opt, opt', -, h, rfl⟩
    unfold MinidumpMemoryList.read at h
    grind [ListStream.recordSize, MinidumpMemoryList.buildMemoryRegions_regionCount]
  | threadNames =>
    refine iff_of_true ?_ trivial
    rintro r count ⟨l, l', -, h, rfl⟩
    unfold MinidumpThreadNameList.read at h
    grind [ListStream.recordSize]

/-- A list of one thread is read from a stream of four bytes. -/
theorem short_thread_list_read : ¬∀ (config : ParserConfig) (expectedSize : ℕ) (list : ListStream)
    (r : MinidumpMemoryReader) (count : ℕ), list.Reads config expectedSize r count →
      4+list.recordSize*count ≤ expectedSize := by
  intro h
  have hr : ListStream.threads.Reads {} 4 ⟨_, 0⟩ 1 :=
    MinidumpThreadList.read_encoded (by decide) (by decide) (by decide) (by decide)
  exact absurd (h {} 4 .threads _ 1 hr) (by decide)

end Faultloggerd.Minidump
