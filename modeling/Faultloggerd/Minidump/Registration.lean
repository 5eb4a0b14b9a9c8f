import Faultloggerd.Minidump.Parser
import Mathlib.Data.Nat.Digits.Lemmas

/-! # What a stream registers

Reading a stream inserts ranges into the two adaptive indexes and does nothing else to the optimizer. Which ranges, and
what becomes of the stream, does not depend on what the indexes hold (`MinidumpStream.create_registers`).
-/
namespace Faultloggerd.Minidump
open List AdaptiveAddressIndex MinidumpMemoryRegion Nat

namespace AdaptiveAddressIndex
variable {ε : Type} {range gran : ℕ} {x : AdaptiveAddressIndex ε}

def insertAll (entries : List (IndexEntry ℕ ε)) (x : AdaptiveAddressIndex ε) : AdaptiveAddressIndex ε :=
  entries.foldl (fun x e => (x.insert e.start e.stop e.value).2) x

@[simp] theorem insertAll_nil (x : AdaptiveAddressIndex ε) : insertAll [] x=x := rfl

theorem insertAll_append (es more : List (IndexEntry ℕ ε)) (x : AdaptiveAddressIndex ε) :
    insertAll (es++more) x=insertAll more (insertAll es x) := foldl_append

theorem Built.insertAll (h : Built range gran x) (es : List (IndexEntry ℕ ε)) : Built range gran (x.insertAll es) := by
  induction es generalizing x with
  | nil => exact h
  | cons e es ih => exact ih (h.insert e.start e.stop e.value)

theorem insertAll_masterList (h : Built range gran x) {es : List (IndexEntry ℕ ε)}
    (hle : ∀ e∈es, e.start≤e.stop) : (x.insertAll es).masterList=x.masterList++es := by
  induction es generalizing x with
  | nil => rw [insertAll_nil, append_nil]
  | cons e es ih =>
    have hr : ∀ e∈es, e.start≤e.stop := fun e' he' => hle e' (mem_cons_of_mem e he')
    change (insertAll es (x.insert e.start e.stop e.value).2).masterList=_
    rw [ih (h.insert e.start e.stop e.value) hr, insert_masterList h e (hle e mem_cons_self),
      append_assoc, singleton_append]

end AdaptiveAddressIndex

structure Ranges where
  memory : List (IndexEntry ℕ ℕ)
  modules : List (IndexEntry ℕ ℕ)

namespace Ranges

def empty : Ranges := ⟨[], []⟩

def append (ranges more : Ranges) : Ranges := ⟨ranges.memory++more.memory, ranges.modules++more.modules⟩

structure Admitted (config : ParserConfig) (ranges : Ranges) : Prop where
  memory : ∀ e ∈ ranges.memory, e.start ≤ e.stop ∧ e.start < 2^64 ∧ e.value < config.maxMemoryRegions
  modules : ∀ e ∈ ranges.modules, e.start ≤ e.stop ∧ e.start < 2^64-1 ∧ e.value < config.maxModules
  modules_limit : ranges.modules ≠ [] → 1 ≤ config.maxStringLength

theorem admitted_empty (config : ParserConfig) : empty.Admitted config := ⟨nofun, nofun, fun h => absurd rfl h⟩

theorem Admitted.append {config : ParserConfig} {ranges more : Ranges} (h : ranges.Admitted config)
    (h' : more.Admitted config) : (ranges.append more).Admitted config where
  memory e he := (mem_append.mp he).elim (h.memory e) (h'.memory e)
  modules e he := (mem_append.mp he).elim (h.modules e) (h'.modules e)
  modules_limit hne := by
    by_cases hn : ranges.modules=[]
    · refine h'.modules_limit fun hn' => hne ?_
      rw [Ranges.append, hn, hn', append_nil]
    · exact h.modules_limit hn

end Ranges

namespace ProcessOptimizer

def register (ranges : Ranges) (opt : ProcessOptimizer) : ProcessOptimizer :=
  {opt with
    adaptiveMemoryIndex := opt.adaptiveMemoryIndex.insertAll ranges.memory
    adaptiveModuleIndex := opt.adaptiveModuleIndex.insertAll ranges.modules}

theorem register_append (ranges more : Ranges) (opt : ProcessOptimizer) :
    opt.register (ranges.append more)=(opt.register ranges).register more := by
  simp [register, Ranges.append, insertAll_append]

end ProcessOptimizer

/-- A read that registers the same ranges and ends the same way whatever the optimizer holds. -/
def Registers {σ : Type} (config : ParserConfig) (read : ProcessOptimizer → Bool×ProcessOptimizer×σ) : Prop :=
  ∃ ok ranges s, (∀ opt, read opt=(ok, opt.register ranges, s)) ∧ ranges.Admitted config

theorem registers_nothing {σ : Type} {config : ParserConfig} {read : ProcessOptimizer → Bool×ProcessOptimizer×σ}
    {ok : Bool} {s : σ} (h : ∀ opt, read opt=(ok, opt, s)) : Registers config read :=
  ⟨ok, .empty, s, h, Ranges.admitted_empty config⟩

theorem leValue_lt (bytes : List UInt8) : leValue bytes<256^bytes.length := by
  have hd : ∀ x∈bytes.map UInt8.toNat, x<256 := by
    intro x hx
    obtain ⟨b, -, rfl⟩ := mem_map.mp hx
    exact b.toNat_lt
  have h := ofDigits_lt_base_pow_length (by decide) hd
  rwa [length_map] at h

theorem leValue_take_lt (bytes : List UInt8) (n : ℕ) : leValue (bytes.take n)<256^n :=
  (leValue_lt _).trans_le (Nat.pow_le_pow_right (by decide) (length_take_le n bytes))

namespace MinidumpMemoryList
variable {config : MinidumpConfig}

def entriesOf (ds : List (MDMemoryDescriptor×ℕ)) : List (IndexEntry ℕ ℕ) :=
  (ds.filter fun d => d.1.Fits).map entryOf

theorem foldl_buildRegion_entries (ds : List (MDMemoryDescriptor×ℕ)) (opt : PerformanceOptimizer)
    (l : MinidumpMemoryList) (hi : l.addressIndex=true) : ds.foldl (buildRegion config) (opt, l) =
      ({opt with adaptiveMemoryIndex := opt.adaptiveMemoryIndex.insertAll (entriesOf ds)},
        {l with regions := l.regions++ds.map fun d => ofDescriptor d.1}) := by
  induction ds generalizing opt l with
  | nil =>
    rw [map_nil, append_nil]
    rfl
  | cons d ds ih =>
    rw [foldl_cons]
    by_cases hf : d.1.Fits
    · rw [buildRegion_fits d hf hi]
      refine (ih _ _ (by exact hi)).trans ?_
      simp only [entriesOf, filter_cons, hf, append_assoc]
      rfl
    · have hs : buildRegion config (opt, l) d = (opt, {l with regions := l.regions++[ofDescriptor d.1]}) := by
        simp [buildRegion, if_neg hf]
      rw [hs]
      refine (ih _ _ (by exact hi)).trans ?_
      simp [entriesOf, hf]

theorem decode_start_lt (bytes : List UInt8) : (MDMemoryDescriptor.decode bytes).startOfMemoryRange<2^64 :=
  leValue_take_lt bytes 8

theorem readRegionCountAndDescriptors_bounds {l l' : MinidumpMemoryList} {ds : List MDMemoryDescriptor}
    (h : l.readRegionCountAndDescriptors config=(some ds, l')) :
    ds.length≤ config.maxMemoryRegions ∧ ∀ d∈ds, d.startOfMemoryRange<2^64 := by
  simp only [readRegionCountAndDescriptors] at h
  split at h
  · cases h
  split at h
  · cases h
  split_ifs at h with hm hz
  · cases h
  · cases h
  split at h
  · cases h
  · cases h
    refine ⟨by simpa using hm, fun d hd => ?_⟩
    obtain ⟨i, -, rfl⟩ := mem_map.mp hd
    exact decode_start_lt _

theorem read_registers (config : ParserConfig) (size : ℕ) (l : MinidumpMemoryList)
    (hi : l.addressIndex=true) : Registers config fun opt =>
      let (ok, mem, l) := l.read config.toMinidumpConfig size opt.toPerformanceOptimizer
      (ok, {opt with toPerformanceOptimizer := mem}, l) := by
  unfold read
  cases hr : l.readRegionCountAndDescriptors config.toMinidumpConfig with
  | mk descriptors l1 =>
    cases descriptors with
    | none => exact registers_nothing fun _ => rfl
    | some descriptors =>
      obtain ⟨-, r, hl1⟩ := readRegionCountAndDescriptors_some hr
      have hi1 : l1.addressIndex=true := by rw [hl1, hi]
      dsimp only
      split_ifs with hs1
      · exact registers_nothing fun _ => rfl
      · obtain ⟨hm1, hs⟩ := readRegionCountAndDescriptors_bounds hr
        refine ⟨true, ⟨entriesOf descriptors.zipIdx, []⟩, {l1 with
            regions := l1.regions++descriptors.zipIdx.map fun d => ofDescriptor d.1
            descriptors := descriptors
            isValid := true
            lastError := none}, fun opt => ?_, ?_, nofun, fun h => absurd rfl h⟩
        · simp only [buildMemoryRegions, foldl_buildRegion_entries _ _ _ hi1]
          rfl
        · intro e he
          obtain ⟨d, hd, rfl⟩ := mem_map.mp he
          have hm := (mem_filter.mp hd).1
          have hlt := snd_lt_of_mem_zipIdx hm
          exact ⟨le_add_right _ _, hs d.1 (fst_mem_of_mem_zipIdx hm), hlt.trans_le hm1⟩

end MinidumpMemoryList

theorem MinidumpMemoryReader.readString_limit {config : ParserConfig} {off : ℕ} {r r' : MinidumpMemoryReader}
    {name : List UInt8} (h : r.readString config off=(some name, r')) : 1≤ config.maxStringLength := by
  rw [readString] at h
  split at h
  · cases h
  split at h
  · cases h
  dsimp only at h
  split_ifs at h with hz hm
  · cases h
  · cases h
  · omega

theorem MinidumpMemoryReader.readRecords_length {byteSize n : ℕ} (r : MinidumpMemoryReader)
    {r' : MinidumpMemoryReader} {recs : List (List UInt8)}
    (h : r.readRecords byteSize n=(some recs, r')) : recs.length=n := by
  induction n generalizing r recs with
  | zero =>
    cases h
    rfl
  | succ n ih =>
    rw [readRecords] at h
    split at h
    · cases h
    split at h
    · cases h
    · rename_i rest r2 hr
      cases h
      rw [length_cons, ih _ hr]

namespace MinidumpModuleList
variable {config : ParserConfig}

theorem readAuxiliaryData_valid {r r' : MinidumpMemoryReader} {m m' : MinidumpModule} {ok : Bool}
    (h : m.readAuxiliaryData config r=(ok, m', r')) (hm : m.isValid=false) (hok : ¬(!ok && !m'.isValid)=true) :
    1≤ config.maxStringLength := by
  cases hn : r.readString config m.module.moduleNameRva with
  | mk name r1 =>
    cases name with
    | some name => exact MinidumpMemoryReader.readString_limit hn
    | none =>
      rw [MinidumpModule.readAuxiliaryData, hn] at h
      split_ifs at h <;> cases h <;> simp [hm] at hok

def rangeOf (base size i : ℕ) : List (IndexEntry ℕ ℕ) :=
  if base+size ≥ 2^64 then [] else [⟨base, base+size, i⟩]

theorem registerModuleRange_eq (config : ParserConfig) (base size i : ℕ) (opt : ProcessOptimizer)
    {l : MinidumpModuleList} (hi : l.addressIndex=true) : ∃ e, registerModuleRange config base size i (opt, l) =
      ({opt with adaptiveModuleIndex := opt.adaptiveModuleIndex.insertAll (rangeOf base size i)},
        {l with lastError := e}) := by
  rw [registerModuleRange, rangeOf]
  dsimp only
  by_cases hs : base+size ≥ 2^64
  · rw [if_pos hs, if_pos hs]
    exact ⟨_, rfl⟩
  rw [if_neg hs, if_neg hs, if_pos hi]
  by_cases hok : (opt.adaptiveModuleIndex.insert base (base+size) i).1=true
  · rw [if_pos hok]
    exact ⟨l.lastError, rfl⟩
  · rw [if_neg hok]
    exact ⟨_, rfl⟩

theorem readModuleAuxiliaryDataAndIndex_registers (config : ParserConfig) (modules : List (MinidumpModule×ℕ))
    (r : MinidumpMemoryReader) (l : MinidumpModuleList) (hi : l.addressIndex=true)
    (hn : ∀ m∈modules, m.1.isValid=false) : ∃ ok es reader loaded error,
      (∀ opt e0, ∃ e, readModuleAuxiliaryDataAndIndex config modules r (opt, {l with lastError := e0}) =
        (ok, {opt with adaptiveModuleIndex := opt.adaptiveModuleIndex.insertAll es},
          {l with memoryReader := reader, modules := loaded, lastError := e}) ∧ (ok=false → e=error)) ∧
      (∀ e∈es, e.start≤e.stop ∧ e.start<2^64-1 ∧ ∃ m∈modules, m.2=e.value) ∧ (es≠[] → 1≤ config.maxStringLength) := by
  induction modules generalizing r l with
  | nil => exact ⟨true, [], some r, l.modules, none, fun opt e0 => ⟨e0, rfl, nofun⟩, nofun, fun h => absurd rfl h⟩
  | cons m modules ih =>
    obtain ⟨m, i⟩ := m
    cases ha : m.readAuxiliaryData config r with
    | mk ok rest =>
      obtain ⟨m', r'⟩ := rest
      simp only [readModuleAuxiliaryDataAndIndex, ha]
      split_ifs with hn1 hb
      · exact ⟨false, [], some r', l.modules.set i m', some (.stringRead, "Cannot read module name"),
          fun opt e0 => ⟨_, rfl, fun _ => rfl⟩, nofun, fun h => absurd rfl h⟩
      · exact ⟨false, [], some r', l.modules.set i m', some (.corruptedData, "Invalid module base address"),
          fun opt e0 => ⟨_, rfl, fun _ => rfl⟩, nofun, fun h => absurd rfl h⟩
      have hl := readAuxiliaryData_valid ha (hn (m, i) mem_cons_self) hn1
      obtain ⟨ok', es, reader, loaded, error, hl1, hr1, -⟩ :=
        ih r' {l with modules := l.modules.set i m'} hi fun m hm => hn m (mem_cons_of_mem _ hm)
      have he1 : ∀ e∈es, e.start≤e.stop ∧ e.start<2^64-1 ∧ ∃ x∈(m, i)::modules, x.2=e.value := by grind
      refine ⟨ok', rangeOf m'.baseAddress m'.size i++es, reader, loaded, error, fun opt e0 => ?_, ?_, fun _ => hl⟩
      · obtain ⟨e1, hr⟩ := registerModuleRange_eq config m'.baseAddress m'.size i opt
          (l := {l with lastError := e0, modules := l.modules.set i m'}) hi
        rw [hr, insertAll_append]
        exact hl1 {opt with adaptiveModuleIndex := _} e1
      · intro e he
        rcases mem_append.mp he with he | he
        · rw [rangeOf] at he
          split_ifs at he
          · cases he
          · rw [mem_singleton.mp he]
            exact ⟨le_add_right _ _, by change m'.baseAddress<_; omega, (m, i), mem_cons_self, rfl⟩
        · exact he1 e he

theorem readModules_registers {modules : List MinidumpModule} (hn : ∀ m∈modules, m.isValid=false)
    (hm1 : modules.length≤ config.maxModules) (r : MinidumpMemoryReader) (l : MinidumpModuleList)
    (hi : l.addressIndex=true) (count : ℕ) : Registers config fun opt =>
      match readModuleAuxiliaryDataAndIndex config modules.zipIdx r (opt, l) with
      | (false, opt, l) => (false, opt, l)
      | (true, opt, l) => (true, opt, {l with moduleCount := count, isValid := true, lastError := none}) := by
  obtain ⟨ok, es, reader, loaded, error, hl1, he1, hl⟩ :=
    readModuleAuxiliaryDataAndIndex_registers config modules.zipIdx r l hi
      fun m hm => hn m.1 (fst_mem_of_mem_zipIdx hm)
  have ha : (Ranges.mk [] es).Admitted config := by
    refine ⟨nofun, fun e he => ?_, hl⟩
    obtain ⟨hle, hlt, m, hm, hv⟩ := he1 e he
    exact ⟨hle, hlt, hv ▸ (snd_lt_of_mem_zipIdx hm).trans_le hm1⟩
  refine ⟨ok, ⟨[], es⟩, if ok then {l with
    memoryReader := reader
    modules := loaded
    moduleCount := count
    isValid := true
    lastError := none} else {l with memoryReader := reader, modules := loaded, lastError := error}, fun opt => ?_, ha⟩
  obtain ⟨e, heq, he2⟩ : ∃ e, readModuleAuxiliaryDataAndIndex config modules.zipIdx r (opt, l)=_ ∧ _ :=
    hl1 opt l.lastError
  dsimp only
  rw [heq]
  cases ok with
  | false =>
    obtain rfl := he2 rfl
    rfl
  | true => rfl

theorem read_registers (l : MinidumpModuleList) (hi : l.addressIndex=true) :
    Registers config fun opt => l.read config opt := by
  unfold read
  cases l.memoryReader with
  | none => exact registers_nothing fun _ => rfl
  | some r =>
    dsimp only
    cases r.readBytes 4 with
    | none => exact registers_nothing fun _ => rfl
    | some got =>
      obtain ⟨bytes, r1⟩ := got
      dsimp only
      split_ifs with hb
      · exact registers_nothing fun _ => rfl
      cases hr : r1.readRecords MDRawModule.byteSize (leValue bytes) with
      | mk recs r2 =>
        cases recs with
        | none => exact registers_nothing fun _ => rfl
        | some recs =>
          refine readModules_registers (fun m hm => ?_) ?_ r2 _ ?_ (leValue bytes)
          · obtain ⟨bytes, -, rfl⟩ := mem_map.mp hm
            rfl
          · rw [length_map, r1.readRecords_length hr]
            omega
          · exact hi

end MinidumpModuleList

theorem Registers.map {σ τ : Type} {config : ParserConfig} {read : ProcessOptimizer → Bool×ProcessOptimizer×σ}
    (h : Registers config read) (f : σ → τ) :
    Registers config fun opt => ((read opt).1, (read opt).2.1, f (read opt).2.2) := by
  obtain ⟨ok, ranges, s, hr, ha⟩ := h
  refine ⟨ok, ranges, f s, fun opt => ?_, ha⟩
  simp [hr]

theorem some_of_ite {α : Type} {c : Prop} [Decidable c] {a s : α} {b : Option α}
    (h : (if c then some a else b)=some s) : s=a ∨ b=some s := by
  by_cases hc : c
  · rw [if_pos hc] at h
    exact .inl (Option.some.inj h).symm
  · rw [if_neg hc] at h
    exact .inr h

theorem MinidumpStream.create_registers {config : ParserConfig} {type : ℕ} {r : MinidumpMemoryReader}
    {s : MinidumpStream} (h : create config type r=some s) (size : ℕ) :
    Registers config fun opt => s.read config size opt := by
  iterate 2
    obtain rfl | h := some_of_ite h
    · exact registers_nothing fun opt => rfl
  obtain rfl | h := some_of_ite h
  · exact (MinidumpModuleList.read_registers (.new r true) rfl).map moduleList
  obtain rfl | h := some_of_ite h
  · exact (MinidumpMemoryList.read_registers config size (.new config.toMinidumpConfig r true) rfl).map
      memoryList
  -- no other stream has ranges
  iterate 5
    obtain rfl | h := some_of_ite h
    · exact registers_nothing fun opt => rfl
  cases h

end Faultloggerd.Minidump
