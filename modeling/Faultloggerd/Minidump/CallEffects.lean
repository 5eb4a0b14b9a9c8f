import Faultloggerd.Minidump.Registration

/-! # What a call on a parser registers

Up to the lookup caches a call does not depend on what the indexes hold: two parsers that differ in their caches alone
register the same ranges and go on differing in their caches alone (`Operation.step_sameEffect`). Only a parser that
parsed its file registers anything.
-/
namespace Faultloggerd.Minidump
open MinidumpStream Option Function MinidumpMemoryList

def MinidumpStream.withoutCache : MinidumpStream → MinidumpStream
  | .memoryList l => .memoryList {l with addressCache := LruCache.empty 0}
  | s => s

def MinidumpStreamInfo.withoutCache (info : MinidumpStreamInfo) : MinidumpStreamInfo :=
  {info with stream := info.stream.map MinidumpStream.withoutCache}

namespace MinidumpParser

/-- Parsers that differ in the caches of their streams alone. -/
def Similar (p q : MinidumpParser) : Prop :=
  ∃ m, q = {p with streamMap := m} ∧
    ∀ t, (m t).map MinidumpStreamInfo.withoutCache = (p.streamMap t).map MinidumpStreamInfo.withoutCache

variable {config : ParserConfig} {p q : MinidumpParser}

theorem Similar.refl (p : MinidumpParser) : Similar p p := ⟨p.streamMap, rfl, fun _ => rfl⟩

theorem streamMap_cases {a b : Option MinidumpStreamInfo}
    (h : b.map MinidumpStreamInfo.withoutCache=a.map MinidumpStreamInfo.withoutCache) :
    (a=none ∧ b=none) ∨ ∃ index s s', a=some ⟨index, s⟩ ∧ b=some ⟨index, s'⟩ ∧
      s'.map withoutCache=s.map withoutCache := by
  cases a with
  | none =>
    cases b with
    | none => exact .inl ⟨rfl, rfl⟩
    | some i => cases h
  | some i =>
    cases b with
    | none => cases h
    | some j =>
      obtain ⟨index, s⟩ := i
      obtain ⟨index', s'⟩ := j
      simp only [map_some, MinidumpStreamInfo.withoutCache, some.injEq, MinidumpStreamInfo.mk.injEq] at h
      obtain ⟨rfl, hs⟩ := h
      exact .inr ⟨index', s, s', rfl, rfl, hs⟩

theorem isSome_of_similar {s s' : Option MinidumpStream}
    (h : s'.map withoutCache=s.map withoutCache) : s'.isSome=s.isSome := by
  have h' := congrArg isSome h
  rwa [isSome_map, isSome_map] at h'

def Alike (x y : Bool×MinidumpParser) : Prop := y.1 = x.1 ∧ Similar x.2 y.2

theorem Alike.cases {x y : Bool×MinidumpParser} (h : Alike x y) : ∃ ok p q, x=(ok, p) ∧ y=(ok, q) ∧ Similar p q :=
  ⟨x.1, x.2, y.2, rfl, by rw [←h.1], h.2⟩

variable (t : ℕ) (h : Similar p q)
include h

theorem validateFileHeader_alike : Alike (p.validateFileHeader config) (q.validateFileHeader config) := by
  obtain ⟨m, rfl, hm⟩ := h
  unfold validateFileHeader
  split_ifs <;> exact ⟨rfl, m, rfl, hm⟩

theorem readMinidumpHeader_alike : Alike (p.readMinidumpHeader config) (q.readMinidumpHeader config) := by
  obtain ⟨m, rfl, hm⟩ := h
  cases hread : (MinidumpMemoryReader.mk p.file 0).readBytes MDRawHeader.byteSize with
  | none =>
    simp only [readMinidumpHeader, hread]
    exact ⟨rfl, m, rfl, hm⟩
  | some got =>
    simp only [readMinidumpHeader, hread]
    split_ifs
    · exact ⟨rfl, m, rfl, hm⟩
    · exact validateFileHeader_alike ⟨m, rfl, hm⟩

theorem registerStreamDirectoryEntry_alike (entry : MDRawDirectory) (index : ℕ) :
    Alike (p.registerStreamDirectoryEntry entry index) (q.registerStreamDirectoryEntry entry index) := by
  obtain ⟨m, rfl, hm⟩ := h
  have hs1 : (m entry.streamType).isSome=(p.streamMap entry.streamType).isSome := by
    have h' := congrArg isSome (hm entry.streamType)
    rwa [isSome_map, isSome_map] at h'
  unfold registerStreamDirectoryEntry
  rw [hs1]
  split_ifs
  · exact ⟨rfl, m, rfl, hm⟩
  · refine ⟨rfl, _, rfl, fun t => ?_⟩
    dsimp only
    by_cases ht : t=entry.streamType
    · subst ht
      rw [update_self, update_self]
      obtain ⟨ha, hb⟩ | ⟨i, s, s', ha, hb, hs⟩ := streamMap_cases (hm entry.streamType)
      · rw [ha, hb]
      · rw [ha, hb]
        simp [MinidumpStreamInfo.withoutCache, hs]
    · rw [update_of_ne ht, update_of_ne ht]
      exact hm t

theorem registerEntries_alike (es : List (MDRawDirectory×ℕ)) :
    Alike (registerEntries es p) (registerEntries es q) := by
  induction es generalizing p q with
  | nil => exact ⟨rfl, h⟩
  | cons e es ih =>
    obtain ⟨ok, p', q', hp, hq, hs⟩ := (registerStreamDirectoryEntry_alike h e.1 e.2).cases
    rw [registerEntries, registerEntries, hp, hq]
    cases ok with
    | false => exact ⟨rfl, hs⟩
    | true => exact ih hs

theorem readStreamDirectory_alike : Alike p.readStreamDirectory q.readStreamDirectory := by
  obtain ⟨m, rfl, hm⟩ := h
  obtain ⟨file, header, dir, streamMap, reader, valid, error⟩ := p
  unfold readStreamDirectory
  split_ifs
  · exact ⟨rfl, m, rfl, hm⟩
  cases reader with
  | none => exact ⟨rfl, m, rfl, hm⟩
  | some r =>
    dsimp only
    cases r.seekSet header.streamDirectoryRva with
    | none => exact ⟨rfl, m, rfl, hm⟩
    | some r =>
      dsimp only
      cases r.readBytes (MDRawDirectory.byteSize*header.numberOfStreams) with
      | none => exact ⟨rfl, m, rfl, hm⟩
      | some got =>
        dsimp only
        generalize (List.range header.numberOfStreams).map (MDRawDirectory.decodeAt got.1)=entries
        have he : Alike
            (registerEntries entries.zipIdx ⟨file, header, dir, streamMap, some got.2, valid, error⟩)
            (registerEntries entries.zipIdx ⟨file, header, dir, m, some got.2, valid, error⟩) :=
          registerEntries_alike (by exact ⟨m, rfl, hm⟩) _
        obtain ⟨ok, p', q', hp, hq, m', rfl, hm'⟩ := he.cases
        rw [hp, hq]
        cases ok with
        | false | true => exact ⟨rfl, m', rfl, hm'⟩

theorem parse_alike (config : ParserConfig) : Alike (p.parse config) (q.parse config) := by
  obtain ⟨m, rfl, hm⟩ := h
  have hh : Alike ({p with isValid := false}.readMinidumpHeader config)
      ({p with isValid := false, streamMap := m}.readMinidumpHeader config) := readMinidumpHeader_alike ⟨m, rfl, hm⟩
  obtain ⟨ok, p1, q1, hp, hq, hs⟩ := hh.cases
  unfold parse
  rw [hp, hq]
  cases ok with
  | false => exact ⟨rfl, hs⟩
  | true =>
    obtain ⟨ok, p2, q2, hp, hq, m', rfl, hm'⟩ := (readStreamDirectory_alike hs).cases
    dsimp only
    rw [hp, hq]
    cases ok with
    | false | true => exact ⟨rfl, m', rfl, hm'⟩

theorem getDirectoryEntryAtType_similar : q.getDirectoryEntryAtType t=p.getDirectoryEntryAtType t := by
  obtain ⟨m, rfl, hm⟩ := h
  unfold getDirectoryEntryAtType
  dsimp only
  obtain ⟨ha, hb⟩ | ⟨i, s, s', ha, hb, -⟩ := streamMap_cases (hm t)
  · rw [ha, hb]
    rfl
  · rw [ha, hb]
    rfl

theorem seekToStreamType_similar : (q.seekToStreamType t).1=(p.seekToStreamType t).1 ∧
      Similar (p.seekToStreamType t).2 (q.seekToStreamType t).2 := by
  have hentry := getDirectoryEntryAtType_similar t h
  obtain ⟨m, rfl, hm⟩ := h
  unfold seekToStreamType
  rw [hentry]
  generalize p.getDirectoryEntryAtType t=entry
  obtain ⟨file, header, dir, streamMap, reader, valid, error⟩ := p
  split_ifs
  · exact ⟨rfl, m, rfl, hm⟩
  cases entry with
  | none => exact ⟨rfl, m, rfl, hm⟩
  | some entry =>
    cases reader with
    | none => exact ⟨rfl, m, rfl, hm⟩
    | some r =>
      dsimp only
      split_ifs
      · exact ⟨rfl, m, rfl, hm⟩
      cases r.seekSet entry.rva with
      | none | some r => exact ⟨rfl, m, rfl, hm⟩

theorem setStream_similar {s s' : MinidumpStream} (hs : s'.withoutCache=s.withoutCache) :
    Similar (p.setStream t s) (q.setStream t s') := by
  obtain ⟨m, rfl, hm⟩ := h
  refine ⟨_, rfl, fun u => ?_⟩
  dsimp only [setStream]
  by_cases hu : u=t
  · subst hu
    rw [update_self, update_self]
    obtain ⟨ha, hb⟩ | ⟨i, s, s', ha, hb, -⟩ := streamMap_cases (hm u)
    · rw [ha, hb]
      rfl
    · rw [ha, hb]
      simp [MinidumpStreamInfo.withoutCache, hs]
  · rw [update_of_ne hu, update_of_ne hu]
    exact hm u

/-- Calls on two parsers that register the same ranges, if any, and leave the parsers similar. -/
def SameEffect (config : ParserConfig) (valid : Bool) (f g : ProcessOptimizer → MinidumpParser×ProcessOptimizer) :
    Prop :=
  ∃ ranges, ranges.Admitted config ∧ (valid=false → ranges = .empty) ∧ ∀ opt opt',
    (f opt).2 = opt.register ranges ∧ (g opt').2 = opt'.register ranges ∧ Similar (f opt).1 (g opt').1

theorem sameEffect_nothing {valid : Bool} : SameEffect config valid (fun opt => (p, opt)) fun opt => (q, opt) :=
  ⟨.empty, Ranges.admitted_empty config, fun _ => rfl, fun _ _ => ⟨rfl, rfl, h⟩⟩

theorem loadStream_sameEffect :
    SameEffect config true (fun opt => (p.loadStream config t opt).2) fun opt => (q.loadStream config t opt).2 := by
  obtain ⟨hf, hs⟩ := seekToStreamType_similar t h
  unfold loadStream
  generalize p.seekToStreamType t=x at *
  generalize q.seekToStreamType t=y at *
  obtain ⟨found, p'⟩ := x
  obtain ⟨found', q'⟩ := y
  obtain rfl : found'=found := hf
  cases found' with
  | none => exact sameEffect_nothing hs
  | some found =>
    obtain ⟨r, length⟩ := found
    dsimp only
    cases hcreate : create config t r with
    | none => exact sameEffect_nothing hs
    | some stream =>
      obtain ⟨ok, ranges, s, hread, hadmitted⟩ := create_registers hcreate length
      refine ⟨ranges, hadmitted, nofun, fun opt opt' => ?_⟩
      obtain ⟨m, rfl, hm⟩ := hs
      simp only [hread]
      cases ok with
      | false => exact ⟨rfl, rfl, m, rfl, hm⟩
      | true => exact ⟨rfl, rfl, setStream_similar t (by exact ⟨m, rfl, hm⟩) rfl⟩

theorem Similar.isValid_eq : q.isValid=p.isValid := by
  obtain ⟨m, rfl, -⟩ := h
  rfl

theorem Similar.streamMap_map :
    (q.streamMap t).map MinidumpStreamInfo.withoutCache=(p.streamMap t).map MinidumpStreamInfo.withoutCache := by
  obtain ⟨m, rfl, hm⟩ := h
  exact hm t

theorem getStream_sameEffect :
    SameEffect config p.isValid (fun opt => (p.getStream config t opt).2) fun opt => (q.getStream config t opt).2 := by
  have hvalid := h.isValid_eq
  unfold getStream
  cases hv : p.isValid with
  | false =>
    rw [hv] at hvalid
    simp only [hvalid]
    exact sameEffect_nothing h
  | true =>
    rw [hv] at hvalid
    simp only [hvalid]
    obtain ⟨ha, hb⟩ | ⟨i, s, s', ha, hb, hs⟩ := streamMap_cases (h.streamMap_map t)
    · rw [ha, hb]
      exact sameEffect_nothing h
    · rw [ha, hb]
      dsimp only
      rw [isSome_of_similar hs]
      cases s with
      | some s =>
        obtain ⟨m, rfl, hm⟩ := h
        exact sameEffect_nothing (by exact ⟨m, rfl, hm⟩)
      | none => exact loadStream_sameEffect t h

theorem injectStream_similar (s : MinidumpStream) : Similar (p.injectStream t s) (q.injectStream t s) := by
  unfold injectStream
  rw [h.isValid_eq]
  split_ifs
  · exact h
  obtain ⟨ha, hb⟩ | ⟨i, s1, s2, ha, hb, hs⟩ := streamMap_cases (h.streamMap_map t)
  · rw [ha, hb]
    exact h
  · rw [ha, hb]
    dsimp only
    rw [isSome_of_similar hs]
    split_ifs
    · exact h
    · exact setStream_similar t h rfl

theorem injectStreams_similar (streams : List (ℕ×Option MinidumpStream)) :
    Similar (injectStreams streams p) (injectStreams streams q) := by
  induction streams generalizing p q with
  | nil => exact h
  | cons s streams ih =>
    obtain ⟨t, s⟩ := s
    cases s with
    | none => exact ih h
    | some s => exact ih (injectStream_similar t h s)

theorem parseStream_similar (opt : ProcessOptimizer) : q.parseStream config t opt=p.parseStream config t opt := by
  have hentry := getDirectoryEntryAtType_similar t h
  obtain ⟨m, rfl, -⟩ := h
  unfold parseStream
  rw [hentry]

theorem parseStreams_similar (types : List ℕ) (opt : ProcessOptimizer) :
    q.parseStreams config types opt=p.parseStreams config types opt := by
  induction types generalizing opt with
  | nil => rfl
  | cons t types ih => simp [parseStreams, parseStream_similar t h, ih]

omit h in
theorem parseStream_registers (config : ParserConfig) (t : ℕ) (p : MinidumpParser) :
    ∃ ranges stream, ranges.Admitted config ∧ (p.isValid=false → ranges = .empty) ∧
      ∀ opt, p.parseStream config t opt = (stream, opt.register ranges) := by
  have hempty := Ranges.admitted_empty config
  unfold parseStream
  cases hentry : p.getDirectoryEntryAtType t with
  | none => exact ⟨.empty, none, hempty, fun _ => rfl, fun opt => rfl⟩
  | some entry =>
    have hvalid : p.isValid=true := by
      by_contra hv
      rw [getDirectoryEntryAtType, if_pos (by simpa using hv)] at hentry
      cases hentry
    dsimp only
    split_ifs
    · exact ⟨.empty, none, hempty, fun _ => rfl, fun opt => rfl⟩
    cases (MinidumpMemoryReader.mk p.file 0).seekSet entry.rva with
    | none => exact ⟨.empty, none, hempty, fun _ => rfl, fun opt => rfl⟩
    | some r =>
      dsimp only
      cases hcreate : create config t r with
      | none => exact ⟨.empty, none, hempty, fun _ => rfl, fun opt => rfl⟩
      | some stream =>
        obtain ⟨ok, ranges, s, hread, hadmitted⟩ := create_registers hcreate entry.dataSize
        have hinvalid : p.isValid=false → ranges=.empty := fun hv => by rw [hvalid] at hv; cases hv
        refine ⟨ranges, if ok then some s else none, hadmitted, hinvalid, fun opt => ?_⟩
        cases ok <;> simp [hread]

omit h in
theorem parseStreams_registers (config : ParserConfig) (types : List ℕ) (p : MinidumpParser) :
    ∃ ranges streams, ranges.Admitted config ∧ (p.isValid=false → ranges = .empty) ∧
      ∀ opt, p.parseStreams config types opt = (streams, opt.register ranges) := by
  induction types with
  | nil => exact ⟨.empty, [], Ranges.admitted_empty config, fun _ => rfl, fun opt => rfl⟩
  | cons t types ih =>
    obtain ⟨first, stream, hfirst, hvalid, hstream⟩ := parseStream_registers config t p
    obtain ⟨ranges, streams, hranges, hvalid', hstreams⟩ := ih
    refine ⟨first.append ranges, (t, stream)::streams, hfirst.append hranges, fun hv => ?_, fun opt => ?_⟩
    · rw [hvalid hv, hvalid' hv]
      rfl
    · simp [parseStreams, hstream, hstreams, ProcessOptimizer.register_append]

theorem parseParallel_sameEffect (types : List ℕ) :
    SameEffect config p.isValid (p.parseParallel config types) (q.parseParallel config types) := by
  unfold parseParallel
  cases config.enableParallelParsing with
  | false => exact sameEffect_nothing h
  | true =>
    obtain ⟨ranges, streams, hadmitted, hvalid, hstreams⟩ := parseStreams_registers config types p
    refine ⟨ranges, hadmitted, hvalid, fun opt opt' => ?_⟩
    simp only [parseStreams_similar h types, hstreams, Bool.not_true, Bool.false_eq_true, if_false]
    exact ⟨trivial, trivial, injectStreams_similar h streams⟩

theorem Similar.stream_map : (q.stream t).map withoutCache=(p.stream t).map withoutCache := by
  unfold stream
  obtain ⟨ha, hb⟩ | ⟨i, s, s', ha, hb, hs⟩ := streamMap_cases (h.streamMap_map t)
  · rw [ha, hb]
  · rw [ha, hb]
    exact hs

end MinidumpParser

theorem getMemoryRegionForAddress_withoutCache (config : MinidumpConfig) (opt : PerformanceOptimizer)
    (l : MinidumpMemoryList) (addr : ℕ) :
    (memoryList (l.getMemoryRegionForAddress config opt addr).2).withoutCache=(memoryList l).withoutCache := by
  unfold getMemoryRegionForAddress
  split_ifs
  · rfl
  dsimp only
  split
  · rfl
  · split <;> rfl

namespace Operation
open MinidumpParser
variable {config : ParserConfig} {p q : MinidumpParser}

theorem lookup_sameEffect (a : ℕ) (h : Similar p q) :
    SameEffect config p.isValid (fun opt => ((getMemoryRegionForAddress a).step config p opt).2)
      fun opt => ((getMemoryRegionForAddress a).step config q opt).2 := by
  have hstream := h.stream_map MDStreamType.memoryList
  unfold step
  generalize p.stream MDStreamType.memoryList=a1 at *
  generalize q.stream MDStreamType.memoryList=a2 at *
  cases a1 with
  | none =>
    cases a2 with
    | none => exact sameEffect_nothing h
    | some s' => cases hstream
  | some s =>
    cases a2 with
    | none => cases hstream
    | some s' =>
      have hs : s'.withoutCache=s.withoutCache := some.inj hstream
      cases s with
      | memoryList l =>
        cases s' with
        | memoryList k =>
          refine ⟨.empty, Ranges.admitted_empty config, fun _ => rfl, fun opt opt' => ⟨rfl, rfl, ?_⟩⟩
          apply setStream_similar _ h
          rw [getMemoryRegionForAddress_withoutCache, hs, getMemoryRegionForAddress_withoutCache]
        | _ => cases hs
      | _ =>
        cases s' with
        | memoryList k => cases hs
        | _ => exact sameEffect_nothing h

theorem step_sameEffect (config : ParserConfig) (op : Operation) (h : Similar p q) :
    SameEffect config p.isValid (fun opt => (op.step config p opt).2) fun opt => (op.step config q opt).2 := by
  cases op with
  | parse => exact sameEffect_nothing (parse_alike h config).2
  | getStream t => exact getStream_sameEffect t h
  | parseParallel types => exact parseParallel_sameEffect h types
  | getMemoryRegionForAddress a => exact lookup_sameEffect a h
  | _ => exact sameEffect_nothing h

end Operation

namespace MinidumpParser
variable {config : ParserConfig} {p : MinidumpParser}

theorem readMinidumpHeader_limit (h : (p.readMinidumpHeader config).1=true) : 1≤ config.maxStreams := by
  unfold readMinidumpHeader at h
  dsimp only at h
  split at h
  · cases h
  unfold validateFileHeader at h
  split_ifs at h with _ _ _ _ hc
  omega

theorem readMinidumpHeader_isValid : (p.readMinidumpHeader config).2.isValid=p.isValid := by
  unfold readMinidumpHeader
  dsimp only
  split
  · rfl
  unfold validateFileHeader
  split_ifs <;> rfl

theorem parse_limit (h : (p.parse config).2.isValid=true) : 1≤ config.maxStreams := by
  have hh : (readMinidumpHeader config {p with isValid := false}).2.isValid=false := readMinidumpHeader_isValid
  cases hread : MinidumpParser.readMinidumpHeader config {p with isValid := false} with
  | mk ok p' =>
    cases ok with
    | true => exact readMinidumpHeader_limit (by rw [hread])
    | false =>
      rw [hread] at hh
      rw [parse, hread] at h
      rw [hh] at h
      cases h

theorem seekToStreamType_isValid (t : ℕ) : (p.seekToStreamType t).2.isValid=p.isValid := by
  unfold seekToStreamType
  split_ifs
  · rfl
  split
  · rfl
  split
  · rfl
  split_ifs
  · rfl
  split <;> rfl

theorem getStream_isValid (t : ℕ) (opt : ProcessOptimizer) : (p.getStream config t opt).2.1.isValid=p.isValid := by
  have hs := seekToStreamType_isValid (p := p) t
  unfold getStream loadStream
  split_ifs
  · rfl
  split
  · rfl
  split_ifs
  · rfl
  generalize p.seekToStreamType t=x at *
  obtain ⟨found, p'⟩ := x
  cases found with
  | none => exact hs
  | some found =>
    dsimp only
    split
    · exact hs
    split <;> exact hs

theorem injectStreams_isValid (streams : List (ℕ×Option MinidumpStream)) :
    (injectStreams streams p).isValid=p.isValid := by
  induction streams generalizing p with
  | nil => rfl
  | cons s streams ih =>
    obtain ⟨t, s⟩ := s
    cases s with
    | none => exact ih
    | some s =>
      rw [injectStreams, ih, injectStream]
      split_ifs
      · rfl
      split
      · rfl
      split_ifs <;> rfl

end MinidumpParser

theorem Operation.step_isValid {config : ParserConfig} {p : MinidumpParser} {opt : ProcessOptimizer} (op : Operation)
    (h : (op.step config p opt).2.1.isValid=true) : p.isValid=true ∨ 1≤ config.maxStreams := by
  cases op with
  | parse => exact .inr (MinidumpParser.parse_limit h)
  | getStream t => exact .inl ((MinidumpParser.getStream_isValid t opt).symm.trans h)
  | parseParallel types =>
    unfold step MinidumpParser.parseParallel at h
    split_ifs at h
    · exact .inl h
    · exact .inl ((MinidumpParser.injectStreams_isValid _).symm.trans h)
  | getMemoryRegionForAddress a =>
    unfold step at h
    dsimp only at h
    split at h <;> exact .inl h
  | _ => exact .inl h
end Faultloggerd.Minidump
