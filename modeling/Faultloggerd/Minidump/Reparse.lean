import Faultloggerd.Minidump.Parser

/-! # Parsing a file again

`Parse` reads the header and the directory anew, but nothing empties the stream map: the entries of the first call are
the duplicates of the second, and a call that refuses an entry leaves those before it registered.
-/
namespace Faultloggerd.Minidump.MinidumpParser
open List

variable {config : ParserConfig} {p q : MinidumpParser}

/-- The stream directory of a file, if header and directory can be read. -/
def directoryOf (config : ParserConfig) (file : List UInt8) : Option (List MDRawDirectory) :=
  match (new file).readMinidumpHeader config with
  | (false, _) => none
  | (true, p) =>
    if p.header.streamDirectoryRva < MDRawHeader.byteSize then none
    else
      (p.memoryReader.bind (·.seekSet p.header.streamDirectoryRva)).bind fun r =>
        (r.readBytes (MDRawDirectory.byteSize*p.header.numberOfStreams)).map fun got =>
          (range p.header.numberOfStreams).map (MDRawDirectory.decodeAt got.1)

structure SameStreams (p q : MinidumpParser) : Prop where
  file : q.file = p.file
  directory : q.directory = p.directory
  streamMap : q.streamMap = p.streamMap

theorem readMinidumpHeader_spec (config : ParserConfig) (p : MinidumpParser) :
    SameStreams p (p.readMinidumpHeader config).2 ∧
    (p.readMinidumpHeader config).1=((new p.file).readMinidumpHeader config).1 ∧
    ((p.readMinidumpHeader config).1=true →
      (p.readMinidumpHeader config).2.header=((new p.file).readMinidumpHeader config).2.header ∧
      (p.readMinidumpHeader config).2.memoryReader=((new p.file).readMinidumpHeader config).2.memoryReader) := by
  unfold readMinidumpHeader validateFileHeader new
  dsimp only
  split
  · exact ⟨⟨rfl, rfl, rfl⟩, rfl, nofun⟩
  · split_ifs <;> exact ⟨⟨rfl, rfl, rfl⟩, rfl, by simp⟩

theorem registerEntries_file (entries : List (MDRawDirectory×ℕ)) (p : MinidumpParser) :
    (registerEntries entries p).2.file=p.file := by
  induction entries generalizing p with
  | nil => rfl
  | cons e entries ih =>
    unfold registerEntries registerStreamDirectoryEntry
    split_ifs
    · rfl
    · exact ih _

/-- What a call does with the directory it reads. -/
structure Registered (directory : List MDRawDirectory) (p : MinidumpParser) (r : Bool × MinidumpParser) : Prop where
  file : r.2.file = p.file
  entries : ∃ q, SameStreams p q ∧ r.1 = (registerEntries directory.zipIdx q).1 ∧
    r.2.streamMap = (registerEntries directory.zipIdx q).2.streamMap
  directory : r.1 = true → r.2.directory = directory

theorem parse_spec (config : ParserConfig) (p : MinidumpParser) : match directoryOf config p.file with
    | none => (p.parse config).1=false ∧ SameStreams p (p.parse config).2
    | some dir => Registered dir p (p.parse config) := by
  obtain ⟨hs, hok, hr2⟩ := readMinidumpHeader_spec config {p with isValid := false}
  unfold directoryOf parse
  generalize {p with isValid := false}.readMinidumpHeader config=r at hs hok hr2 ⊢
  generalize (new p.file).readMinidumpHeader config=first at hok hr2 ⊢
  obtain ⟨ok, r⟩ := r
  obtain ⟨_, first⟩ := first
  cases hok
  cases ok with
  | false => exact ⟨rfl, hs.file, hs.directory, hs.streamMap⟩
  | true =>
    obtain ⟨hh, hr1⟩ := hr2 rfl
    dsimp only at hh hr1 ⊢
    rw [←hh, ←hr1]
    unfold readStreamDirectory
    split_ifs
    · exact ⟨rfl, hs.file, hs.directory, hs.streamMap⟩
    cases r.memoryReader with
    | none => exact ⟨rfl, hs.file, hs.directory, hs.streamMap⟩
    | some reader =>
    dsimp only [Option.bind]
    cases reader.seekSet r.header.streamDirectoryRva with
    | none => exact ⟨rfl, hs.file, hs.directory, hs.streamMap⟩
    | some reader =>
    dsimp only
    cases reader.readBytes (MDRawDirectory.byteSize*r.header.numberOfStreams) with
    | none => exact ⟨rfl, hs.file, hs.directory, hs.streamMap⟩
    | some got =>
    dsimp only [Option.map]
    generalize (range r.header.numberOfStreams).map (MDRawDirectory.decodeAt got.1)=dir
    have hq : SameStreams p {r with memoryReader := some got.2} := ⟨hs.file, hs.directory, hs.streamMap⟩
    have hf := registerEntries_file dir.zipIdx {r with memoryReader := some got.2}
    cases hr : registerEntries dir.zipIdx {r with memoryReader := some got.2} with
    | mk ok s =>
      rw [hr] at hf
      cases ok with
      | false => exact ⟨hf.trans hs.file, ⟨_, hq, by rw [hr], by rw [hr]⟩, nofun⟩
      | true => exact ⟨hf.trans hs.file, ⟨_, hq, by rw [hr], by rw [hr]⟩, fun _ => rfl⟩

variable {entries : List (MDRawDirectory×ℕ)}

theorem registerEntries_plain (h : ∀ e∈entries, e.1.streamType∉singleTypes) (p : MinidumpParser) :
    (registerEntries entries p).1=true := by
  induction entries generalizing p with
  | nil => rfl
  | cons e entries ih =>
    rw [registerEntries, registerStreamDirectoryEntry, if_neg fun hd => h e mem_cons_self hd.1]
    exact ih (fun e he => h e (mem_cons_of_mem _ he)) _

theorem registerEntries_true (h : (registerEntries entries p).1=true) (type : ℕ) :
    ((registerEntries entries p).2.streamMap type).isSome=true ↔
      (p.streamMap type).isSome=true ∨ ∃ e∈entries, e.1.streamType=type := by
  induction entries generalizing p with
  | nil => simp [registerEntries]
  | cons e entries ih =>
    unfold registerEntries registerStreamDirectoryEntry at h ⊢
    by_cases hd : e.1.streamType∈singleTypes ∧ (p.streamMap e.1.streamType).isSome=true
    · rw [if_pos hd] at h
      cases h
    · rw [if_neg hd] at h ⊢
      grind [Function.update_apply]

theorem registerEntries_registered {e : MDRawDirectory×ℕ} (he : e∈entries) (hs : e.1.streamType∈singleTypes)
    (h : (p.streamMap e.1.streamType).isSome=true) : (registerEntries entries p).1=false := by
  induction entries generalizing p with
  | nil => cases he
  | cons d entries ih =>
    unfold registerEntries registerStreamDirectoryEntry
    split_ifs with hd
    · rfl
    obtain rfl | he := mem_cons.mp he
    · exact absurd ⟨hs, h⟩ hd
    · grind [Function.update_apply]

theorem registerEntries_false (h : (registerEntries entries p).1=false) :
    ∃ type, ((registerEntries entries p).2.streamMap type).isSome=true := by
  induction entries generalizing p with
  | nil => cases h
  | cons e entries ih =>
    unfold registerEntries registerStreamDirectoryEntry at h ⊢
    split_ifs at h ⊢ with hd
    · exact ⟨e.1.streamType, hd.2⟩
    · exact ih h

/-- A second `Parse` gives the result and the directory of the first, and one that fails leaves no stream. -/
def Repeatable (config : ParserConfig) (file : List UInt8) : Prop :=
  let first := (new file).parse config
  let second := first.2.parse config
  second.1 = first.1 ∧ second.2.directory = first.2.directory ∧
    ∀ call∈[first, second], call.1 = false → ∀ streamType, call.2.streamMap streamType = none

/-- Parsing can be repeated if and only if no entry of the directory is of a type that may stand in it only once. -/
theorem repeatable_iff (config : ParserConfig) (file : List UInt8) : Repeatable config file ↔
    ∀ directory, directoryOf config file = some directory → ∀ e∈directory, e.streamType ∉ singleTypes := by
  have hf1 := parse_spec config (new file)
  have hs := parse_spec config ((new file).parse config).2
  unfold Repeatable
  dsimp only
  generalize (new file).parse config=first at hf1 hs ⊢
  change match directoryOf config file with
    | none => _
    | some directory => _ at hf1
  cases hd : directoryOf config file with
  | none =>
    rw [hd] at hf1
    obtain ⟨hf, hs1⟩ := hf1
    rw [show first.2.file=file from hs1.file, hd] at hs
    obtain ⟨hf2, hs12⟩ := hs
    refine iff_of_true ⟨hf2.trans hf.symm, hs12.directory, ?_⟩ nofun
    simp [hs12.streamMap, hs1.streamMap, new]
  | some directory =>
    rw [hd] at hf1
    obtain ⟨hf3, ⟨q, hq, hok, hm⟩, hk⟩ := hf1
    rw [show first.2.file=file from hf3, hd] at hs
    obtain ⟨-, ⟨q2, hq2, hok2, -⟩, hk2⟩ := hs
    simp only [Option.some.injEq, forall_eq']
    refine ⟨fun ⟨hs1, _, hn⟩ e he hs3 => ?_, fun h => ?_⟩
    · obtain ⟨i, hi⟩ : ∃ i, (e, i)∈directory.zipIdx := by
        simpa [mem_zipIdx_iff_getElem?] using mem_iff_getElem?.mp he
      cases hr : first.1 with
      | false =>
        obtain ⟨streamType, hs2⟩ := registerEntries_false (hok.symm.trans hr)
        rw [←hm, hn first mem_cons_self hr] at hs2
        cases hs2
      | true =>
        have hs2 := (registerEntries_true (hok.symm.trans hr) e.streamType).mpr (.inr ⟨_, hi, rfl⟩)
        rw [←hm, ←hq2.streamMap] at hs2
        have hf := registerEntries_registered hi hs3 hs2
        rw [←hok2, hs1, hr] at hf
        cases hf
    · have hp : ∀ e∈directory.zipIdx, e.1.streamType∉singleTypes := fun e he => h e.1 (fst_mem_of_mem_zipIdx he)
      have ht := hok.trans (registerEntries_plain hp q)
      have ht2 := hok2.trans (registerEntries_plain hp q2)
      refine ⟨ht2.trans ht.symm, (hk2 ht2).trans (hk ht).symm, ?_⟩
      simp [ht, ht2]

/-- The first call takes a file with a thread list, the second refuses it. -/
theorem second_parse_refused : ¬∀ (config : ParserConfig) (file : List UInt8), Repeatable config file :=
  fun h => absurd (h {} ([0x4d, 0x44, 0x4d, 0x50, 0x93, 0xa7, 0, 0, 1, 0, 0, 0, 32, 0, 0, 0] ++
    (replicate 16 0++3::replicate 11 0))).1
    (by decide)

end Faultloggerd.Minidump.MinidumpParser
