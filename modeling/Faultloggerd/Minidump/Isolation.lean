import Faultloggerd.Minidump.ProbeFiles
import Faultloggerd.Foundations.EventRuns

/-! # Two dumps in one process

Two parsers share the optimizer of their process, and no call resets it. The calls on the parser of one file change
what the other parser answers, in some interleaving and for some second file, exactly if they leave a range in one of
the adaptive indexes (`isolated_iff`).
-/
namespace Faultloggerd.Minidump
open MDStreamType Ranges List
open Foundations AdaptiveAddressIndex ProcessOptimizer Operation

def secondAnswers (config : ParserConfig) :
    List (Operation ⊕ Operation) → MinidumpParser → MinidumpParser → ProcessOptimizer → List Answer
  | [], _, _, _ => []
  | .inl op :: calls, p, q, opt => let (_, p, opt) := op.step config p opt; secondAnswers config calls p q opt
  | .inr op :: calls, p, q, opt =>
    let (answer, q, opt) := op.step config q opt
    answer::secondAnswers config calls p q opt

def ProcessOptimizer.log (opt : ProcessOptimizer) : Ranges :=
  ⟨opt.adaptiveMemoryIndex.masterList, opt.adaptiveModuleIndex.masterList⟩

/-- The ranges of a process whose only calls are these, on the parser of one file. -/
def rangesLeft (config : ParserConfig) (file : List UInt8) (calls : List Operation) : Ranges :=
  (EventRuns.run (Operation.effect config) calls (.new file, .new config.toMinidumpConfig)).2.log

structure ProcessOptimizer.Grown (opt : ProcessOptimizer) : Prop where
  memory : Built defaultAddressRange defaultBitmapGranularity opt.adaptiveMemoryIndex
  modules : Built defaultAddressRange defaultBitmapGranularity opt.adaptiveModuleIndex

namespace ProcessOptimizer
variable {config : ParserConfig} {opt : ProcessOptimizer} {ranges : Ranges}

theorem grown_new (config : MinidumpConfig) : (new config).Grown := ⟨built_new, built_new⟩

theorem Grown.register (h : opt.Grown) (ranges : Ranges) : (opt.register ranges).Grown :=
  ⟨h.memory.insertAll _, h.modules.insertAll _⟩

theorem log_register (h : opt.Grown) (hr : ranges.Admitted config) :
    (opt.register ranges).log=opt.log.append ranges := by
  have hm1 := insertAll_masterList h.memory fun e he => (hr.memory e he).1
  have hm := insertAll_masterList h.modules fun e he => (hr.modules e he).1
  simp [log, register, append, hm1, hm]

end ProcessOptimizer

theorem Ranges.append_eq_empty {ranges more : Ranges} (h : ranges.append more=.empty) :
    ranges=.empty ∧ more=.empty := by
  obtain ⟨mem, modules⟩ := ranges
  obtain ⟨memory', modules'⟩ := more
  simp only [append, empty, Ranges.mk.injEq, append_eq_nil_iff] at h
  obtain ⟨⟨rfl, rfl⟩, rfl, rfl⟩ := h
  exact ⟨rfl, rfl⟩

theorem run_registers (config : ParserConfig) (calls : List Operation) (p : MinidumpParser) (opt : ProcessOptimizer) :
    ∃ ranges : Ranges, ranges.Admitted config ∧ (EventRuns.run (effect config) calls (p, opt)).2=opt.register ranges ∧
      (ranges=.empty ∨ p.isValid=true ∨ 1≤ config.maxStreams) := by
  induction calls generalizing p opt with
  | nil => exact ⟨.empty, admitted_empty config, rfl, .inl rfl⟩
  | cons op calls ih =>
    obtain ⟨ranges, ha, hi, he⟩ := step_sameEffect config op (MinidumpParser.Similar.refl p)
    obtain ⟨more, hm, hrun, hc⟩ := ih (op.step config p opt).2.1 (op.step config p opt).2.2
    refine ⟨ranges.append more, ha.append hm, ?_, ?_⟩
    · rw [register_append, ← (he opt opt).1]
      exact hrun
    · by_cases hp : p.isValid=true
      · exact .inr (.inl hp)
      · rw [hi (by simpa using hp)]
        obtain rfl | hv | hl := hc
        · exact .inl rfl
        · exact .inr (step_isValid op hv)
        · exact .inr (.inr hl)

variable {config : ParserConfig}

/-- The first parser `p` of an interleaving is at every call similar to the parser `a` that is alone in its process;
what `a` registers there, `p` registers here. -/
theorem secondAnswers_of_nothing_left (calls : List (Operation ⊕ Operation)) {a p q : MinidumpParser}
    {alone opt : ProcessOptimizer} (hs : a.Similar p) (hg : alone.Grown)
    (h : (EventRuns.run (effect config) (calls.filterMap Sum.getLeft?) (a, alone)).2.log=.empty) :
    secondAnswers config calls p q opt=answersOf config (calls.filterMap Sum.getRight?) q opt := by
  induction calls generalizing a p q alone opt with
  | nil => rfl
  | cons call calls ih =>
    cases call with
    | inl op =>
      obtain ⟨ranges, ha, -, he⟩ := step_sameEffect config op hs
      obtain ⟨ha1, hh, hn⟩ := he alone opt
      obtain ⟨more, hm, hrun, -⟩ := run_registers config (calls.filterMap Sum.getLeft?)
        (op.step config a alone).2.1 (op.step config a alone).2.2
      have he1 : ranges=.empty := by
        have hl : ((alone.register ranges).register more).log=.empty := by
          rw [←h, ←ha1, ←hrun]
          rfl
        rw [log_register (hg.register ranges) hm, log_register hg ha] at hl
        exact (append_eq_empty (append_eq_empty hl).1).2
      subst he1
      change secondAnswers config calls (op.step config p opt).2.1 q (op.step config p opt).2.2=_
      rw [hh]
      refine ih hn ?_ h
      rw [ha1]
      exact hg
    | inr op => exact congrArg _ (ih hs hg h)

theorem calls_after (ops calls : List Operation) : (ops.map Sum.inl++calls.map Sum.inr).filterMap Sum.getLeft?=ops ∧
      (ops.map Sum.inl++calls.map Sum.inr).filterMap Sum.getRight?=calls := by
  induction ops with
  | nil =>
    induction calls with
    | nil => exact ⟨rfl, rfl⟩
    | cons call calls ih => exact ⟨ih.1, congrArg (call :: ·) ih.2⟩
  | cons op ops ih => exact ⟨congrArg (op :: ·) ih.1, ih.2⟩

theorem secondAnswers_after (ops : List Operation) (calls : List Operation) (p q : MinidumpParser)
    (opt : ProcessOptimizer) : secondAnswers config (ops.map .inl++calls.map .inr) p q opt =
      answersOf config calls q (EventRuns.run (effect config) ops (p, opt)).2 := by
  induction ops generalizing p opt with
  | nil =>
    induction calls generalizing q opt with
    | nil => rfl
    | cons op calls ih => exact congrArg _ (ih _ _)
  | cons op ops ih => exact ih _ _

theorem exists_told {opt : ProcessOptimizer} (hg : opt.Grown) (ha : opt.log.Admitted config)
    (hs3 : 1≤ config.maxStreams) (hne : opt.log≠.empty) : ∃ file calls, answersOf config calls (.new file) opt ≠
      answersOf config calls (.new file) (.new config.toMinidumpConfig) := by
  by_cases hm1 : opt.adaptiveMemoryIndex.masterList=[]
  · have hm : opt.adaptiveModuleIndex.masterList≠[] := by
      intro hm
      apply hne
      rw [log, hm1, hm]
      rfl
    obtain ⟨probe, a, hp, ht1, hl, hs1, ht⟩ := exists_telling hg.modules hm fun e he => (ha.modules e he).2.2
    have hb : ∀ start, some start∈probe → start<2^64-1 := by
      intro start hs2
      obtain ⟨e, he, rfl⟩ := hs1 start hs2
      exact (ha.modules e he).2.1
    refine ⟨moduleFile probe, [.parse, .getStream moduleList, .getModuleForAddress a], ?_⟩
    have ha1 := moduleFile_answer hp ht1 hl (ha.modules_limit hm) hb hs3
    rw [ha1, ha1]
    intro hs
    simp only [cons.injEq, Answer.position.injEq, and_true, true_and] at hs
    exact ht hs
  · obtain ⟨probe, a, hp, ht1, hl, hs1, ht⟩ := exists_telling hg.memory hm1 fun e he => (ha.memory e he).2.2
    have hb : ∀ start, some start∈probe → start<2^64 := by
      intro start hs2
      obtain ⟨e, he, rfl⟩ := hs1 start hs2
      exact (ha.memory e he).2.1
    refine ⟨memoryFile probe, [.parse, .getStream memoryList, .getMemoryRegionForAddress a], ?_⟩
    have ha1 := memoryFile_answer hp ht1 hl hb hs3
    rw [ha1, ha1]
    intro hs
    simp only [cons.injEq, Answer.position.injEq, and_true, true_and] at hs
    exact ht hs

/-- Calls on one parser never change what another parser answers, whatever its file and however the calls are
interleaved, exactly if they leave no range behind. -/
theorem isolated_iff (config : ParserConfig) (first : List UInt8) (ops : List Operation) :
    (∀ second calls, calls.filterMap Sum.getLeft? = ops →
      secondAnswers config calls (.new first) (.new second) (.new config.toMinidumpConfig) =
        Operation.answersOf config (calls.filterMap Sum.getRight?) (.new second) (.new config.toMinidumpConfig)) ↔
      rangesLeft config first ops = .empty := by
  constructor
  · intro hi
    by_contra hleft
    obtain ⟨ranges, ha, hrun, hc1⟩ := run_registers config ops (.new first) (.new config.toMinidumpConfig)
    have hg := grown_new config.toMinidumpConfig
    have hl : rangesLeft config first ops=ranges := by
      rw [rangesLeft, hrun, log_register hg ha]
      rfl
    have hs : 1≤ config.maxStreams := by
      obtain he | hv | hl1 := hc1
      · exact absurd (hl.trans he) hleft
      · cases hv
      · exact hl1
    have hl' : ((new config.toMinidumpConfig).register ranges).log=ranges := by
      rw [log_register hg ha]
      rfl
    obtain ⟨second, calls, ht⟩ := exists_told (hg.register ranges) (hl'.symm ▸ ha) hs
      (by rw [hl', ←hl]; exact hleft)
    apply ht
    have hs1 := hi second (ops.map .inl++calls.map .inr) (calls_after ops calls).1
    rwa [secondAnswers_after, hrun, (calls_after ops calls).2] at hs1
  · intro hn second calls hc
    subst hc
    exact secondAnswers_of_nothing_left calls (MinidumpParser.Similar.refl _)
      (grown_new config.toMinidumpConfig) hn

def regionDump (start : ℕ) : List UInt8 :=
  streamFile MDStreamType.memoryList (leBytes 4 1++(leBytes 8 start++(leBytes 4 16++leBytes 4 0)))

/-- The second dump has no region at 0x1008, and its region 0x2000 is answered there after the first was read. -/
theorem stale_region_answered : secondAnswers {} ([Operation.parse, .getStream memoryList].map .inl ++
          [Operation.parse, .getStream memoryList, .getMemoryRegionForAddress 0x1008].map .inr)
        (.new (regionDump 0x1000)) (.new (regionDump 0x2000)) (.new {}) =
      [.returned true, .returned true, .position (some 0)] ∧
    Operation.answersOf {} [.parse, .getStream memoryList, .getMemoryRegionForAddress 0x1008]
        (.new (regionDump 0x2000)) (.new {}) = [.returned true, .returned true, .position none] := by
  decide +kernel

end Faultloggerd.Minidump
