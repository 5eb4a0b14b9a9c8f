import Faultloggerd.Dwarf.History
import Faultloggerd.Unwinder.Model

/-! # The step cache against no cache

A hit of the step cache passes over the map of the pc, over the end of a signal frame and over the parser. Only a pc
with a map gets into the cache, so the first does no harm. The unwinder with a cache runs in step with the one without
as long as no signal frame is a hit, and no parse depends on the parser's history.
-/
namespace Faultloggerd.Unwinder
open Option Dwarf Foundations.FuelLoop Foundations.MemoTable

section Reference

variable {a : Arch} (e : Env)

/-! ## What the cache stands for -/

def rulesOf (pc : Word) : Option (Option (RegLocState a.toTarget)) :=
  match e.findUnwindTable pc with
  | none => some none
  | some uti => stepOf e.memory e.rounds pc uti (freshState a.toTarget e.union)

def cacheOf (pc : Word) : Option (StepCache a) :=
  (e.getMapByPc pc).bind fun map => (rulesOf e pc).join.map fun rs => ⟨some map, rs⟩

def Impl.withTables (u : Impl a) (stepCache : Word → Option (StepCache a)) (parser : ParserState) :
    Impl a :=
  {u with stepCache := stepCache, parser := parser}

/-- `v` is `u` but for cache and parser; the cache of `u` holds nothing but rules by themselves. -/
structure Sim (bases : Word → Prop) (u v : Impl a) : Prop where
  same : v = u.withTables v.stepCache v.parser
  cache : Agrees (cacheOf e) u.stepCache
  parser : Coherent e.memory bases u.parser
  reference : Coherent e.memory bases v.parser

def CleanTable (bases : Word → Prop) (pc : Word) : Prop :=
  ∀ uti, e.findUnwindTable pc = some uti → ∀ st, Coherent e.memory bases st → CleanCall e.memory bases st pc uti

variable {e} {bases : Word → Prop} {u v : Impl a}

section

variable (h : Sim e bases u v)
include h

theorem Sim.congr {u' v' : Impl a} (hs : v'=u'.withTables v.stepCache v.parser)
    (hc : u'.stepCache=u.stepCache) (hp : u'.parser=u.parser) : Sim e bases u' v' := by
  subst hs
  exact ⟨rfl, hc ▸ h.cache, hp ▸ h.parser, h.reference⟩

theorem Sim.addFrame (frame : StepFrame) (map : Option DfxMap) :
    Sim e bases (u.addFrame frame map) (v.addFrame frame map) := by
  refine h.congr ?_ rfl rfl
  rw [h.same]
  rfl

theorem Sim.setRegs (regs : Regs) : Sim e bases (u.setRegs regs) (v.setRegs regs) := by
  refine h.congr ?_ rfl rfl
  rw [h.same]
  rfl

theorem Sim.start : Sim e bases (start u) (start v) := by
  refine h.congr ?_ rfl rfl
  rw [h.same]
  rfl

theorem Sim.frames : v.frames=u.frames := by
  rw [h.same]
  rfl

theorem Sim.isFpStep : v.isFpStep=u.isFpStep := by
  rw [h.same]
  rfl

theorem Sim.isResetFrames : v.isResetFrames=u.isResetFrames := by
  rw [h.same]
  rfl

theorem Sim.reset (skip : ℕ) : Sim e bases (resetFrames skip u) (resetFrames skip v) := by
  unfold resetFrames
  rw [h.frames, h.isResetFrames]
  split_ifs
  · refine h.congr ?_ rfl rfl
    rw [h.same]
    rfl
  · exact h

end

theorem Sim.fresh (h : bases 0) (regs : Regs) : Sim e bases (.fresh regs : Impl a) (.fresh regs) where
  same := rfl
  cache := .empty _
  parser := .fresh 0 h
  reference := .fresh 0 h

theorem Sim.reparsed (h : Sim e bases u v) {w : Impl a}
    (hs : w=v.withTables v.stepCache w.parser) (hp : Coherent e.memory bases w.parser) : Sim e bases u w where
  same := by
    rw [hs, h.same]
    rfl
  cache := h.cache
  parser := h.parser
  reference := hp

/-! ## The parts of a step -/

variable {pc : Word}

theorem parseUnwindTable_spec (hclean : CleanTable e bases pc) (h : Coherent e.memory bases u.parser) :
    (parseUnwindTable e pc u).map Prod.fst=rulesOf (a := a) e pc ∧ ∀ out, parseUnwindTable e pc u=some out →
        out.2=u.withTables u.stepCache out.2.parser ∧ Coherent e.memory bases out.2.parser := by
  unfold parseUnwindTable rulesOf
  cases ht : e.findUnwindTable pc with
  | none =>
    refine ⟨rfl, fun out ho => ?_⟩
    cases ho
    exact ⟨rfl, h⟩
  | some uti =>
    obtain ⟨hs, hst⟩ := step_spec h e.rounds pc uti (freshState a.toTarget e.union)
      (hclean uti ht u.parser h)
    refine ⟨?_, fun out ho => ?_⟩
    · dsimp only
      rw [←hs, map_map]
      rfl
    · obtain ⟨parsed, hp, rfl⟩ := map_eq_some_iff.mp ho
      exact ⟨rfl, hst parsed.1 parsed.2 hp⟩

theorem recover_withTables (u : Impl a) (stepCache : Word → Option (StepCache a))
    (parser : ParserState) (rs : Option (RegLocState a.toTarget)) :
    recover e (u.withTables stepCache parser) rs=recover e u rs := rfl

theorem updateRegsState_sim (h : Sim e bases u v) (frame : StepFrame) (rs : Option (RegLocState a.toTarget)) :
    Option.Rel (fun out out' => out.1=out'.1 ∧ Sim e bases out.2 out'.2)
      (updateRegsState e frame rs u) (updateRegsState e frame rs v) := by
  have hr : recover e v rs=recover e u rs := by
    rw [h.same]
    exact recover_withTables u v.stepCache v.parser rs
  unfold updateRegsState
  rw [hr]
  cases recover e u rs with
  | none => exact .none
  | some out =>
    refine .some ?_
    dsimp only
    split_ifs
    · refine ⟨rfl, h.congr ?_ rfl rfl⟩
      rw [h.same]
      rfl
    · refine ⟨rfl, h.congr ?_ rfl rfl⟩
      rw [h.same]
      rfl

inductive LocatedSim (e : Env) (bases : Word → Prop) : Located a → Located a → Prop where
  | done (ret : Bool) (frame : StepFrame) {u v : Impl a} (h : Sim e bases u v) :
      LocatedSim e bases (.done ret frame u) (.done ret frame v)
  | found (frame : StepFrame) (map : Option DfxMap) (rs : Option (RegLocState a.toTarget))
      {u v : Impl a} (h : Sim e bases u v) :
      LocatedSim e bases (.found frame map rs u) (.found frame map rs v)

/-- A pc is looked up cleanly: a hit is no signal frame, and a parse does not depend on the parser. -/
structure CleanLookup (e : Env) (bases : Word → Prop) (isSigFrame : Bool) (pc : Word) (u : Impl a) :
    Prop where
  hit : ∀ cached, u.stepCache pc = some cached → ¬isSigFrame
  table : ¬isSigFrame → CleanTable e bases pc

variable {rs : Option (RegLocState a.toTarget)}

theorem updateCache_agrees (hm : (e.getMapByPc pc).isSome) (hr : rulesOf e pc = some rs)
    (h : Agrees (cacheOf e) u.stepCache) (cache : Bool) :
    Agrees (cacheOf e) (updateCache cache pc (e.getMapByPc pc) rs u).stepCache := by
  unfold updateCache
  cases rs with
  | none => exact h
  | some rs =>
    split_ifs
    · apply h.store pc _
      intro cached hc
      cases hc
      obtain ⟨map, hm⟩ := isSome_iff_exists.mp hm
      rw [cacheOf, hm, hr]
      rfl
    · exact h

theorem updateCache_tables (cache : Bool) (pc : Word) (map : Option DfxMap)
    (rs : Option (RegLocState a.toTarget)) (u : Impl a) :
    u.withTables (updateCache cache pc map rs u).stepCache u.parser=updateCache cache pc map rs u := by
  unfold updateCache
  cases rs with
  | none => rfl
  | some rs => split_ifs <;> rfl

theorem Sim.updateCache (h : Sim e bases u v) (ec : Bool) (pc : Word) (map : Option DfxMap)
    (rs : Option (RegLocState a.toTarget)) : Sim e bases u (updateCache ec pc map rs v) := by
  rw [←updateCache_tables]
  refine ⟨?_, h.cache, h.parser, h.reference⟩
  rw [h.same]
  rfl

theorem updateCache_sim (h : Sim e bases u v) (hm : (e.getMapByPc pc).isSome) (hr : rulesOf e pc = some rs)
    (ec : Bool) : Sim e bases (updateCache true pc (e.getMapByPc pc) rs u)
      (updateCache ec pc (e.getMapByPc pc) rs v) := by
  have hc := updateCache_agrees hm hr h.cache true
  have hv := h.updateCache ec pc (e.getMapByPc pc) rs
  rw [←updateCache_tables true]
  exact ⟨hv.same, hc, h.parser, hv.reference⟩

theorem parseUnwindTable_sim (h : Sim e bases u v) (hclean : CleanTable e bases pc) :
    Option.Rel (fun out out' => out'.1=out.1 ∧ rulesOf e pc=some out.1 ∧ Sim e bases out.2 out'.2)
      (parseUnwindTable e pc u) (parseUnwindTable e pc v) := by
  obtain ⟨hr, hst⟩ := parseUnwindTable_spec hclean h.parser
  obtain ⟨hr', hst'⟩ := parseUnwindTable_spec hclean h.reference
  cases hp : parseUnwindTable e pc u with
  | none =>
    rw [hp] at hr
    rw [←hr] at hr'
    rw [map_eq_none_iff.mp hr']
    exact .none
  | some out =>
    rw [hp] at hr
    rw [←hr] at hr'
    obtain ⟨out', hp', ho'⟩ := map_eq_some_iff.mp hr'
    obtain ⟨hs, hp1⟩ := hst out hp
    obtain ⟨hs', hp1'⟩ := hst' out' hp'
    rw [hp']
    refine .some ⟨ho', hr.symm, ?_⟩
    rw [hs, hs', h.same]
    exact ⟨rfl, h.cache, hp1, hp1'⟩

variable {sig : Bool} {frame : StepFrame}

section

variable (h : Sim e bases u v)
include h

theorem locateUncached_sim (ht : ¬u.isFpStep → ¬sig → CleanTable e bases frame.pc)
    (cache : Bool) : Option.Rel (LocatedSim e bases) (locateUncached e true sig frame u)
      (locateUncached e cache sig frame v) := by
  simp only [locateUncached, addFrameMap_eq, h.frames]
  by_cases hf : e.getMapByPc frame.pc=none ∧ 2<u.frames.length
  · have hl : getCrashLastFrame e v=getCrashLastFrame e u := by
      rw [h.same]
      rfl
    rw [if_pos hf, if_pos hf]
    rw [hl]
    cases getCrashLastFrame e u with
    | none => exact .some (.done false frame h)
    | some last => exact .some (.found last none none h)
  · have ha := h.addFrame frame (e.getMapByPc frame.pc)
    rw [if_neg hf, if_neg hf]
    dsimp only
    rw [ha.isFpStep]
    split_ifs with hs hm hfp he
    · exact .some (.done true frame ha)
    · exact .some (.found frame _ none ha)
    · exact .some (.done false frame ha)
    · exact .some (.found frame _ none ha)
    · apply rel_map (parseUnwindTable_sim ha (ht hfp hs))
      intro out out' ho
      obtain ⟨hrs, hr, hs1⟩ := ho
      rw [hrs]
      exact .found frame _ out.1 (updateCache_sim hs1 (by simpa [stepV8Frame, isSome_iff_ne_none] using hm) hr cache)

theorem locateUncached_of_hit {cached : StepCache a} (hfp : ¬u.isFpStep)
    (hc : u.stepCache frame.pc=some cached) (hclean : CleanLookup e bases sig frame.pc u)
    (ec : Bool) : ∃ w, locateUncached e ec sig frame v =
        some (.found frame cached.map (some cached.rs) w) ∧ Sim e bases (u.addFrame frame cached.map) w := by
  have hs := hclean.hit cached hc
  obtain ⟨map, hm, hrs⟩ := bind_eq_some_iff.mp (h.cache frame.pc cached hc)
  obtain ⟨rs, hr, rfl⟩ := map_eq_some_iff.mp hrs
  have ha := h.addFrame frame (some map)
  have hn : ¬(v.addFrame frame (some map)).isFpStep := by
    rw [ha.isFpStep]
    exact hfp
  obtain ⟨hp, hst⟩ := parseUnwindTable_spec (hclean.table hs) ha.reference
  rw [join_eq_some_iff.mp hr] at hp
  obtain ⟨out, hp1, hout⟩ := map_eq_some_iff.mp hp
  obtain ⟨hs1, hp2⟩ := hst out hp1
  refine ⟨_, ?_, (ha.reparsed hs1 hp2).updateCache ec frame.pc (some map) (some rs)⟩
  simp only [locateUncached, addFrameMap_eq, h.frames, hm]
  rw [if_neg fun hn => nomatch hn.1]
  dsimp only
  rw [if_neg hs, if_neg (by simp [stepV8Frame]), if_neg hn, hp1, map_some, hout]

theorem locate_miss_sim (hclean : ¬u.isFpStep → CleanLookup e bases sig frame.pc u)
    (cache : Bool) : Option.Rel (LocatedSim e bases) (locate e true sig frame u)
      (locateUncached e cache sig frame v) := by
  have hu := locateUncached_sim h (fun hfp => (hclean hfp).table) cache
  unfold locate
  by_cases hfp : u.isFpStep
  · rw [findCache, if_neg fun hc1 => hc1.2 hfp]
    exact hu
  · rw [findCache, if_pos ⟨rfl, hfp⟩]
    cases hc : u.stepCache frame.pc with
    | none => exact hu
    | some cached =>
      obtain ⟨w, hl, hw⟩ := locateUncached_of_hit h hfp hc (hclean hfp) cache
      rw [hl]
      exact .some (.found frame cached.map (some cached.rs) hw)

theorem locate_sim (hclean : ¬u.isFpStep → CleanLookup e bases sig frame.pc u) :
    Option.Rel (LocatedSim e bases) (locate e true sig frame u) (locate e false sig frame v) := by
  exact locate_miss_sim h hclean false

end

/-! ## Steps, rounds and calls -/

structure StepSim (e : Env) (bases : Word → Prop) (out out' : StepOut a) : Prop where
  ok : out'.ok = out.ok
  frame : out'.frame = out.frame
  u : Sim e bases out.u out'.u

theorem finish_sim {loc loc' : Located a} (h : LocatedSim e bases loc loc') (prevSp : Word) :
    Option.Rel (StepSim e bases) (finish e prevSp loc) (finish e prevSp loc') := by
  cases h with
  | done ret frame h => exact .some ⟨rfl, rfl, h⟩
  | found frame map rs h =>
    apply rel_map (updateRegsState_sim h frame rs)
    intro out out' ho
    obtain ⟨hok, hs⟩ := ho
    have hc : out'.2.current=out.2.current := by
      rw [hs.same]
      rfl
    refine ⟨?_, hc, hs⟩
    simp [checkFrameValid, hc, hs.isFpStep, hok]

theorem stepInner_sim (h : Sim e bases u v) (hclean : ¬u.isFpStep → CleanLookup e bases sig frame.pc u) :
    Option.Rel (StepSim e bases) (stepInner e true sig frame u) (stepInner e false sig frame v) :=
  rel_bind (locate_sim h hclean) fun _ _ hl => finish_sim hl frame.sp

/-- The table of a frame that needs one parses cleanly. -/
structure CleanFrame (e : Env) (bases : Word → Prop) (needAdjustPc : Bool) (u : Impl a) : Prop where
  signal : ∀ regs, signalRegs e u = some (some regs) → ¬u.isFpStep → CleanLookup e bases true u.current.pc u
  plain : signalRegs e u = some none → ¬u.isFpStep → CleanLookup e bases false (lookupFrame needAdjustPc u).pc u

def frameWith (e : Env) (step : Bool → StepFrame → Impl a → Option (StepOut a)) (needAdjustPc : Bool)
    (u : Impl a) : Option (FrameOut a) :=
  (signalRegs e u).bind fun signal =>
    match signal with
    | some regs => (step true u.current (u.setRegs regs)).map fun out => ⟨true, needAdjustPc, out.u⟩
    | none =>
      let frame := lookupFrame needAdjustPc u
      (step false frame u).map fun out =>
        let repeated := out.frame.pc = frame.pc ∧ out.frame.sp = frame.sp ∧ out.u.frames.length > 1
        ⟨out.ok && !decide repeated, true, out.u⟩

structure FrameSim (e : Env) (bases : Word → Prop) (out out' : FrameOut a) : Prop where
  ok : out'.ok = out.ok
  needAdjustPc : out'.needAdjustPc = out.needAdjustPc
  u : Sim e bases out.u out'.u

theorem frameWith_sim {step step' : Bool → StepFrame → Impl a → Option (StepOut a)}
    {adjust : Bool} (h : Sim e bases u v) (hs : ∀ regs, signalRegs e u=some (some regs) → Option.Rel (StepSim e bases)
      (step true u.current (u.setRegs regs)) (step' true u.current (v.setRegs regs)))
    (hp : signalRegs e u=some none → Option.Rel (StepSim e bases)
      (step false (lookupFrame adjust u) u) (step' false (lookupFrame adjust u) v)) :
    Option.Rel (FrameSim e bases) (frameWith e step adjust u) (frameWith e step' adjust v) := by
  have hr : signalRegs e v=signalRegs e u := by
    rw [h.same]
    rfl
  have hc : v.current=u.current := by
    rw [h.same]
    rfl
  have hl : lookupFrame adjust v=lookupFrame adjust u := by
    rw [h.same]
    rfl
  unfold frameWith
  rw [hr]
  cases hc1 : signalRegs e u with
  | none => exact .none
  | some signal =>
    cases signal with
    | some regs =>
      simp only [hc]
      exact rel_map (hs regs hc1) fun out out' ho => ⟨rfl, rfl, ho.u⟩
    | none =>
      simp only [hl]
      apply rel_map (hp hc1)
      intro out out' ho
      refine ⟨?_, rfl, ho.u⟩
      simp [ho.ok, ho.frame, ho.u.frames]

theorem CleanLookup.setRegs (h : CleanLookup e bases sig pc u) (regs : Regs)
    : CleanLookup e bases sig pc (u.setRegs regs) := ⟨h.hit, h.table⟩

theorem unwindFrame_sim {adjust : Bool} (h : Sim e bases u v) (hclean : CleanFrame e bases adjust u) :
    Option.Rel (FrameSim e bases) (unwindFrame e true adjust u) (unwindFrame e false adjust v) := frameWith_sim h
    (fun regs hr => stepInner_sim (h.setRegs regs)
      fun hfp => (hclean.signal regs hr hfp).setRegs regs)
    fun hr => stepInner_sim h (hclean.plain hr)

theorem unwindRound_sim {most skip : ℕ} {s t : Bool×Impl a} (h : t.1=s.1 ∧ Sim e bases s.2 t.2)
    (hclean : (resetFrames skip s.2).frames.length< most → CleanFrame e bases s.1 (resetFrames skip s.2)) :
    Option.Rel (Sum.LiftRel (fun s t => t.1=s.1 ∧ Sim e bases s.2 t.2) (Sim e bases))
      (unwindRound e true most skip s) (unwindRound e false most skip t) := by
  have hr := h.2.reset skip
  unfold unwindRound
  dsimp only
  rw [hr.frames, h.1]
  by_cases hl : (resetFrames skip s.2).frames.length ≥ most
  · rw [if_pos hl, if_pos hl]
    exact .some (.inr hr)
  · rw [if_neg hl, if_neg hl]
    apply rel_map (unwindFrame_sim hr (hclean (Nat.lt_of_not_le hl)))
    intro out out' ho
    rw [ho.ok]
    split_ifs
    · exact .inl ⟨ho.needAdjustPc, ho.u⟩
    · exact .inr ho.u

end Reference

structure Call where
  regs : Regs
  maxFrameNum : ℕ
  skipFrameNum : ℕ

section Calls

variable {a : Arch} (e : Env)

def unwindAll (enableCache : Bool) (fuel : ℕ) : List Call → Impl a → Option (List (List DfxFrame))
  | [], _ => some []
  | c :: calls, u =>
    (unwind e enableCache fuel c.maxFrameNum c.skipFrameNum (u.setRegs c.regs)).bind fun out =>
      (unwindAll enableCache fuel calls out.2).map fun frames => out.2.frames::frames

/-- The calls come to clean frames only. -/
def CleanCalls (bases : Word → Prop) (fuel : ℕ) : List Call → Impl a → Prop
  | [], _ => True
  | c :: calls, u =>
    (∀ s, Visits (unwindRound e true c.maxFrameNum c.skipFrameNum) (false, start (u.setRegs c.regs)) s →
      (resetFrames c.skipFrameNum s.2).frames.length<c.maxFrameNum →
        CleanFrame e bases s.1 (resetFrames c.skipFrameNum s.2)) ∧
      ∀ out, unwind e true fuel c.maxFrameNum c.skipFrameNum (u.setRegs c.regs) = some out →
        CleanCalls bases fuel calls out.2

variable {e} {bases : Word → Prop} {u v : Impl a}

/-- Two walks that end in related unwinders give the same frames if the calls that follow do. -/
theorem frames_of_rel {R : Impl a → Impl a → Prop} {x y : Option (Impl a)} (hr1 : Option.Rel R x y)
    {ok : Impl a → Bool} {rest rest' : Impl a → Option (List (List DfxFrame))}
    (h : ∀ u v, x=some u → R u v → v.frames=u.frames ∧ rest' v=rest u) :
    ((y.map fun u => (ok u, u)).bind fun out => (rest' out.2).map fun fs => out.2.frames::fs) =
      (x.map fun u => (ok u, u)).bind fun out => (rest out.2).map fun fs => out.2.frames::fs := by
  cases hr1 with
  | none => rfl
  | some ho =>
    obtain ⟨hf, hr⟩ := h _ _ rfl ho
    simp [hf, hr]

theorem unwindAll_sim {fuel : ℕ} (calls : List Call) (h : Sim e bases u v) (hclean : CleanCalls e bases fuel calls u) :
    unwindAll e true fuel calls u=unwindAll e false fuel calls v := by
  induction calls generalizing u v with
  | nil => rfl
  | cons c calls ih =>
    obtain ⟨hr, hr1⟩ := hclean
    have hl : Option.Rel (Sim e bases)
        (loop (unwindRound e true c.maxFrameNum c.skipFrameNum) fuel (false, start (u.setRegs c.regs)))
        (loop (unwindRound e false c.maxFrameNum c.skipFrameNum) fuel (false, start (v.setRegs c.regs))) :=
      loop_rel (fun s t => t.1=s.1 ∧ Sim e bases s.2 t.2) (Sim e bases) _
        (fun s t hst hs => unwindRound_sim hst hs) ⟨rfl, (h.setRegs c.regs).start⟩ hr
    refine (frames_of_rel hl fun out out' ho hs1 => ⟨hs1.frames, (ih hs1 ?_).symm⟩).symm
    exact hr1 _ (congrArg (Option.map _) ho)

/-- Every sequence of calls in which all frames are looked up cleanly gives the same frames with and
without the cache. -/
theorem step_cache_transparent (e : Env) (bases : Word → Prop) (fuel : ℕ) (calls : List Call)
    (regs : Regs) (hbase : bases 0) (hclean : CleanCalls e bases fuel calls (.fresh regs : Impl a)) :
    unwindAll e true fuel calls (.fresh regs : Impl a) = unwindAll e false fuel calls (.fresh regs : Impl a) :=
  unwindAll_sim calls (.fresh hbase regs) hclean

end Calls

/-! ## A recursion, and a signal -/

/-- A CIE, an FDE from 0x1000 to 0x2000 that keeps the link register on the stack, and its table. -/
def tableImage : List (BitVec 8) :=
  [0x0c, 0, 0, 0, 0, 0, 0, 0, 1, 0, 1, 0x78, 30, 0, 0, 0, 0x14, 0, 0, 0, 0x14, 0, 0, 0, 0, 0x10, 0, 0, 0, 0x10, 0, 0,
    0x0c, 31, 16, 0x9e, 1, 0, 0, 0, 0, 0x10, 0, 0, 0x10, 0x10, 0, 0]

def tableEnv (stack : List (BitVec 8)) (unwindType : UnwindType) : Env where
  memory := .ofImage 0x1000 (tableImage ++ stack)
  stackMemory := .ofImage 0x1000 (tableImage ++ stack)
  getMapByPc := fun _ => some ⟨"liba.so", 5⟩
  findUnwindTable := fun _ => some ⟨0, false, 0, 1, 0x1028⟩
  union := 0
  rounds := 10
  unwindType := unwindType
  pacMask := 0
  enableLrFallback := true
  enableFpCheckMapExec := true
  isCrash := false

def tableRegs (pc sp : Word) : Regs := fun r =>
  match r with
  | 31 => sp
  | 32 => pc
  | _ => 0

/-- Five calls of a function from itself. -/
def recursion : Env :=
  tableEnv (List.replicate 5 [0, 0, 0, 0, 0, 0, 0, 0, 0x24, 0x11, 0, 0, 0, 0, 0, 0]).flatten .local

/-- Every frame is looked up cleanly: there is one base, and no linear table. -/
theorem recursion_clean (adjust : Bool) (u : Impl (.arm64 id)) : CleanFrame recursion (· = 0) adjust u where
  signal := fun _ hr => nomatch hr
  plain := fun _ _ =>
    { hit := fun _ _ => Bool.false_ne_true
      table := by
        intro _ uti hu st _
        cases hu
        exact ⟨rfl, (fun h => nomatch h), fun entry _ => .of_one 0 entry⟩}

theorem recursion_cleanCalls (fuel : ℕ) (calls : List Call) (u : Impl (.arm64 id)) :
    CleanCalls recursion (· = 0) fuel calls u := by
  induction calls generalizing u with
  | nil => trivial
  | cons c calls ih => exact ⟨fun s _ _ => recursion_clean s.1 _, fun out _ => ih out.2⟩

theorem recursion_transparent :
    unwindAll recursion true 6 [⟨tableRegs 0x1120 0x1030, 5, 0⟩, ⟨tableRegs 0x1120 0x1030, 4, 1⟩]
      (.fresh (tableRegs 0 0) : Impl (.arm64 id)) =
    unwindAll recursion false 6 [⟨tableRegs 0x1120 0x1030, 5, 0⟩, ⟨tableRegs 0x1120 0x1030, 4, 1⟩]
      (.fresh (tableRegs 0 0) : Impl (.arm64 id)) :=
  step_cache_transparent _ (· = 0) 6 _ (tableRegs 0 0) rfl (recursion_cleanCalls 6 _ _)

/-- The signal trampoline at 0x1030 and a return into its second half; behind them the registers that the signal
interrupted, `sp = 0x1148` and `pc = 0x1200`, and the stack of the interrupted function, which returns to 0x1300. -/
def trampoline : Env :=
  tableEnv ([0x68, 0x11, 0x80, 0xd2, 0x01, 0, 0, 0xd4, 0x34, 0x10, 0, 0, 0, 0, 0, 0] ++ List.replicate 248 0 ++
    [0x48, 0x11, 0, 0, 0, 0, 0, 0, 0, 0x12, 0, 0, 0, 0, 0, 0, 0, 0, 0, 0, 0, 0, 0, 0, 0, 0x13, 0, 0, 0, 0, 0, 0,
      0, 0, 0, 0, 0, 0, 0, 0]) .remote

def trampolineCalls : List Call := [⟨tableRegs 0x1200 0x1030, 2, 0⟩, ⟨tableRegs 0x1030 0xf08, 2, 0⟩]

/-- The first call caches the rules of the trampoline. In the second they are applied to the interrupted registers, and
the interrupted function is missing. -/
theorem signal_hit_differs :
    (unwindAll trampoline false 6 trampolineCalls (.fresh (tableRegs 0 0) : Impl (.arm64 id))).map
      (·.map (·.map DfxFrame.pc)) = some [[0x1200, 0x1030], [0x1030, 0x1200]] ∧
    (unwindAll trampoline true 6 trampolineCalls (.fresh (tableRegs 0 0) : Impl (.arm64 id))).map
      (·.map (·.map DfxFrame.pc)) = some [[0x1200, 0x1030], [0x1030, 0x1300]] := by
  decide +kernel

end Faultloggerd.Unwinder
