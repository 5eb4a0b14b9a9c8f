import Mathlib.Data.List.Basic

/-! # The callbacks of a worker (`coredump_dump_generator.cpp`)

A worker calls back when it starts, in `TriggerCoredump`, and when its file is done, in `DumpMemoryForPid`, which
returns at once if there is no buffer to write to.
-/
namespace Faultloggerd.Coredump.Worker

inductive Step where
  | segmentHeader | elfHeader | noteSegment | loadSegment | sectionHeader | nativeCoredump
deriving DecidableEq

def allSteps : List Step := [.segmentHeader, .elfHeader, .noteSegment, .loadSegment, .sectionHeader, .nativeCoredump]

inductive Callback where
  | startCoredumpCb
  | finishCoredumpCb (success : Bool)
deriving DecidableEq

/-- What comes of the calls of the file manager and of the writers. -/
structure Outcomes where
  createFile : Bool
  /-- the first `ftruncate`, to the size that was estimated -/
  sized : Bool
  mapped : Bool
  wrote : Step → Bool
  /-- the last one, to the size that was written -/
  adjusted : Bool

structure Generator where
  bw : Bool := false
  written : List Step := []
  callbacks : List Callback := []

variable (o : Outcomes)

/-- Steps of the writing; nobody looks at their results. -/
def write (steps : List Step) (g : Generator) : Generator :=
  steps.foldl (fun g step => if o.wrote step then {g with written := g.written++[step]} else g) g

def mmapCoredumpFile (g : Generator) : Bool × Generator :=
  if !o.createFile || !(o.sized && o.mapped) then (false, g) else (true, {g with bw := true})

def triggerCoredump (g : Generator) : Bool × Generator :=
  let g := {g with callbacks := g.callbacks++[.startCoredumpCb]}
  let (ok, g) := mmapCoredumpFile o g
  if !ok then (false, g) else (true, write o [.segmentHeader, .elfHeader, .noteSegment] g)

def adjustCoredumpFile (g : Generator) : Bool := g.bw && o.adjusted

def dumpMemoryForPid (g : Generator) : Generator :=
  if !g.bw then g
  else
    let g := write o [.loadSegment, .sectionHeader, .nativeCoredump] g
    {g with callbacks := g.callbacks++[.finishCoredumpCb (adjustCoredumpFile o g)]}

def run : Generator := dumpMemoryForPid o (triggerCoredump o {}).2

/-- One start and then one end, which is a success only if every step has written and the file was adjusted. -/
def Paired : Prop :=
  ∃ success, (run o).callbacks = [.startCoredumpCb, .finishCoredumpCb success] ∧
    (success=true → (run o).written = allSteps ∧ o.adjusted = true)

section Writing

variable {o}

theorem write_spec (steps : List Step) (g : Generator) :
    write o steps g={g with written := g.written++steps.filter o.wrote} := by
  unfold write
  induction steps generalizing g with
  | nil => simp
  | cons step steps ih =>
    rw [List.foldl_cons, ih]
    cases h : o.wrote step <;> simp [h]

theorem run_of_no_buffer (h : ¬(o.createFile=true ∧ o.sized=true ∧ o.mapped=true)) :
    (run o).callbacks=[.startCoredumpCb] := by
  have hm : ∀ g, mmapCoredumpFile o g=(false, g) := fun g => if_pos (by grind)
  simp [run, triggerCoredump, hm, dumpMemoryForPid]

theorem run_of_buffer (h : o.createFile=true ∧ o.sized=true ∧ o.mapped=true) :
    (run o).callbacks=[.startCoredumpCb, .finishCoredumpCb o.adjusted] ∧ (run o).written=allSteps.filter o.wrote := by
  have hm : ∀ g, mmapCoredumpFile o g=(true, {g with bw := true}) := fun g => if_neg (by simp [h])
  simp [run, triggerCoredump, hm, dumpMemoryForPid, write_spec, adjustCoredumpFile, allSteps, ←List.filter_append]

theorem paired_iff_of_buffer (h : o.createFile=true ∧ o.sized=true ∧ o.mapped=true) :
    Paired o ↔ (o.adjusted=true → ∀ step, o.wrote step=true) := by
  have ha1 : ∀ step, step∈allSteps := by
    intro step
    cases step <;> decide
  obtain ⟨hc, hw⟩ := run_of_buffer h
  unfold Paired
  rw [hc, hw]
  simp only [List.cons.injEq, Callback.finishCoredumpCb.injEq, and_true, true_and, exists_eq_left', List.filter_eq_self,
    ha1, forall_const]
  exact ⟨fun hs ha => (hs ha).1, fun hw1 ha => ⟨hw1 ha, ha⟩⟩

theorem not_paired_of_no_buffer (h : ¬(o.createFile=true ∧ o.sized=true ∧ o.mapped=true)) : ¬Paired o := by
  simp [Paired, run_of_no_buffer h]

end Writing

/-- The callbacks are paired exactly if the file was made and mapped and, unless the last sizing fails, every step has
written. -/
theorem callbacks_paired_iff : Paired o ↔ (o.createFile=true ∧ o.sized=true ∧ o.mapped=true) ∧
    (o.adjusted=true → ∀ step, o.wrote step=true) := by
  by_cases h : o.createFile=true ∧ o.sized=true ∧ o.mapped=true
  · rw [paired_iff_of_buffer h, and_iff_right h]
  · exact iff_of_false (not_paired_of_no_buffer h) fun ha => h ha.1

/-- A file that is not mapped gives no end, and a note segment that is not written gives a success. -/
theorem callbacks_not_paired :
    let unmapped : Outcomes := ⟨true, true, false, fun _ => true, true⟩
    let unwritten : Outcomes := ⟨true, true, true, fun step => step ≠ .noteSegment, true⟩
    (run unmapped).callbacks = [.startCoredumpCb] ∧ ¬Paired unmapped ∧
    (run unwritten).callbacks = [.startCoredumpCb, .finishCoredumpCb true] ∧ ¬Paired unwritten := by
  refine ⟨by decide, not_paired_of_no_buffer (by decide), by decide, fun h => ?_⟩
  exact absurd ((paired_iff_of_buffer (by decide)).mp h rfl .noteSegment) (by decide)

end Faultloggerd.Coredump.Worker
