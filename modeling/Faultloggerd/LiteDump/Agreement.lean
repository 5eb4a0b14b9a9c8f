import Faultloggerd.LiteDump.Sections
import Mathlib.Data.List.Forall2
import Mathlib.Data.List.ReduceOption

/-! # What is written and what is read

The reader finds every section where the writer put it, however the bytes come through the pipe, when both take the
request for the same kind: a crash with all optional sections or a catch without them.
-/
namespace Faultloggerd.LiteDump
open List Option ProcessDumpType Section Foundations.ByteStore Foundations.ByteStream SignalHandler

variable {L : Layout}

/-- The reader takes exactly the sections that were written, in their order, and leaves nothing. `taken` and `found` say
how much each write and each read handles. -/
def Agree (w : Snapshot L) (r : ProcessDumpRequest L) (taken found : ℕ → ℕ) : Prop :=
  ∃ pipe, readContent L ⟨(w.liteCrashHandler r ⟨[], taken, 0⟩).written, found, 0⟩ = some (w.sections r, pipe) ∧
    pipe.left = []

variable (w : Snapshot L) (r : ProcessDumpRequest L)

theorem liteCrashHandler_written (pipe : Sink UInt8) :
    (w.liteCrashHandler r pipe).written=pipe.written++(w.sections r).flatMap Section.encode := by
  rw [Snapshot.liteCrashHandler]
  generalize w.sections r=parts
  induction parts generalizing pipe with
  | nil => rw [foldl_nil, flatMap_nil, append_nil]
  | cons part parts ih => rw [foldl_cons, ih, Sink.writeAll_written (by decide), flatMap_cons, append_assoc]

section Read
variable {pipe : Source UInt8} {left : Bytes}

theorem loopReadPipe_front {got : Bytes} {length : ℕ} (hl : got.length=length) (hl1 : pipe.left=got++left) :
    ∃ pipe', loopReadPipe length pipe=some (got, pipe') ∧ pipe'.left=left := by
  subst hl
  exact Source.readExactly_front (by decide) hl1

theorem readStatAndStatm_front {stat statm : Bytes} (hs1 : stat.length=procStatBufSize)
    (hs : statm.length=procStatmBufSize) (hl : pipe.left=stat++(statm++left)) :
    ∃ pipe', readStatAndStatm cppCrash.code pipe=some ([.stat stat, .statm statm], pipe') ∧ pipe'.left=left := by
  obtain ⟨p1, h1, hl1⟩ := loopReadPipe_front hs1 hl
  obtain ⟨p2, h2, hl2⟩ := loopReadPipe_front hs hl1
  refine ⟨p2, ?_, hl2⟩
  rw [readStatAndStatm, h1]
  change (loopReadPipe procStatmBufSize p1 >>= _)=_
  rw [h2]
  rfl

theorem readThreads_front {slots : List (Bytes×Bytes)}
    (hs : ∀ slot∈slots, slot.1.length=L.threadDumpRequest ∧ slot.2.length=threadStackBufferSize)
    (hl : pipe.left=(slots.flatMap fun slot => slot.1++slot.2)++left) :
    ∃ pipe', readThreads L slots.length pipe=some (slots, pipe') ∧ pipe'.left=left := by
  induction slots generalizing pipe with
  | nil => exact ⟨pipe, rfl, hl⟩
  | cons slot slots ih =>
    obtain ⟨hr, hs1⟩ := hs slot mem_cons_self
    rw [flatMap_cons, append_assoc, append_assoc] at hl
    obtain ⟨p1, h1, hl1⟩ := loopReadPipe_front hr hl
    obtain ⟨p2, h2, hl2⟩ := loopReadPipe_front hs1 hl1
    obtain ⟨p3, h3, hl3⟩ := ih (fun slot hs2 => hs slot (mem_cons_of_mem _ hs2)) hl2
    refine ⟨p3, ?_, hl3⟩
    rw [length_cons, readThreads, h1]
    change (loopReadPipe threadStackBufferSize p1 >>= _)=_
    rw [h2]
    change (readThreads L slots.length p2 >>= _)=_
    rw [h3]
    rfl

theorem readStack_front (w : Snapshot L) (hl : pipe.left=w.stack++((threads w.threads).encode++left)) :
    ∃ pipe', readStack L pipe=some ([.stack w.stack, .threads w.threads], pipe') ∧ pipe'.left=left := by
  have hc := w.threads_count
  have hn : ofLE (toLE 4 w.threads.length)=w.threads.length := by
    rw [ofLE_toLE]
    rw [maxDumpThreadNum] at hc
    omega
  obtain ⟨p1, h1, hl1⟩ := loopReadPipe_front w.stack_size hl
  obtain ⟨p2, h2, hl2⟩ := loopReadPipe_front (length_toLE 4 _) hl1
  obtain ⟨p3, h3, hl3⟩ := readThreads_front w.threads_size hl2
  have ht : readOtherThreadStack L p1=some (w.threads, p3) := by
    rw [readOtherThreadStack, h2]
    change (if _ then _ else _)=_
    rw [hn, if_neg (by omega), h3]
  refine ⟨p3, ?_, hl3⟩
  rw [readStack, h1]
  change (readOtherThreadStack L p1 >>= _)=_
  rw [ht]
  rfl

theorem readBlocks_front {sizes : List ℕ} {blocks : List Bytes}
    (hs : List.Forall₂ (fun words block => block.length=words*8) sizes blocks) (hl : pipe.left=blocks.flatten++left) :
    ∃ pipe', readBlocks sizes pipe=(blocks, pipe') ∧ pipe'.left=left := by
  induction hs generalizing pipe with
  | nil => exact ⟨pipe, rfl, hl⟩
  | cons hb _ ih =>
    rw [flatten_cons, append_assoc] at hl
    obtain ⟨p1, h1, hl1⟩ := loopReadPipe_front hb hl
    obtain ⟨p2, h2, hl2⟩ := ih hl1
    refine ⟨p2, ?_, hl2⟩
    rw [readBlocks, readSingleRegMem, h1]
    dsimp only
    rw [h2]

theorem length_readBlocks (sizes : List ℕ) (pipe : Source UInt8) : (readBlocks sizes pipe).1.length=sizes.length := by
  induction sizes generalizing pipe with
  | nil => rfl
  | cons words sizes ih => simp [readBlocks, ih]

theorem readMemoryNearRegister_front {blocks : List Bytes}
    (hs1 : List.Forall₂ (fun words block => block.length=words*8) registerBlocks blocks)
    (hl : pipe.left=(Section.nearRegisters blocks).encode++left) :
    ∃ pipe', readMemoryNearRegister cppCrash.code pipe=some ([.nearRegisters blocks], pipe') ∧ pipe'.left=left := by
  rw [Section.encode, append_assoc] at hl
  have hl4 : (tag "start trans register").length=tagSize ∧ (tag "end trans register").length=tagSize := by decide
  have hs : tagIs (tag "start trans register") "start trans register" = true := by decide
  have he : tagIs (tag "end trans register") "end trans register" = true := by decide
  obtain ⟨p1, h1, hl1⟩ := loopReadPipe_front hl4.1 hl
  obtain ⟨p2, h2, hl2⟩ := readBlocks_front hs1 hl1
  obtain ⟨p3, h3, hl3⟩ := loopReadPipe_front hl4.2 hl2
  refine ⟨p3, ?_, hl3⟩
  rw [readMemoryNearRegister, if_pos rfl, h1, bind_eq_bind, bind_some]
  dsimp only
  rw [if_pos hs, h2]
  rw [h3, bind_some]
  exact if_pos he

theorem readRawData_eq (hl : pipe.left.length≤ maxRawDataSize) :
    (readRawData pipe).1=pipe.left ∧ (readRawData pipe).2.left=[] :=
  Source.readAll_eq (by decide) (by simpa using hl) (Nat.lt_succ_self _)

end Read

theorem typeOf_image : typeOf r.image=r.type.code := by
  have ht : r.image.take 4=toLE 4 r.type.code := by
    rw [ProcessDumpRequest.image, take_append_of_le_length (by rw [length_toLE]), take_of_length_le (by simp)]
  rw [typeOf, ht]
  cases r.type <;> rfl

theorem code_eq_crash {type : ProcessDumpType} (h : type.code=cppCrash.code) : type=.cppCrash := by
  cases type with
  | cppCrash => rfl
  | _ => cases h

theorem length_image : r.image.length=L.processDumpRequest := by
  rw [ProcessDumpRequest.image, length_append, r.size]
  rfl

theorem readContent_front {image rest : Bytes} {proc stackParts regs : List Section} {pipe p1 p2 p3 p4 : Source UInt8}
    (h1 : loopReadPipe L.processDumpRequest pipe=some (image, p1))
    (h2 : readStatAndStatm (typeOf image) p1=some (proc, p2)) (h3 : readStack L p2=some (stackParts, p3))
    (h4 : readMemoryNearRegister (typeOf image) p3=some (regs, p4)) (hl : p4.left=rest)
    (hr : rest.length≤ maxRawDataSize) : ∃ pipe', readContent L pipe =
      some ([request image]++proc++stackParts++regs++[raw rest], pipe') ∧ pipe'.left=[] := by
  subst hl
  obtain ⟨hd, he⟩ := readRawData_eq hr
  exact ⟨_, by simp [readContent, h1, h2, h3, h4, hd], he⟩

theorem blocks_of_mapped (h : ∀ block∈w.blocks, block.isSome=true) :
    List.Forall₂ (fun words block => block.length=words*8) registerBlocks w.blocks.reduceOption := by
  have hs := w.blocks_size
  generalize registerBlocks=sizes at hs
  generalize w.blocks=blocks at h hs
  induction hs with
  | nil => exact .nil
  | @cons words block _ _ hb1 _ ih =>
    obtain ⟨mem, rfl⟩ := isSome_iff_exists.mp (h block mem_cons_self)
    exact .cons (hb1 mem rfl) (ih fun block hb => h block (mem_cons_of_mem _ hb))

theorem readContent_catch {r : ProcessDumpRequest L} (ht : r.type=.dumpCatch) {raw : Bytes}
    (hr : raw.length≤ maxRawDataSize) {pipe : Source UInt8}
    (hl : pipe.left=r.image++(w.stack++((threads w.threads).encode++raw))) :
    ∃ pipe', readContent L pipe=some ([.request r.image, .stack w.stack, .threads w.threads, .raw raw], pipe') ∧
      pipe'.left=[] := by
  have hc : typeOf r.image≠cppCrash.code := by
    rw [typeOf_image, ht]
    decide
  obtain ⟨p1, h1, hl1⟩ := loopReadPipe_front (length_image r) hl
  obtain ⟨p2, h2, hl2⟩ := readStack_front w hl1
  exact readContent_front h1 (if_neg hc) h2 (if_neg hc) hl2 hr

theorem readContent_crash {r : ProcessDumpRequest L} (ht : r.type=.cppCrash)
    (hm : ∀ block∈w.blocks, block.isSome=true) {raw : Bytes} (hr : raw.length≤ maxRawDataSize) {pipe : Source UInt8}
    (hl : pipe.left=r.image++(w.stat++(w.statm++(w.stack++((threads w.threads).encode++
      ((nearRegisters w.blocks.reduceOption).encode++raw)))))) :
    ∃ pipe', readContent L pipe=some ([.request r.image, .stat w.stat, .statm w.statm, .stack w.stack,
      .threads w.threads, .nearRegisters w.blocks.reduceOption, .raw raw], pipe') ∧ pipe'.left=[] := by
  have hc : typeOf r.image=cppCrash.code := by rw [typeOf_image, ht]
  obtain ⟨p1, h1, hl1⟩ := loopReadPipe_front (length_image r) hl
  obtain ⟨p2, h2, hl2⟩ := readStatAndStatm_front w.stat_size w.statm_size hl1
  obtain ⟨p3, h3, hl3⟩ := readStack_front w hl2
  obtain ⟨p4, h4, hl4⟩ := readMemoryNearRegister_front (blocks_of_mapped w hm) hl3
  rw [←hc] at h2 h4
  exact readContent_front h1 h2 h3 h4 hl4 hr

variable {pipe' : Source UInt8} {parts : List Section}

theorem readStack_cases {pipe : Source UInt8} (h : readStack L pipe=some (parts, pipe')) :
    ∃ stack slots, parts=[.stack stack, .threads slots] := by
  simp only [readStack, bind_eq_bind, bind_eq_some_iff] at h
  obtain ⟨⟨stack, p1⟩, -, ⟨slots, p2⟩, -, heq⟩ := h
  cases heq
  exact ⟨stack, slots, rfl⟩

theorem readStatAndStatm_cases {pipe : Source UInt8} (h : readStatAndStatm cppCrash.code pipe=some (parts, pipe')) :
    ∃ stat statm, parts=[.stat stat, .statm statm] := by
  rw [readStatAndStatm, if_pos rfl] at h
  simp only [bind_eq_bind, bind_eq_some_iff] at h
  obtain ⟨⟨stat, p1⟩, -, ⟨statm, p2⟩, -, heq⟩ := h
  cases heq
  exact ⟨stat, statm, rfl⟩

theorem readMemoryNearRegister_cases {pipe : Source UInt8}
    (h : readMemoryNearRegister cppCrash.code pipe=some (parts, pipe')) :
    ∃ blocks, blocks.length=registerBlocks.length ∧ parts=[.nearRegisters blocks] := by
  rw [readMemoryNearRegister, if_pos rfl] at h
  simp only [bind_eq_bind, bind_eq_some_iff] at h
  obtain ⟨⟨data, p1⟩, -, h⟩ := h
  split_ifs at h
  simp only [bind_eq_some_iff] at h
  obtain ⟨⟨data', p2⟩, -, h⟩ := h
  split_ifs at h
  cases h
  exact ⟨_, length_readBlocks _ _, rfl⟩

theorem readContent_cases {pipe : Source UInt8} (h : readContent L pipe=some (parts, pipe')) : ∃ image stack slots raw,
    (typeOf image≠cppCrash.code ∧ parts=[.request image, .stack stack, .threads slots, .raw raw]) ∨
      typeOf image=cppCrash.code ∧ ∃ stat statm blocks, blocks.length=registerBlocks.length ∧
        parts=[.request image, .stat stat, .statm statm, .stack stack, .threads slots,
          .nearRegisters blocks, .raw raw] := by
  simp only [readContent, bind_eq_bind, bind_eq_some_iff] at h
  obtain ⟨⟨image, p1⟩, -, ⟨proc, p2⟩, hp, ⟨stackParts, p3⟩, hs, ⟨regs, p4⟩, hr, heq⟩ := h
  obtain ⟨stack, slots, rfl⟩ := readStack_cases hs
  cases heq
  refine ⟨image, stack, slots, (readRawData p4).1, ?_⟩
  by_cases hc : typeOf image=cppCrash.code
  · rw [hc] at hp hr
    obtain ⟨stat, statm, rfl⟩ := readStatAndStatm_cases hp
    obtain ⟨blocks, hl, rfl⟩ := readMemoryNearRegister_cases hr
    exact .inr ⟨hc, stat, statm, blocks, hl, rfl⟩
  · rw [readStatAndStatm, if_neg hc] at hp
    rw [readMemoryNearRegister, if_neg hc] at hr
    cases hp
    cases hr
    exact .inl ⟨hc, rfl⟩

theorem sections_catch {r : ProcessDumpRequest L} (h : r.type=.dumpCatch) : w.sections r =
    [.request r.image, .stack w.stack, .threads w.threads, .raw (w.collectTexts r.type)] := by
  simp [Snapshot.sections, h]

theorem sections_other {r : ProcessDumpRequest L} (h : r.type≠.dumpCatch) : w.sections r =
    [.request r.image, .stat w.stat, .statm w.statm, .stack w.stack, .threads w.threads,
      .nearRegisters w.blocks.reduceOption, .raw (w.collectTexts r.type)] := by
  simp [Snapshot.sections, h]

theorem agree_iff_of_type (taken found : ℕ → ℕ) (hr : (w.collectTexts r.type).length≤ maxRawDataSize)
    : Agree w r taken found ↔ r.type=.dumpCatch ∨ r.type=.cppCrash ∧ ∀ block∈w.blocks, block.isSome=true := by
  rw [Agree, liteCrashHandler_written]
  by_cases hc : r.type=.dumpCatch
  · rw [sections_catch w hc]
    refine iff_of_true (readContent_catch w hc hr ?_) (.inl hc)
    simp [Section.encode]
  · rw [sections_other w hc]
    constructor
    · rintro ⟨pipe, hr1, -⟩
      obtain ⟨image, stack, slots, raw, ⟨-, hp⟩ | ⟨hc1, stat, statm, blocks, hl, hp⟩⟩ := readContent_cases hr1
      · simp at hp
      · obtain ⟨rfl, -, -, -, -, rfl, -⟩ := hp
        rw [typeOf_image] at hc1
        rw [w.blocks_size.length_eq] at hl
        exact .inr ⟨code_eq_crash hc1, reduceOption_length_eq_iff.mp hl⟩
    · rintro (h | ⟨hc2, hm⟩)
      · exact absurd h hc
      · refine readContent_crash w hc2 hm hr ?_
        simp [Section.encode]

/-- The two programs agree on every signal but one. -/
theorem sections_agree_iff (w : Snapshot L) (r : ProcessDumpRequest L) (signo : ℕ) (si : Siginfo)
    (hsigno : signo≠sigleakStack) (htype : r.type=getDumpType signo si) (taken found : ℕ → ℕ)
    (hraw : (w.collectTexts r.type).length≤ maxRawDataSize) : Agree w r taken found ↔
      signo ≠ sigpipe ∧ (signo≠sigdump → ∀ block∈w.blocks, block.isSome=true) := by
  rw [agree_iff_of_type w r taken found hraw, htype, getDumpType, if_neg hsigno]
  by_cases hd : signo=sigdump
  · have hp : signo≠sigpipe := by
      rw [hd]
      decide
    rw [if_pos hd]
    exact iff_of_true (.inl rfl) ⟨hp, fun h => absurd hd h⟩
  · rw [if_neg hd]
    by_cases hp : signo=sigpipe
    · rw [if_pos hp]
      exact iff_of_false (by simp) fun h => h.1 hp
    · simp [hd, hp]

def sampleLayout : Layout := ⟨5188, 4640⟩

def sampleRequest (signo : ℕ) : ProcessDumpRequest sampleLayout :=
  ⟨getDumpType signo ⟨0, false⟩, List.replicate sampleLayout.requestFields 0, List.length_replicate⟩

def sampleSnapshot : Snapshot sampleLayout where
  stat := List.replicate procStatBufSize 0
  statm := List.replicate procStatmBufSize 0
  stack := List.replicate privCopyStackBufferSize 0
  threads := []
  blocks := registerBlocks.map fun words => some (List.replicate (words*8) 0)
  maps := some (text "7f0000-7f1000 r-xp app\n")
  openFiles := .items [text "0->/dev/null\n"]
  jitSymbols := none
  stat_size := List.length_replicate
  statm_size := List.length_replicate
  stack_size := List.length_replicate
  threads_count := Nat.zero_le _
  threads_size := nofun
  blocks_size := by
    rw [List.forall₂_map_right_iff, List.forall₂_same]
    rintro words-memory ⟨⟩
    exact List.length_replicate
  jitSymbols_size := nofun

theorem sampleSnapshot_mapped : ∀ block∈sampleSnapshot.blocks, block.isSome=true := by
  intro block hb
  obtain ⟨words, -, rfl⟩ := mem_map.mp hb
  rfl

theorem crash_read_back : Agree sampleSnapshot (sampleRequest 11) (fun _ => 4096) fun call => call % 100 :=
  (sections_agree_iff sampleSnapshot (sampleRequest 11) 11 ⟨0, false⟩ (by decide) rfl _ _ (by decide)).mpr
    ⟨by decide, fun _ => sampleSnapshot_mapped⟩

/-- A broken pipe: stat, statm and the memory near the registers are written and not read. -/
theorem broken_pipe_misread : ¬Agree sampleSnapshot (sampleRequest sigpipe) (fun _ => 4096) fun call => call % 100 := by
  rw [agree_iff_of_type _ _ _ _ (by decide)]
  decide

end Faultloggerd.LiteDump
