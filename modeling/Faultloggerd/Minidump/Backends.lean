import Faultloggerd.Foundations.EventRuns
import Faultloggerd.Minidump.Streams

/-! # The two backends of the reader

`MinidumpMemoryReader` works on a mapping of the file or, where the file cannot be mapped, on an `std::ifstream` of it.
A read past the end of the file leaves the mapping as it was and puts the stream out of use for good; and a stream can
be set behind the end. `GetContext` and `GetMemory` move the reader to the bytes they want and, on some of their ways
out, back again.
-/
namespace Faultloggerd.Minidump.Backends
open Foundations.EventRuns

structure IStream where
  file : List UInt8
  pos : ℕ := 0
  eofbit : Bool := false
  failbit : Bool := false
  badbit : Bool := false

namespace IStream

def good (s : IStream) : Bool := !s.eofbit && !s.failbit && !s.badbit

def fail (s : IStream) : Bool := s.failbit || s.badbit

def clearEof (s : IStream) : IStream := {s with eofbit := false}

/-- The bytes a `read` gets. On a stream that is not good the sentry sets `failbit`, here as in the next two. -/
def read (count : ℕ) (s : IStream) : List UInt8 × IStream :=
  if s.good then
    let got := (s.file.drop s.pos).take count
    (got, {s with pos := s.pos+got.length, eofbit := got.length < count, failbit := got.length < count})
  else ([], {s with failbit := true})

def seekg (offset : ℕ) (s : IStream) : IStream :=
  if s.clearEof.good then {s.clearEof with pos := offset} else {s.clearEof with failbit := true}

def tellg (s : IStream) : ℤ × IStream :=
  if s.good then (s.pos, s) else (-1, {s with failbit := true})

end IStream

inductive BackendType where
  | mmap | istream
deriving DecidableEq

inductive Reader where
  | mmap (r : MinidumpMemoryReader)
  | stream (s : IStream)

/-- `SECUREC_MEM_MAX_LEN`: `memcpy_s` copies no more. -/
def memMaxLen : ℕ := 0x7fffffff

def readFromMmap (count : ℕ) (r : MinidumpMemoryReader) : Option (List UInt8) × MinidumpMemoryReader :=
  match r.readFromMmap count with
  | none => (none, r)
  | some (bytes, next) => if count > memMaxLen then (none, r) else (some bytes, next)

def readFromStream (count : ℕ) (s : IStream) : Option (List UInt8) × IStream :=
  if !s.good && !s.eofbit then (none, s)
  else
    let (bytes, s) := s.clearEof.read count
    if bytes.length ≠ count then (none, {s with badbit := true}) else (some bytes, s)

/-- The stream of a file after `InitStreamSize`. -/
def initStreamSize (file : List UInt8) : IStream :=
  (IStream.seekg file.length {file}).tellg.2.clearEof.seekg 0

namespace Reader

def new (file : List UInt8) : BackendType → Reader
  | .mmap => .mmap ⟨file, 0⟩
  | .istream => .stream (initStreamSize file)

/-- The bytes read, or `none` where the call returns false. -/
def readBytes (isNull : Bool) (count : ℕ) (r : Reader) : Option (List UInt8) × Reader :=
  if isNull && decide (count > 0) then (none, r)
  else if count = 0 then (some [], r)
  else
    match r with
    | .mmap r => (readFromMmap count r).map id .mmap
    | .stream s => (readFromStream count s).map id .stream

def seekSet (offset : ℤ) (r : Reader) : Bool × Reader :=
  if offset < 0 then (false, r)
  else
    match r with
    | .mmap m => if offset.toNat > m.mmapData.length then (false, r) else (true, .mmap {m with mmapPos := offset.toNat})
    | .stream s =>
      let s := s.clearEof.seekg offset.toNat
      if s.fail then (false, .stream s) else (decide (s.tellg.1 = offset), .stream s.tellg.2)

def tell : Reader → ℤ × Reader
  | .mmap m => (m.mmapPos, .mmap m)
  | .stream s => if !s.good && !s.eofbit then (-1, .stream s) else s.tellg.map id .stream

/-- A reader in working order, on either backend. -/
def working (file : List UInt8) (pos : ℕ) : BackendType → Reader
  | .mmap => .mmap ⟨file, pos⟩
  | .istream => .stream {file, pos}

variable (file : List UInt8) (pos : ℕ) (b : BackendType)

theorem tell_working : (working file pos b).tell=((pos : ℤ), working file pos b) := by cases b <;> rfl

theorem seekSet_working (off : ℕ) (h : b=.mmap → off≤file.length) :
    (working file pos b).seekSet off=(true, working file off b) := by
  have hn : ¬(off : ℤ)<0 := by omega
  cases b with
  | mmap => simp [seekSet, working, hn, h rfl]
  | istream =>
    simp [seekSet, working, IStream.seekg, IStream.clearEof, IStream.good, IStream.fail, IStream.tellg]

theorem seekSet_behind {off : ℕ} (h : file.length<off) :
    (working file pos .mmap).seekSet off=(false, working file pos .mmap) := by
  have hn : ¬(off : ℤ)<0 := by omega
  simp [seekSet, working, h]

variable {file pos}

variable {count : ℕ}

theorem readBytes_inside (h : pos+count≤file.length) (hm : b=.mmap → count≤ memMaxLen) :
    (working file pos b).readBytes false count=(some ((file.drop pos).take count), working file (pos+count) b) := by
  obtain rfl | hc := Nat.eq_zero_or_pos count
  · simp [readBytes]
  have hl : ((file.drop pos).take count).length=count := by simp; omega
  cases b with
  | mmap =>
    simp [readBytes, working, hc.ne', readFromMmap, MinidumpMemoryReader.readFromMmap, not_lt.mpr h,
      not_lt.mpr (hm rfl)]
  | istream =>
    simp [readBytes, working, hc.ne', readFromStream, IStream.clearEof, IStream.read, IStream.good, hl]

variable {s : IStream}

/-- A stream that failed stays so: it tells -1 and refuses to be set. -/
theorem seekSet_failed (off : ℤ) (h : s.fail=true) :
    ∃ t, t.fail=true ∧ (Reader.stream s).seekSet off=(false, .stream t) := by
  unfold seekSet
  split_ifs
  · exact ⟨s, h, rfl⟩
  · have hf : (s.clearEof.seekg off.toNat).fail=true := by
      obtain ⟨_, _, _, _ | _, _ | _⟩ := s <;> simp_all [IStream.seekg, IStream.clearEof, IStream.good, IStream.fail]
    exact ⟨_, hf, if_pos hf⟩

theorem tell_bad (h : s.good=false) : ∃ t, t.fail=true ∧ (Reader.stream s).tell=(-1, .stream t) := by
  rw [tell]
  split_ifs with hb
  · obtain ⟨_, _, _ | _, _ | _, _ | _⟩ := s <;> simp_all [IStream.good, IStream.fail]
  · exact ⟨{s with failbit := true}, by simp [IStream.fail], by simp [IStream.tellg, h]⟩

theorem tell_failed (h : s.fail=true) : (Reader.stream s).tell.1=-1 := by
  have hg : s.good=false := by
    obtain ⟨_, _, _ | _, _ | _, _ | _⟩ := s <;> simp_all [IStream.good, IStream.fail]
  obtain ⟨t, -, ht⟩ := tell_bad hg
  rw [ht]

theorem readBytes_short (hc : 0<count) (h : file.length<pos+count) :
    ∃ r, (working file pos b).readBytes false count=(none, r) ∧
      (b=.mmap ∧ r=working file pos b ∨ b=.istream ∧ ∃ s, s.fail=true ∧ r=.stream s) := by
  cases b with
  | mmap =>
    simp [readBytes, working, hc.ne', readFromMmap, MinidumpMemoryReader.readFromMmap, h]
  | istream =>
    have hl : file.length-pos<count := by omega
    simp [readBytes, working, hc.ne', readFromStream, IStream.clearEof, IStream.read, IStream.good, hl, IStream.fail]

variable {b} in
theorem readBytes_working (h : b=.mmap ∨ count=0 ∨ pos+count≤file.length) :
    ∃ bytes next, (working file pos b).readBytes false count=(bytes, working file next b) := by
  cases b with
  | mmap =>
    simp only [readBytes, working, readFromMmap, MinidumpMemoryReader.readFromMmap]
    split_ifs <;> exact ⟨_, _, rfl⟩
  | istream =>
    obtain h | rfl | h := h
    · cases h
    · exact ⟨_, _, rfl⟩
    · exact ⟨_, _, readBytes_inside .istream h nofun⟩

end Reader

/-! ## Sequences of calls -/

inductive Call where
  | readBytes (isNull : Bool) (count : ℕ)
  | seekSet (offset : ℤ)
  | tell

inductive Reply where
  | bytes (read : Option (List UInt8))
  | done (result : Bool)
  | position (offset : ℤ)
deriving DecidableEq

def Call.answer : Call → Reader → Reply × Reader
  | .readBytes isNull count, r => (r.readBytes isNull count).map .bytes id
  | .seekSet offset, r => (r.seekSet offset).map .done id
  | .tell, r => r.tell.map .position id

def step (c : Call) (r : Reader) : Reader := (c.answer r).2

def replies : List Call → Reader → List Reply
  | [], _ => []
  | c :: calls, r => (c.answer r).1 :: replies calls (step c r)

/-- The call stays inside the file, and asks for no more than `memcpy_s` copies. -/
def Inside (file : List UInt8) (r : Reader) : Call → Prop
  | .readBytes isNull count =>
    isNull = true ∨ count = 0 ∨ r.tell.1+count ≤ file.length ∧ count ≤ memMaxLen
  | .seekSet offset => offset ≤ file.length
  | .tell => True

instance (file : List UInt8) (r : Reader) (c : Call) : Decidable (Inside file r c) := by
  cases c <;> dsimp only [Inside] <;> infer_instance

variable {file : List UInt8} {pos : ℕ} {b : BackendType}

open Reader

theorem answer_inside {c : Call} (h : Inside file (.working file pos b) c) :
    ∃ reply next, ∀ b, c.answer (.working file pos b)=(reply, .working file next b) := by
  cases c with
  | readBytes isNull count =>
    simp only [Inside, tell_working] at h
    by_cases hc : count=0
    · exact ⟨.bytes (some []), pos, fun b => by simp [Call.answer, Reader.readBytes, hc]⟩
    cases isNull with
    | true => exact ⟨.bytes none, pos, fun b => by simp [Call.answer, Reader.readBytes, Nat.pos_of_ne_zero hc]⟩
    | false =>
      refine ⟨.bytes (some ((file.drop pos).take count)), pos+count, fun b => ?_⟩
      have hi : pos+count≤file.length ∧ count≤ memMaxLen := by
        obtain h | h | h := h
        · cases h
        · exact absurd h hc
        · exact ⟨by omega, h.2⟩
      simp [Call.answer, readBytes_inside b hi.1 fun _ => hi.2]
  | seekSet off =>
    by_cases hn : off<0
    · exact ⟨.done false, pos, fun b => by simp [Call.answer, Reader.seekSet, hn]⟩
    · obtain ⟨off, rfl⟩ := Int.eq_ofNat_of_zero_le (not_lt.mp hn)
      refine ⟨.done true, off, fun b => ?_⟩
      have hs := seekSet_working file pos b off fun _ => by simpa [Inside] using h
      simp [Call.answer, hs]
  | tell => exact ⟨.position pos, pos, fun b => by simp [Call.answer, tell_working]⟩

theorem replies_inside (calls : List Call) (h : Every step (Inside file) calls (.working file pos b)) :
    replies calls (.working file pos .mmap)=replies calls (.working file pos .istream) := by
  induction calls generalizing pos with
  | nil => rfl
  | cons c calls ih =>
    obtain ⟨reply, next, hs⟩ := answer_inside h.1
    have hr := h.2
    rw [step, hs] at hr
    rw [replies, replies, step, step, hs, hs, ih hr]

/-- In every run whose calls all stay inside the file both backends give the same replies. -/
theorem backends_agree (file : List UInt8) (calls : List Call) (b : BackendType)
    (h : Every step (Inside file) calls (.new file b)) :
    replies calls (.new file .mmap) = replies calls (.new file .istream) := by
  exact replies_inside calls h

theorem backends_agree_inside :
    replies [.readBytes false 2, .seekSet (-1), .seekSet 3, .tell] (.new [1, 2, 3] .mmap) =
      replies [.readBytes false 2, .seekSet (-1), .seekSet 3, .tell] (.new [1, 2, 3] .istream) :=
  backends_agree [1, 2, 3] _ .mmap (by decide)

/-- Two bytes are read from a file of one. -/
theorem backends_differ : ¬∀ (file : List UInt8) (calls : List Call), file ≠ [] →
    replies calls (.new file .mmap) = replies calls (.new file .istream) :=
  fun h => absurd (h [1] [.readBytes false 2, .tell] (by decide)) (by decide)

/-! ## The accessors -/

inductive AccessError where
  | contextRead | fileSeek | corruptedData | memorySize | memoryAlloc

/-- What `GetContext` of a thread or an exception and `GetMemory` of a region keep: `threadContext` or `memory` of the
record, and what was read for it before. -/
structure Accessor where
  isValid : Bool
  cached : Option (List UInt8) := none
  dataSize : ℕ
  rva : ℕ
  lastError : Option (AccessError × String) := none

def Accessor.failed (a : Accessor) (code : AccessError) (text : String) : Accessor :=
  {a with lastError := some (code, text)}

def Accessor.found (a : Accessor) (bytes : List UInt8) : Accessor :=
  {a with cached := some bytes, lastError := none}

/-- `sizeof(MDRawContextARM64)`. -/
def contextSize : ℕ := 952

def MinidumpContext.read (expectedSize : ℕ) (r : Reader) : Except String (List UInt8) × Reader :=
  if expectedSize < 4 then (.error "Context size too small", r)
  else
    match r.readBytes false 4 with
    | (none, r) => (.error "Failed to read context flags", r)
    | (some contextFlags, r) =>
      match r.readBytes false (min (expectedSize-4) (contextSize-4)) with
      | (none, r) => (.error "Failed to read ARM64 context", r)
      | (some context, r) => (.ok ((contextFlags ++ context).rightpad contextSize 0), r)

def getContext (name : String) (maxContextDataSize : Option ℕ) (a : Accessor) (r : Reader) :
    Option (List UInt8) × Accessor × Reader :=
  if !a.isValid then (none, a, r)
  else if a.cached.isSome then (a.cached, {a with lastError := none}, r)
  else
    let (position, r) := r.tell
    if position < 0 then
      (none, a.failed .fileSeek ("Cannot tell stream position for " ++ name ++ " context"), r)
    else
      match r.seekSet a.rva with
      | (false, r) => (none, a.failed .fileSeek ("Cannot seek to " ++ name ++ " context"), r)
      | (true, r) =>
        if maxContextDataSize.any (a.dataSize > ·) then
          (none, a.failed .corruptedData "Exception context data size too large", r)
        else
          match MinidumpContext.read a.dataSize r with
          | (.error text, r) => (none, a.failed .contextRead text, r)
          | (.ok context, r) => (some context, a.found context, (r.seekSet position).2)

def MinidumpThread.getContext : Accessor → Reader → Option (List UInt8) × Accessor × Reader :=
  Backends.getContext "thread" none

def MinidumpException.getContext : Accessor → Reader → Option (List UInt8) × Accessor × Reader :=
  Backends.getContext "exception" (some 4096)

def MinidumpMemoryRegion.getMemory (config : ParserConfig) (a : Accessor) (r : Reader) :
    Option (List UInt8) × Accessor × Reader :=
  if !a.isValid then (none, a, r)
  else if a.cached.isSome then (a.cached, a, r)
  else if a.dataSize > config.maxMemoryBytes then
    (none, a.failed .memorySize "Memory region size exceeds maximum", r)
  else
    let (position, r) := r.tell
    match r.seekSet a.rva with
    | (false, r) => (none, a.failed .fileSeek "Cannot seek to memory region", r)
    | (true, r) =>
      match r.readBytes false a.dataSize with
      | (none, r) => (none, a.failed .memoryAlloc "Cannot read memory region", (r.seekSet position).2)
      | (some memory, r) => (some memory, a.found memory, (r.seekSet position).2)

inductive AccessorKind where
  | threadContext | exceptionContext | memory

def AccessorKind.call (config : ParserConfig) :
    AccessorKind → Accessor → Reader → Option (List UInt8) × Accessor × Reader
  | .threadContext => MinidumpThread.getContext
  | .exceptionContext => MinidumpException.getContext
  | .memory => MinidumpMemoryRegion.getMemory config

/-- The readers of a file: a mapping at a position of it, or its stream in any state. -/
def Reader.Of (file : List UInt8) : BackendType → Reader → Prop
  | .mmap, .mmap m => m.mmapData = file ∧ m.mmapPos ≤ file.length
  | .istream, .stream s => s.file = file
  | _, _ => False

/-- The context is not sought, cannot be sought, or can be read. -/
def ContextStays (file : List UInt8) (b : BackendType) (maxContextDataSize : Option ℕ) (a : Accessor) : Prop :=
  a.isValid = false ∨ a.cached.isSome = true ∨ b = .mmap ∧ file.length < a.rva ∨
    maxContextDataSize.any (a.dataSize > ·) = false ∧ 4 ≤ a.dataSize ∧ a.rva+min a.dataSize contextSize ≤ file.length

/-- Where an accessor leaves the reader at its position. -/
def Stays (config : ParserConfig) (file : List UInt8) (b : BackendType) (a : Accessor) : AccessorKind → Prop
  | .threadContext => ContextStays file b none a
  | .exceptionContext => ContextStays file b (some 4096) a
  | .memory =>
    a.isValid = false ∨ a.cached.isSome = true ∨ a.dataSize > config.maxMemoryBytes ∨ b = .mmap ∨ a.dataSize = 0 ∨
      a.rva+a.dataSize ≤ file.length

theorem Reader.Of.cases {r : Reader} (h : r.Of file b) :
    (∃ pos, (b=.mmap → pos≤file.length) ∧ r=.working file pos b) ∨ ∃ s, s.good=false ∧ r=.stream s := by
  match b, r, h with
  | .mmap, .mmap m, h => exact .inl ⟨m.mmapPos, fun _ => h.2, by rw [working, ←h.1]⟩
  | .istream, .stream s, h =>
    cases hg : s.good with
    | false => exact .inr ⟨s, hg, rfl⟩
    | true =>
      obtain ⟨_, _, _, _, _⟩ := s
      simp_all [IStream.good, Reader.Of, working]

theorem Reader.of_working (h : b=.mmap → pos≤file.length) : (working file pos b).Of file b := by
  cases b with
  | mmap => exact ⟨rfl, h rfl⟩
  | istream => rfl

/-- One position tells whether an accessor moves the reader: it either brings every working reader back, or leaves them
all at one place. -/
theorem stays_iff {P : Prop} {f : Reader → Reader} (hfile : file≠[])
    (hb : P → ∀ pos, (b=.mmap → pos≤file.length) → (f (.working file pos b)).tell.1=pos)
    (hb1 : ∀ s, s.good=false → (f (.stream s)).tell.1=-1)
    (hm : ¬P → ∃ z, ∀ pos, (b=.mmap → pos≤file.length) → (f (.working file pos b)).tell.1=z) :
    (∀ r, r.Of file b → (f r).tell.1=r.tell.1) ↔ P := by
  have hl : 0<file.length := List.length_pos_of_ne_nil hfile
  refine ⟨fun h => ?_, fun hP r hr => ?_⟩
  · by_contra hP
    obtain ⟨z, hz⟩ := hm hP
    have ht1 (pos : ℕ) (hp : b=.mmap → pos≤file.length) : z=pos := by
      rw [←hz pos hp, h _ (of_working hp), tell_working]
    have h0 := ht1 0 fun _ => by omega
    have h1 := ht1 1 fun _ => by omega
    omega
  · obtain ⟨pos, hp, rfl⟩ | ⟨s, hs, rfl⟩ := hr.cases
    · rw [hb hP pos hp, tell_working]
    · obtain ⟨t, -, ht⟩ := tell_bad hs
      rw [hb1 s hs, ht]

section

variable {rva dataSize : ℕ}

theorem context_read (hs : 4≤dataSize) (h : rva+min dataSize contextSize≤file.length) : ∃ ctx next,
    MinidumpContext.read dataSize (.working file rva b)=(.ok ctx, .working file next b) := by
  have hf : rva+4≤file.length := by unfold contextSize at h; omega
  have hr : rva+4+min (dataSize-4) (contextSize-4)≤file.length := by omega
  rw [MinidumpContext.read, if_neg (by omega), readBytes_inside b hf fun _ => by decide]
  simp only
  rw [readBytes_inside b hr fun _ => by unfold contextSize memMaxLen; omega]
  exact ⟨_, _, rfl⟩

theorem context_read_short (h : ¬(4≤dataSize ∧ rva+min dataSize contextSize≤file.length)) : ∃ text r,
    MinidumpContext.read dataSize (.working file rva b)=(.error text, r) := by
  rw [MinidumpContext.read]
  split_ifs with hs
  · exact ⟨_, _, rfl⟩
  obtain hf | hf := lt_or_ge file.length (rva+4)
  · obtain ⟨r, hr, -⟩ := readBytes_short b (by decide : 0<4) hf
    rw [hr]
    exact ⟨_, _, rfl⟩
  · rw [readBytes_inside b hf fun _ => by decide]
    unfold contextSize at h ⊢
    have he : file.length< rva+4+min (dataSize-4) (952-4) := by omega
    obtain ⟨r, hr, -⟩ := readBytes_short b (by omega) he
    simp only [hr]
    exact ⟨_, _, rfl⟩

end

section

variable (hfile : file ≠ []) (a : Accessor)
include hfile

theorem getContext_stays_iff (name : String) (limit : Option ℕ) :
    (∀ r : Reader, r.Of file b → (getContext name limit a r).2.2.tell.1=r.tell.1) ↔ ContextStays file b limit a := by
  have hn (pos : ℕ) : ¬(pos : ℤ)<0 := by omega
  cases hv : a.isValid with
  | false => simp [getContext, ContextStays, hv]
  | true =>
  cases hc : a.cached with
  | some bytes => simp [getContext, ContextStays, hv, hc]
  | none =>
  simp only [ContextStays, hv, hc, Option.isSome_none, Bool.true_eq_false, Bool.false_eq_true, false_or]
  refine stays_iff hfile (fun hP pos hp => ?_) (fun s hs => ?_) fun hP => ?_
  · obtain ⟨rfl, h⟩ | ⟨hl, hs2, he⟩ := hP
    · simp [getContext, hv, hc, tell_working, hn, seekSet_behind file pos h]
    · obtain ⟨ctx, next, hr1⟩ := context_read (b := b) hs2 he
      have hm := seekSet_working file pos b a.rva fun _ => by omega
      have hb1 := seekSet_working file next b pos hp
      simp [getContext, hv, hc, tell_working, hn, hm, hl, hr1, hb1]
  · obtain ⟨t, ht, ht1⟩ := tell_bad hs
    simp [getContext, hv, hc, ht1, tell_failed ht]
  · obtain ⟨hs1, hr1⟩ := not_or.mp hP
    have hm (pos : ℕ) := seekSet_working file pos b a.rva fun hb => not_lt.mp fun h => hs1 ⟨hb, h⟩
    cases hl : limit.any (a.dataSize>·) with
    | true => exact ⟨a.rva, fun pos _ => by simp [getContext, hv, hc, tell_working, hn, hm, hl]⟩
    | false =>
      obtain ⟨text, r, hr⟩ := context_read_short (b := b) fun h => hr1 ⟨hl, h⟩
      exact ⟨r.tell.1, fun pos _ => by simp [getContext, hv, hc, tell_working, hn, hm, hl, hr]⟩

theorem getMemory_stays_iff (config : ParserConfig) :
    (∀ r : Reader, r.Of file b → (MinidumpMemoryRegion.getMemory config a r).2.2.tell.1=r.tell.1) ↔
      Stays config file b a .memory := by
  simp only [Stays]
  by_cases hi : a.isValid=false ∨ a.cached.isSome=true ∨ a.dataSize>config.maxMemoryBytes
  · have hr (r : Reader) : (MinidumpMemoryRegion.getMemory config a r).2.2=r := by
      unfold MinidumpMemoryRegion.getMemory
      grind
    grind
  obtain ⟨hv, hc, hm⟩ : a.isValid=true ∧ a.cached=none ∧ a.dataSize≤ config.maxMemoryBytes := by
    simpa using hi
  simp only [hv, hc, not_lt.mpr hm, Option.isSome_none, Bool.true_eq_false, Bool.false_eq_true, false_or]
  refine stays_iff hfile (fun hP pos hp => ?_) (fun s hs => ?_) fun hP => ?_
  · by_cases hr1 : b=.mmap ∧ file.length<a.rva
    · obtain ⟨rfl, hr1⟩ := hr1
      simp [MinidumpMemoryRegion.getMemory, hv, hc, not_lt.mpr hm, tell_working, seekSet_behind file pos hr1]
    · have hm1 := seekSet_working file pos b a.rva fun hb => not_lt.mp fun h => hr1 ⟨hb, h⟩
      obtain ⟨bytes, next, hr2⟩ := readBytes_working hP
      have hb1 := seekSet_working file next b pos hp
      cases bytes <;> simp [MinidumpMemoryRegion.getMemory, hv, hc, not_lt.mpr hm, tell_working, hm1, hr2, hb1]
  · obtain ⟨t, ht, ht1⟩ := tell_bad hs
    obtain ⟨u, hu, hs1⟩ := seekSet_failed a.rva ht
    simp [MinidumpMemoryRegion.getMemory, hv, hc, not_lt.mpr hm, ht1, hs1, tell_failed hu]
  · obtain ⟨hb, hs2, he⟩ := (by simpa only [not_or] using hP : ¬_ ∧ ¬_ ∧ ¬_)
    obtain ⟨r, hr, ⟨h, -⟩ | ⟨rfl, s, hs, rfl⟩⟩ := readBytes_short b (Nat.pos_of_ne_zero hs2) (not_le.mp he)
    · exact absurd h hb
    · refine ⟨-1, fun pos _ => ?_⟩
      obtain ⟨t, ht, hs1⟩ := seekSet_failed pos hs
      have hm1 := seekSet_working file pos .istream a.rva nofun
      simp [MinidumpMemoryRegion.getMemory, hv, hc, not_lt.mpr hm, tell_working, hm1, hr, hs1, tell_failed ht]

/-- An accessor leaves every reader of a file where it was if and only if the bytes it wants are not sought or can be
read. -/
theorem accessor_stays_iff (config : ParserConfig) (b : BackendType) (kind : AccessorKind) :
    (∀ r : Reader, r.Of file b → (kind.call config a r).2.2.tell.1 = r.tell.1) ↔ Stays config file b a kind := by
  cases kind with
  | threadContext => exact getContext_stays_iff hfile a _ _
  | exceptionContext => exact getContext_stays_iff hfile a _ _
  | memory => exact getMemory_stays_iff hfile a config

omit hfile in
theorem unread_context_moves_reader : ¬∀ (config : ParserConfig) (file : List UInt8) (b : BackendType)
    (kind : AccessorKind) (a : Accessor) (r : Reader), r.Of file b → (kind.call config a r).2.2.tell.1 = r.tell.1 :=
  fun h => absurd (h {} [1, 2] .mmap .threadContext ⟨true, none, 4, 1, none⟩ (.mmap ⟨[1, 2], 0⟩) ⟨rfl, by decide⟩)
    (by decide)

omit hfile in
theorem read_context_stays : ((List.replicate 8 (1 : UInt8)) ≠ []) ∧ ∀ r : Reader,
    r.Of (List.replicate 8 1) .istream → (AccessorKind.threadContext.call {} ⟨true, none, 4, 2, none⟩ r).2.2.tell.1 =
    r.tell.1 :=
  ⟨by decide, (accessor_stays_iff (by decide) _ {} .istream .threadContext).mpr (.inr (.inr (.inr (by decide))))⟩

end

end Faultloggerd.Minidump.Backends
