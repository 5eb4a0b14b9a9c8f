import Faultloggerd.Minidump.MemoryList

/-! # The streams that register no ranges

The rest of `MinidumpMemoryReader`, the settings and the error codes of the parser, and the streams whose `Read` has
no effect outside the stream: thread list, thread names, and the five streams that keep one record of the file
(exception, system information, miscellaneous information, memory maps, ESR).
-/
namespace Faultloggerd.Minidump

structure ParserConfig extends MinidumpConfig where
  maxStreams : ℕ := 128
  maxStringLength : ℕ := 1024
  maxThreads : ℕ := 400
  maxModules : ℕ := 2048
  maxMemoryBytes : ℕ := 64*1024*1024
  enableParallelParsing : Bool := true

/-- The codes the parser can report: those of a memory list, and those of its other parts. -/
inductive StreamError where
  | memoryList (code : MinidumpError)
  | fileRead | fileSeek | signature | version | endianness | streamCount | streamRead | threadCount | threadRead
  | moduleCount | moduleRead | stringRead | rangeOverlap | alreadyExists | notFound | corruptedData

namespace MinidumpMemoryReader

/-- An `off_t` at or above `2 ^ 63` is negative. -/
def seekSet (offset : ℕ) (r : MinidumpMemoryReader) : Option MinidumpMemoryReader :=
  if offset ≥ 2^63 then none
  else if offset > r.mmapData.length then none
  else some {r with mmapPos := offset}

def validateStreamExtent (rva dataSize : ℕ) (r : MinidumpMemoryReader) : Bool :=
  r.mmapData.length = 0 || rva+dataSize ≤ r.mmapData.length

def readRecords (byteSize : ℕ) : ℕ → MinidumpMemoryReader → Option (List (List UInt8)) × MinidumpMemoryReader
  | 0, r => (some [], r)
  | n+1, r =>
    match r.readBytes byteSize with
    | none => (none, r)
    | some (bytes, r) =>
      match readRecords byteSize n r with
      | (none, r) => (none, r)
      | (some rest, r) => (some (bytes :: rest), r)

def encodeUTF8 (cp : ℕ) : Option (List UInt8) :=
  if cp < 0x80 then some [UInt8.ofNat cp]
  else if cp < 0x800 then some [UInt8.ofNat (0xC0 ||| cp >>> 6), UInt8.ofNat (0x80 ||| cp &&& 0x3F)]
  else if cp < 0x10000 then
    some [UInt8.ofNat (0xE0 ||| cp >>> 12), UInt8.ofNat (0x80 ||| (cp >>> 6) &&& 0x3F),
      UInt8.ofNat (0x80 ||| cp &&& 0x3F)]
  else if cp < 0x110000 then
    some [UInt8.ofNat (0xF0 ||| cp >>> 18), UInt8.ofNat (0x80 ||| (cp >>> 12) &&& 0x3F),
      UInt8.ofNat (0x80 ||| (cp >>> 6) &&& 0x3F), UInt8.ofNat (0x80 ||| cp &&& 0x3F)]
  else none

/-- The loop of `ConvertUTF16ToUTF8`; `none` where it returns the empty string at once. -/
def convertLoop : List ℕ → Option (List UInt8)
  | [] => some []
  | cp :: rest =>
    if cp = 0 then some []
    else if 0xD800 ≤ cp ∧ cp ≤ 0xDBFF then
      match rest with
      | [] => none
      | low :: rest =>
        if 0xDC00 ≤ low ∧ low ≤ 0xDFFF then
          (encodeUTF8 (cp <<< 10+low-0x35FDC00)).bind fun bytes => (convertLoop rest).map (bytes ++ ·)
        else none
    else if 0xDC00 ≤ cp ∧ cp ≤ 0xDFFF then none
    else (encodeUTF8 cp).bind fun bytes => (convertLoop rest).map (bytes ++ ·)

def convertUTF16ToUTF8 (units : List ℕ) : List UInt8 := (convertLoop units).getD []

def utf16Units (bytes : List UInt8) : List ℕ :=
  (List.range (bytes.length/2)).map fun i => leValue ((bytes.drop (2*i)).take 2)

def readString (config : ParserConfig) (offset : ℕ) (r : MinidumpMemoryReader) :
    Option (List UInt8) × MinidumpMemoryReader :=
  match r.seekSet offset with
  | none => (none, r)
  | some r =>
    match r.readBytes 4 with
    | none => (none, r)
    | some (bytes, r) =>
      let length := leValue bytes
      if length = 0 ∨ length % 2 ≠ 0 then (none, r)
      else if length/2 = 0 ∨ length/2 > config.maxStringLength then (none, r)
      else
        match r.readBytes length with
        | none => (none, r)
        | some (data, r) => (some (convertUTF16ToUTF8 (utf16Units data)), r)

end MinidumpMemoryReader

structure MDRawThread where
  threadId : ℕ
  stack : MDMemoryDescriptor
deriving DecidableEq

namespace MDRawThread

def byteSize : ℕ := 48

def decode (bytes : List UInt8) : MDRawThread where
  threadId := leValue (bytes.take 4)
  stack := MDMemoryDescriptor.decode ((bytes.drop 24).take MDMemoryDescriptor.byteSize)

end MDRawThread

structure MinidumpThread where
  thread : MDRawThread
  memory : Option MinidumpMemoryRegion
  isValid : Bool
deriving DecidableEq

namespace MinidumpThread

def read (r : MinidumpMemoryReader) : Option (MinidumpThread×MinidumpMemoryReader) :=
  (r.readBytes MDRawThread.byteSize).map fun (bytes, r) =>
    let thread := MDRawThread.decode bytes
    let memory :=
      if thread.stack.rva = 0 ∨ thread.stack.dataSize = 0 ∨ ¬thread.stack.Fits then none
      else some (MinidumpMemoryRegion.ofDescriptor thread.stack)
    (⟨thread, memory, true⟩, r)

def getThreadID (t : MinidumpThread) : Option ℕ := if t.isValid then some t.thread.threadId else none

end MinidumpThread

structure MinidumpThreadList where
  memoryReader : Option MinidumpMemoryReader
  isValid : Bool
  lastError : Option (StreamError×String)
  /-- A thread is given as its position in `threads_`. -/
  idToThreadMap : List (ℕ×ℕ)
  threads : Option (List MinidumpThread)
  threadCount : ℕ

namespace MinidumpThreadList

def new (reader : Option MinidumpMemoryReader) : MinidumpThreadList := ⟨reader, false, none, [], none, 0⟩

def readThreadCount (config : ParserConfig) (expectedSize : ℕ) (l : MinidumpThreadList) :
    Option ℕ × MinidumpThreadList :=
  let l := {l with isValid := false, idToThreadMap := [], threads := none, threadCount := 0}
  if expectedSize < 4 then (none, {l with lastError := some (.corruptedData, "Invalid thread list size")})
  else
    match l.memoryReader with
    | none => (none, {l with lastError := some (.threadRead, "MinidumpThreadList memoryReader is null")})
    | some r =>
      match r.readBytes 4 with
      | none => (none, {l with lastError := some (.threadRead, "Cannot read thread count")})
      | some (bytes, r) =>
        let l := {l with memoryReader := some r}
        let threadCount := leValue bytes
        if threadCount > config.maxThreads then
          (none, {l with lastError := some (.threadCount, "Thread count exceeds maximum")})
        else if threadCount = 0 then
          (none, {l with lastError := some (.threadCount, "Thread count is zero")})
        else (some threadCount, l)

def readThreads : ℕ → List MinidumpThread → MinidumpThreadList → Bool × MinidumpThreadList
  | 0, threads, l => (true, {l with threads := some threads})
  | n+1, threads, l =>
    match l.memoryReader with
    | none => (false, {l with lastError := some (.threadRead, "MinidumpThread memoryReader is null")})
    | some r =>
      match MinidumpThread.read r with
      | none => (false, {l with lastError := some (.threadRead, "Cannot read thread data")})
      | some (thread, r) =>
        let l := {l with memoryReader := some r}
        match thread.getThreadID with
        | none => (false, {l with lastError := some (.threadRead, "Cannot get thread ID")})
        | some threadId =>
          if l.idToThreadMap.any (·.1=threadId) then
            (false, {l with lastError := some (.alreadyExists, "Duplicate thread ID")})
          else
            readThreads n (threads++[thread])
              {l with idToThreadMap := l.idToThreadMap++[(threadId, threads.length)]}

def readThreadData (threadCount : ℕ) (l : MinidumpThreadList) : Bool × MinidumpThreadList :=
  readThreads threadCount [] {l with threadCount := threadCount}

def read (config : ParserConfig) (expectedSize : ℕ) (l : MinidumpThreadList) : Bool × MinidumpThreadList :=
  match l.readThreadCount config expectedSize with
  | (none, l) => (false, l)
  | (some threadCount, l) =>
    match l.readThreadData threadCount with
    | (false, l) => (false, l)
    | (true, l) => (true, {l with isValid := true, lastError := none})

def getThreadAtIndex (l : MinidumpThreadList) (index : ℕ) : Option ℕ :=
  if !l.isValid || index ≥ l.threadCount then none else some index

def getThreadByID (l : MinidumpThreadList) (threadId : ℕ) : Option ℕ :=
  if !l.isValid then none else (l.idToThreadMap.find? (·.1=threadId)).map Prod.snd

def getThreads (l : MinidumpThreadList) : Option (List MinidumpThread) := if l.isValid then l.threads else none

end MinidumpThreadList

structure MDRawThreadName where
  threadId : ℕ
  rvaOfThreadName : ℕ
deriving DecidableEq

namespace MDRawThreadName

def byteSize : ℕ := 12

def decode (bytes : List UInt8) : MDRawThreadName where
  threadId := leValue (bytes.take 4)
  rvaOfThreadName := leValue ((bytes.drop 4).take 8)

end MDRawThreadName

structure MinidumpThreadName where
  threadName : MDRawThreadName
  name : Option (List UInt8)
  isValid : Bool
deriving DecidableEq

def MinidumpThreadName.readAuxiliaryData (config : ParserConfig) (r : MinidumpMemoryReader)
    (t : MinidumpThreadName) : Bool × MinidumpThreadName × MinidumpMemoryReader :=
  let (name, r) :=
    if t.threadName.rvaOfThreadName ≠ 0 then r.readString config t.threadName.rvaOfThreadName else (none, r)
  match name with
  | none => (false, {t with name := none}, r)
  | some name => (true, {t with name := some name, isValid := true}, r)

structure MinidumpThreadNameList where
  memoryReader : Option MinidumpMemoryReader
  isValid : Bool
  lastError : Option (StreamError×String)
  threadIdToNameMap : List (ℕ×List UInt8)
  threadNames : List MinidumpThreadName
  threadNameCount : ℕ

namespace MinidumpThreadNameList

def new (reader : Option MinidumpMemoryReader) : MinidumpThreadNameList := ⟨reader, false, none, [], [], 0⟩

def readThreadNameAuxiliaryData (config : ParserConfig) :
    List (MinidumpThreadName×ℕ) → MinidumpMemoryReader → MinidumpThreadNameList → Bool × MinidumpThreadNameList
  | [], r, l => (true, {l with memoryReader := some r})
  | (t, i) :: rest, r, l =>
    match t.readAuxiliaryData config r with
    | (false, t, r) =>
      (false, {l with
        memoryReader := some r
        threadNames := l.threadNames.set i t
        lastError := some (.stringRead, "Cannot read thread name string")})
    | (true, t, r) =>
      -- `insert` keeps the name an earlier entry gave the thread
      let map :=
        if l.threadIdToNameMap.any (·.1=t.threadName.threadId) then l.threadIdToNameMap
        else l.threadIdToNameMap++[(t.threadName.threadId, t.name.getD [])]
      readThreadNameAuxiliaryData config rest r
        {l with threadNames := l.threadNames.set i t, threadIdToNameMap := map}

def read (config : ParserConfig) (expectedSize : ℕ) (l : MinidumpThreadNameList) : Bool × MinidumpThreadNameList :=
  let l := {l with threadNameCount := 0, isValid := false, threadNames := [], threadIdToNameMap := []}
  match l.memoryReader with
  | none => (false, {l with lastError := some (.streamRead, "MinidumpThreadNameList memoryReader is null")})
  | some r =>
    match r.readBytes 4 with
    | none => (false, {l with lastError := some (.streamRead, "Cannot read thread name count")})
    | some (bytes, r) =>
      let l := {l with memoryReader := some r}
      let threadNameCount := leValue bytes
      if threadNameCount = 0 ∨ threadNameCount > config.maxThreads then
        (false, {l with lastError := some (.threadCount, "Invalid thread name count")})
      else if 4+MDRawThreadName.byteSize*threadNameCount > expectedSize then
        (false, {l with lastError := some (.streamRead, "Thread name list stream size mismatch")})
      else
        match r.readRecords MDRawThreadName.byteSize threadNameCount with
        | (none, r) =>
          (false, {l with memoryReader := some r, lastError := some (.streamRead, "Cannot read thread name")})
        | (some records, r) =>
          let threadNames := records.map fun bytes => ⟨MDRawThreadName.decode bytes, none, false⟩
          match readThreadNameAuxiliaryData config threadNames.zipIdx r {l with threadNames := threadNames} with
          | (false, l) => (false, l)
          | (true, l) => (true, {l with threadNameCount := threadNameCount, isValid := true, lastError := none})

def getThreadNameAtIndex (l : MinidumpThreadNameList) (index : ℕ) : Option ℕ :=
  if !l.isValid || index ≥ l.threadNameCount then none else some index

def getThreadNameById (l : MinidumpThreadNameList) (threadId : ℕ) : List UInt8 :=
  if !l.isValid then []
  else ((l.threadIdToNameMap.find? (·.1=threadId)).map Prod.snd).getD []

end MinidumpThreadNameList

/-- A stream that keeps one record as it stands in the file. -/
structure MinidumpRecord where
  memoryReader : Option MinidumpMemoryReader
  isValid : Bool
  lastError : Option (StreamError×String)
  contents : List UInt8

namespace MinidumpRecord

def new (reader : Option MinidumpMemoryReader) : MinidumpRecord := ⟨reader, false, none, []⟩

/-- `Read` of a stream that keeps `count` bytes; a failure sets the given errors, where the stream sets one. -/
def readBytes (count : ℕ) (nullError readError : Option (StreamError×String)) (l : MinidumpRecord) :
    Bool × MinidumpRecord :=
  let l := {l with isValid := false}
  match l.memoryReader with
  | none => (false, {l with lastError := nullError.or l.lastError})
  | some r =>
    match r.readBytes count with
    | none => (false, {l with lastError := readError.or l.lastError})
    | some (bytes, r) => (true, {l with memoryReader := some r, contents := bytes, isValid := true})

def getContents (l : MinidumpRecord) : List UInt8 := if l.isValid then l.contents else []

end MinidumpRecord

def MinidumpException.byteSize : ℕ := 168

def MinidumpException.read (expectedSize : ℕ) (l : MinidumpRecord) : Bool × MinidumpRecord :=
  if expectedSize < MinidumpException.byteSize then
    (false, {l with isValid := false, lastError := some (.streamRead, "Exception stream too small")})
  else
    match l.readBytes MinidumpException.byteSize (some (.streamRead, "MinidumpException memoryReader is null"))
        (some (.streamRead, "Cannot read exception stream")) with
    | (false, l) => (false, l)
    | (true, l) => (true, {l with lastError := none})

def MinidumpSystemInfo.byteSize : ℕ := 40

def MinidumpSystemInfo.read (l : MinidumpRecord) : Bool × MinidumpRecord :=
  match l.readBytes MinidumpSystemInfo.byteSize (some (.streamRead, "MinidumpSystemInfo memoryReader is null"))
      (some (.streamRead, "Cannot read system info")) with
  | (false, l) => (false, l)
  | (true, l) => (true, {l with lastError := none})

def MinidumpMiscInfo.byteSize : ℕ := 56

/-- The record starts with its own size; what it does not hold is zero. -/
def MinidumpMiscInfo.read (l : MinidumpRecord) : Bool × MinidumpRecord :=
  let l := {l with isValid := false}
  match l.memoryReader with
  | none => (false, {l with lastError := some (.streamRead, "MinidumpMiscInfo memoryReader is null")})
  | some r =>
    match r.readBytes 4 with
    | none => (false, {l with lastError := some (.streamRead, "Cannot read misc info size")})
    | some (bytes, _) =>
      match r.readBytes (min (leValue bytes) MinidumpMiscInfo.byteSize) with
      | none => (false, {l with lastError := some (.streamRead, "Cannot read misc info data")})
      | some (bytes, r) =>
        (true, {l with
          memoryReader := some r
          contents := bytes++List.replicate (MinidumpMiscInfo.byteSize-bytes.length) 0
          isValid := true
          lastError := none})

/-- The text without the bytes `0`, `0xFF` and `0xFE` at its end, closed by one `0`. -/
def MinidumpMapList.read (config : ParserConfig) (expectedSize : ℕ) (l : MinidumpRecord) : Bool × MinidumpRecord :=
  let l := {l with contents := []}
  if expectedSize = 0 ∨ expectedSize > config.maxMemoryBytes then (false, {l with isValid := false})
  else
    match l.readBytes expectedSize none none with
    | (false, l) => (false, l)
    | (true, l) =>
      let text := (l.contents.reverse.dropWhile fun b => b=0 ∨ b=0xFF ∨ b=0xFE).reverse
      (true, {l with contents := text++[0]})

def MinidumpEsrInfo.byteSize : ℕ := 16

def MinidumpEsrInfo.read (expectedSize : ℕ) (l : MinidumpRecord) : Bool × MinidumpRecord :=
  if expectedSize < MinidumpEsrInfo.byteSize then (false, {l with isValid := false})
  else l.readBytes MinidumpEsrInfo.byteSize (some (.streamRead, "MinidumpEsrInfo memoryReader is null")) none

end Faultloggerd.Minidump
