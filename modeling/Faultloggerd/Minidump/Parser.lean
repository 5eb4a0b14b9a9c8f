import Faultloggerd.Minidump.ModuleList

/-! # The parser (`minidump_parser.cpp`, `minidump_stream_pipeline.cpp`)

A parser reads the header and the stream directory of its file and then reads streams on demand (`getStream`) or through
the pipeline (`parseParallel`). Each stream is kept in the stream map; every list with ranges is given the adaptive
index of the process-wide optimizer.

`Operation` are the calls a user of a parser can make. A lookup is made on the stream the parser holds, the one an
earlier `GetStream` returned a pointer to.
-/
namespace Faultloggerd.Minidump

namespace MDStreamType

def threadList : ℕ := 3
def moduleList : ℕ := 4
def memoryList : ℕ := 5
def exception : ℕ := 6
def systemInfo : ℕ := 7
def miscInfo : ℕ := 15
def threadNameList : ℕ := 24
def esrInfo : ℕ := 0x47670001
def linuxMaps : ℕ := 0x47670009

end MDStreamType

inductive MinidumpStream where
  | threadList (l : MinidumpThreadList)
  | threadNameList (l : MinidumpThreadNameList)
  | moduleList (l : MinidumpModuleList)
  | memoryList (l : MinidumpMemoryList)
  | exception (l : MinidumpRecord)
  | systemInfo (l : MinidumpRecord)
  | miscInfo (l : MinidumpRecord)
  | mapList (l : MinidumpRecord)
  | esrInfo (l : MinidumpRecord)

namespace MinidumpStream

/-- `MinidumpStreamFactory::CreateStream` with the default creators, then `SetAddressIndexes`. -/
def create (config : ParserConfig) (streamType : ℕ) (reader : MinidumpMemoryReader) : Option MinidumpStream :=
  if streamType = MDStreamType.threadList then some (.threadList (.new reader))
  else if streamType = MDStreamType.threadNameList then some (.threadNameList (.new reader))
  else if streamType = MDStreamType.moduleList then some (.moduleList (.new reader true))
  else if streamType = MDStreamType.memoryList then some (.memoryList (.new config.toMinidumpConfig reader true))
  else if streamType = MDStreamType.exception then some (.exception (.new reader))
  else if streamType = MDStreamType.systemInfo then some (.systemInfo (.new reader))
  else if streamType = MDStreamType.miscInfo then some (.miscInfo (.new reader))
  else if streamType = MDStreamType.linuxMaps then some (.mapList (.new reader))
  else if streamType = MDStreamType.esrInfo then some (.esrInfo (.new reader))
  else none

def read (config : ParserConfig) (expectedSize : ℕ) (opt : ProcessOptimizer) :
    MinidumpStream → Bool × ProcessOptimizer × MinidumpStream
  | threadList l => let (ok, l) := l.read config expectedSize; (ok, opt, .threadList l)
  | threadNameList l => let (ok, l) := l.read config expectedSize; (ok, opt, .threadNameList l)
  | moduleList l => let (ok, opt, l) := l.read config opt; (ok, opt, .moduleList l)
  | memoryList l =>
    let (ok, memory, l) := l.read config.toMinidumpConfig expectedSize opt.toPerformanceOptimizer
    (ok, {opt with toPerformanceOptimizer := memory}, .memoryList l)
  | exception l => let (ok, l) := MinidumpException.read expectedSize l; (ok, opt, .exception l)
  | systemInfo l => let (ok, l) := MinidumpSystemInfo.read l; (ok, opt, .systemInfo l)
  | miscInfo l => let (ok, l) := MinidumpMiscInfo.read l; (ok, opt, .miscInfo l)
  | mapList l => let (ok, l) := MinidumpMapList.read config expectedSize l; (ok, opt, .mapList l)
  | esrInfo l => let (ok, l) := MinidumpEsrInfo.read expectedSize l; (ok, opt, .esrInfo l)

def memoryReader : MinidumpStream → Option MinidumpMemoryReader
  | threadList l => l.memoryReader
  | threadNameList l => l.memoryReader
  | moduleList l => l.memoryReader
  | memoryList l => l.memoryReader
  | exception l | systemInfo l | miscInfo l | mapList l | esrInfo l => l.memoryReader

def lastError : MinidumpStream → Option (StreamError×String)
  | threadList l => l.lastError
  | threadNameList l => l.lastError
  | moduleList l => l.lastError
  | memoryList l => l.lastError.map fun e => (.memoryList e.1, e.2)
  | exception l | systemInfo l | miscInfo l | mapList l | esrInfo l => l.lastError

end MinidumpStream

structure MDRawHeader where
  signature : ℕ
  version : ℕ
  numberOfStreams : ℕ
  streamDirectoryRva : ℕ
deriving DecidableEq

namespace MDRawHeader

def byteSize : ℕ := 32

def decode (bytes : List UInt8) : MDRawHeader where
  signature := leValue (bytes.take 4)
  version := leValue ((bytes.drop 4).take 4)
  numberOfStreams := leValue ((bytes.drop 8).take 4)
  streamDirectoryRva := leValue ((bytes.drop 12).take 4)

end MDRawHeader

def minidumpHeaderSignature : ℕ := 0x504d444d
def minidumpHeaderSignatureSwap : ℕ := 0x4d444d50
def minidumpHeaderVersion : ℕ := 0xa793

structure MDRawDirectory where
  streamType : ℕ
  dataSize : ℕ
  rva : ℕ

namespace MDRawDirectory

def byteSize : ℕ := 12

def decode (bytes : List UInt8) : MDRawDirectory where
  streamType := leValue (bytes.take 4)
  dataSize := leValue ((bytes.drop 4).take 4)
  rva := leValue ((bytes.drop 8).take 4)

def decodeAt (bytes : List UInt8) (i : ℕ) : MDRawDirectory := decode ((bytes.drop (byteSize*i)).take byteSize)

end MDRawDirectory

structure MinidumpStreamInfo where
  streamIndex : ℕ
  stream : Option MinidumpStream

structure MinidumpParser where
  file : List UInt8
  header : MDRawHeader
  directory : List MDRawDirectory
  streamMap : ℕ → Option MinidumpStreamInfo
  memoryReader : Option MinidumpMemoryReader
  isValid : Bool
  lastError : Option (StreamError×String)

namespace MinidumpParser

def new (file : List UInt8) : MinidumpParser where
  file := file
  header := ⟨0, 0, 0, 0⟩
  directory := []
  streamMap := fun _ => none
  memoryReader := none
  isValid := false
  lastError := none

def fail (code : StreamError) (message : String) (p : MinidumpParser) : MinidumpParser :=
  {p with lastError := some (code, message)}

def validateFileHeader (config : ParserConfig) (p : MinidumpParser) : Bool × MinidumpParser :=
  if p.header.signature ≠ minidumpHeaderSignature then
    if p.header.signature = minidumpHeaderSignatureSwap then
      (false, p.fail .endianness "Big-endian file not supported")
    else (false, p.fail .signature ("Invalid signature: 0x" ++ toString p.header.signature))
  else if p.header.version &&& 0x0000ffff ≠ minidumpHeaderVersion then (false, p.fail .version "Version mismatch")
  else if p.header.numberOfStreams = 0 ∨ p.header.numberOfStreams > config.maxStreams then
    (false, p.fail .streamCount "Stream count invalid")
  else (true, p)

def readMinidumpHeader (config : ParserConfig) (p : MinidumpParser) : Bool × MinidumpParser :=
  let reader : MinidumpMemoryReader := ⟨p.file, 0⟩
  match reader.readBytes MDRawHeader.byteSize with
  | none => (false, {p with memoryReader := some reader}.fail .fileRead "Cannot read header")
  | some (bytes, reader) =>
    let p := {p with memoryReader := some reader, header := MDRawHeader.decode bytes}
    if p.header.numberOfStreams > 0xFFFFFFFD then (false, p.fail .corruptedData "numberOfStreams too large")
    else p.validateFileHeader config

/-- The types that may stand in the directory only once. -/
def singleTypes : List ℕ :=
  [MDStreamType.threadList, MDStreamType.threadNameList, MDStreamType.moduleList, MDStreamType.memoryList,
    MDStreamType.exception, MDStreamType.systemInfo, MDStreamType.miscInfo, MDStreamType.linuxMaps]

def registerStreamDirectoryEntry (entry : MDRawDirectory) (index : ℕ) (p : MinidumpParser) : Bool × MinidumpParser :=
  if entry.streamType ∈ singleTypes ∧ (p.streamMap entry.streamType).isSome then
    (false, p.fail .alreadyExists "Duplicate stream type")
  else
    let stream := (p.streamMap entry.streamType).bind MinidumpStreamInfo.stream
    (true, {p with streamMap := Function.update p.streamMap entry.streamType (some ⟨index, stream⟩)})

def registerEntries : List (MDRawDirectory×ℕ) → MinidumpParser → Bool × MinidumpParser
  | [], p => (true, p)
  | (entry, i) :: rest, p =>
    match p.registerStreamDirectoryEntry entry i with
    | (false, p) => (false, p)
    | (true, p) => registerEntries rest p

def readStreamDirectory (p : MinidumpParser) : Bool × MinidumpParser :=
  if p.header.streamDirectoryRva < MDRawHeader.byteSize then
    (false, p.fail .corruptedData "Stream directory RVA overlaps with header")
  else
    match p.memoryReader with
    | none => (false, p.fail .fileSeek "MinidumpParser memoryReader is null")
    | some r =>
      match r.seekSet p.header.streamDirectoryRva with
      | none => (false, p.fail .fileSeek "Cannot seek to stream directory")
      | some r =>
        match r.readBytes (MDRawDirectory.byteSize*p.header.numberOfStreams) with
        | none => (false, {p with memoryReader := some r}.fail .streamRead "Cannot read stream directory")
        | some (bytes, r) =>
          let directory := (List.range p.header.numberOfStreams).map (MDRawDirectory.decodeAt bytes)
          match registerEntries directory.zipIdx {p with memoryReader := some r} with
          | (false, p) => (false, p)
          | (true, p) => (true, {p with directory := directory})

def parse (config : ParserConfig) (p : MinidumpParser) : Bool × MinidumpParser :=
  match {p with isValid := false}.readMinidumpHeader config with
  | (false, p) => (false, p)
  | (true, p) =>
    match p.readStreamDirectory with
    | (false, p) => (false, p)
    | (true, p) => (true, {p with isValid := true, lastError := none})

def getDirectoryEntryAtIndex (index : ℕ) (p : MinidumpParser) : Option MDRawDirectory :=
  if !p.isValid || index ≥ p.header.numberOfStreams then none else p.directory[index]?

def getDirectoryEntryAtType (streamType : ℕ) (p : MinidumpParser) : Option MDRawDirectory :=
  if !p.isValid then none
  else (p.streamMap streamType).bind fun info => p.getDirectoryEntryAtIndex info.streamIndex

def seekToStreamType (streamType : ℕ) (p : MinidumpParser) :
    Option (MinidumpMemoryReader×ℕ) × MinidumpParser :=
  if !p.isValid then (none, p)
  else
    match p.getDirectoryEntryAtType streamType with
    | none => (none, p.fail .notFound ("Stream type not found: " ++ toString streamType))
    | some entry =>
      match p.memoryReader with
      | none => (none, p.fail .fileSeek "MinidumpParser memoryReader is null")
      | some r =>
        if !r.validateStreamExtent entry.rva entry.dataSize then
          (none, p.fail .fileSeek ("Stream range out of bounds: rva=" ++ toString entry.rva ++ " dataSize=" ++
            toString entry.dataSize ++ " fileSize=" ++ toString r.mmapData.length))
        else
          match r.seekSet entry.rva with
          | none => (none, p.fail .fileSeek "Cannot seek to stream type")
          | some r => (some (r, entry.dataSize), {p with memoryReader := some r, lastError := none})

def setStream (streamType : ℕ) (stream : MinidumpStream) (p : MinidumpParser) : MinidumpParser :=
  let info := (p.streamMap streamType).map fun info => {info with stream := some stream}
  {p with streamMap := Function.update p.streamMap streamType info}

def loadStream (config : ParserConfig) (streamType : ℕ) (p : MinidumpParser) (opt : ProcessOptimizer) :
    Bool × MinidumpParser × ProcessOptimizer :=
  match p.seekToStreamType streamType with
  | (none, p) => (false, p, opt)
  | (some (r, length), p) =>
    match MinidumpStream.create config streamType r with
    | none => (false, p, opt)
    | some stream =>
      match stream.read config length opt with
      | (false, opt, stream) =>
        (false, {p with memoryReader := stream.memoryReader, lastError := stream.lastError}, opt)
      | (true, opt, stream) =>
        (true, {p with memoryReader := stream.memoryReader, lastError := none}.setStream streamType stream, opt)

def getStream (config : ParserConfig) (streamType : ℕ) (p : MinidumpParser) (opt : ProcessOptimizer) :
    Bool × MinidumpParser × ProcessOptimizer :=
  if !p.isValid then (false, p, opt)
  else
    match p.streamMap streamType with
    | none => (false, p, opt)
    | some info =>
      if info.stream.isSome then (true, {p with lastError := none}, opt)
      else p.loadStream config streamType opt

/-- `StreamPipeline::ParseStream`, with a reader of its own. -/
def parseStream (config : ParserConfig) (streamType : ℕ) (p : MinidumpParser) (opt : ProcessOptimizer) :
    Option MinidumpStream × ProcessOptimizer :=
  match p.getDirectoryEntryAtType streamType with
  | none => (none, opt)
  | some entry =>
    let reader : MinidumpMemoryReader := ⟨p.file, 0⟩
    if !reader.validateStreamExtent entry.rva entry.dataSize then (none, opt)
    else
      match reader.seekSet entry.rva with
      | none => (none, opt)
      | some reader =>
        match MinidumpStream.create config streamType reader with
        | none => (none, opt)
        | some stream =>
          match stream.read config entry.dataSize opt with
          | (false, opt, _) => (none, opt)
          | (true, opt, stream) => (some stream, opt)

def injectStream (streamType : ℕ) (stream : MinidumpStream) (p : MinidumpParser) : MinidumpParser :=
  if !p.isValid then p
  else
    match p.streamMap streamType with
    | none => p
    | some info => if info.stream.isSome then p else p.setStream streamType stream

def parseStreams (config : ParserConfig) (p : MinidumpParser) :
    List ℕ → ProcessOptimizer → List (ℕ×Option MinidumpStream) × ProcessOptimizer
  | [], opt => ([], opt)
  | streamType :: rest, opt =>
    let (stream, opt) := p.parseStream config streamType opt
    let (streams, opt) := parseStreams config p rest opt
    ((streamType, stream)::streams, opt)

def injectStreams : List (ℕ×Option MinidumpStream) → MinidumpParser → MinidumpParser
  | [], p => p
  | (streamType, some stream) :: rest, p => injectStreams rest (p.injectStream streamType stream)
  | (_, none) :: rest, p => injectStreams rest p

/-- `ParseParallel` runs `ParseStream` for all types at once and then injects what they return. Lists of different
types register in different indexes, so their order does not matter. -/
def parseParallel (config : ParserConfig) (streamTypes : List ℕ) (p : MinidumpParser) (opt : ProcessOptimizer) :
    MinidumpParser × ProcessOptimizer :=
  if !config.enableParallelParsing then (p, opt)
  else
    let (streams, opt) := p.parseStreams config streamTypes opt
    (injectStreams streams p, opt)

def stream (streamType : ℕ) (p : MinidumpParser) : Option MinidumpStream :=
  (p.streamMap streamType).bind MinidumpStreamInfo.stream

end MinidumpParser

inductive Operation where
  | parse
  | getStream (streamType : ℕ)
  | parseParallel (streamTypes : List ℕ)
  | getMemoryRegionForAddress (address : ℕ)
  | getMemoryRegionAtIndex (index : ℕ)
  | getMemoryRegions
  | getModuleForAddress (address : ℕ)
  | getModuleAtIndex (index : ℕ)
  | getMainModule
  | getModules
  | getThreadByID (threadId : ℕ)
  | getThreadAtIndex (index : ℕ)
  | getThreads
  | getThreadNameById (threadId : ℕ)
  | getThreadNameAtIndex (index : ℕ)
  | getThreadNames
  | getContents (streamType : ℕ)

inductive Answer where
  | none
  | returned (ok : Bool)
  | position (index : Option ℕ)
  | regions (regions : List MinidumpMemoryRegion)
  | modules (modules : List MinidumpModule)
  | threads (threads : Option (List MinidumpThread))
  | name (name : List UInt8)
  | threadNames (names : List MinidumpThreadName)
  | contents (contents : List UInt8)
deriving DecidableEq

namespace Operation

def inspect (config : ParserConfig) (opt : ProcessOptimizer) : Operation → MinidumpStream → Answer
  | getMemoryRegionAtIndex i, .memoryList l => .position (l.getMemoryRegionAtIndex i)
  | getMemoryRegions, .memoryList l => .regions l.regions
  | getModuleForAddress a, .moduleList l => .position (l.getModuleForAddress config opt a)
  | getModuleAtIndex i, .moduleList l => .position (l.getModuleAtIndex i)
  | getMainModule, .moduleList l => .position l.getMainModule
  | getModules, .moduleList l => .modules l.modules
  | getThreadByID i, .threadList l => .position (l.getThreadByID i)
  | getThreadAtIndex i, .threadList l => .position (l.getThreadAtIndex i)
  | getThreads, .threadList l => .threads l.getThreads
  | getThreadNameById i, .threadNameList l => .name (l.getThreadNameById i)
  | getThreadNameAtIndex i, .threadNameList l => .position (l.getThreadNameAtIndex i)
  | getThreadNames, .threadNameList l => .threadNames l.threadNames
  | getContents _, .exception l => .contents l.getContents
  | getContents _, .systemInfo l => .contents l.getContents
  | getContents _, .miscInfo l => .contents l.getContents
  | getContents _, .mapList l => .contents l.getContents
  | getContents _, .esrInfo l => .contents l.getContents
  | _, _ => .none

def streamType : Operation → ℕ
  | getMemoryRegionForAddress _ | getMemoryRegionAtIndex _ | getMemoryRegions => MDStreamType.memoryList
  | getModuleForAddress _ | getModuleAtIndex _ | getMainModule | getModules => MDStreamType.moduleList
  | getThreadByID _ | getThreadAtIndex _ | getThreads => MDStreamType.threadList
  | getThreadNameById _ | getThreadNameAtIndex _ | getThreadNames => MDStreamType.threadNameList
  | getStream t | getContents t => t
  | parse | parseParallel _ => 0

def step (config : ParserConfig) (op : Operation) (p : MinidumpParser) (opt : ProcessOptimizer) :
    Answer × MinidumpParser × ProcessOptimizer :=
  match op with
  | parse => let (ok, p) := p.parse config; (.returned ok, p, opt)
  | getStream t => let (ok, p, opt) := p.getStream config t opt; (.returned ok, p, opt)
  | parseParallel types => let (p, opt) := p.parseParallel config types opt; (.none, p, opt)
  | getMemoryRegionForAddress a =>
    match p.stream MDStreamType.memoryList with
    | some (.memoryList l) =>
      -- a lookup writes the cache of the list
      let (result, l) := l.getMemoryRegionForAddress config.toMinidumpConfig opt.toPerformanceOptimizer a
      (.position result, p.setStream MDStreamType.memoryList (.memoryList l), opt)
    | _ => (.none, p, opt)
  | op => (((p.stream op.streamType).map (op.inspect config opt)).getD .none, p, opt)

def effect (config : ParserConfig) (op : Operation) (s : MinidumpParser×ProcessOptimizer) :
    MinidumpParser × ProcessOptimizer :=
  (op.step config s.1 s.2).2

def answersOf (config : ParserConfig) : List Operation → MinidumpParser → ProcessOptimizer → List Answer
  | [], _, _ => []
  | op :: calls, p, opt => let (answer, p, opt) := op.step config p opt; answer :: answersOf config calls p opt

end Operation
end Faultloggerd.Minidump
