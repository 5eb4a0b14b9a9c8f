import Faultloggerd.Foundations.ByteStore
import Faultloggerd.Foundations.ByteStream
import Faultloggerd.LiteDump.ThreadStacks
import Faultloggerd.SignalHandler.Dispatch

/-! # The lite-dump pipe (`dfx_lite_dump_request.c`, `lite_process_dumper.cpp`)

A process that cannot be dumped from outside sends its state through a pipe: the request, the texts of `/proc`, the
stack, the stacks of the other threads, the memory near the registers, and texts up to the end of the pipe.
`LiteCrashHandler` writes the sections and `LiteProcessDumper::ReadContent`, in another program, reads them back. Each
side looks at the type of the request to know which sections there are.

The structures are sent as they lie in memory; both programs have the same sizes of them.
-/
namespace Faultloggerd.LiteDump

open Foundations.ByteStore Foundations.ByteStream SignalHandler

abbrev Bytes := List UInt8

inductive ProcessDumpType where
  | cppCrash | dumpCatch | memLeak | fdsan | jemalloc | badfd | coredump | pipe | arktsEnvsan
deriving DecidableEq

def ProcessDumpType.code : ProcessDumpType → ℕ
  | .cppCrash => 0
  | .dumpCatch => 1
  | .memLeak => 2
  | .fdsan => 3
  | .jemalloc => 4
  | .badfd => 5
  | .coredump => 6
  | .pipe => 7
  | .arktsEnvsan => 8

def sigleakStackCoredump : ℕ := 3
def sigleakStackBadfd : ℕ := 0xbadfd

def getDumpType (signo : ℕ) (si : Siginfo) : ProcessDumpType :=
  if signo = sigdump then .dumpCatch
  else if signo = sigleakStack then
    if si.code.natAbs = sigleakStackFdsan then .fdsan
    else if si.code.natAbs = sigleakStackJemalloc then .jemalloc
    else if si.code.natAbs = sigleakStackArktsEnvsan then .arktsEnvsan
    else if si.code.natAbs = sigleakStackCoredump then .coredump
    else if si.code.natAbs = sigleakStackBadfd then .badfd
    else .memLeak
  else if signo = sigpipe then .pipe
  else .cppCrash

/-- The sizes of `ProcessDumpRequest` behind its type and of `ThreadDumpRequest`. -/
structure Layout where
  requestFields : ℕ
  threadDumpRequest : ℕ

def Layout.processDumpRequest (L : Layout) : ℕ := 4+L.requestFields

structure ProcessDumpRequest (L : Layout) where
  type : ProcessDumpType
  fields : Bytes
  size : fields.length = L.requestFields

def ProcessDumpRequest.image {L : Layout} (r : ProcessDumpRequest L) : Bytes := toLE 4 r.type.code++r.fields

def typeOf (image : Bytes) : ℕ := ofLE (image.take 4)

def procStatBufSize : ℕ := 512
def procStatmBufSize : ℕ := 512
def privCopyStackBufferSize : ℕ := 64*1024+32*8
def arkwebJitSymbolBufSize : ℕ := 10*1024*1024
def maxPipeSize : ℕ := 1024*1024
def maxRawDataSize : ℕ := 20*1024*1024
def commonRegMemSize : ℕ := 32
def specialRegMemSize : ℕ := 64

def text (s : String) : Bytes := s.toList.map fun c => UInt8.ofNat c.toNat

/-- A tag is sent in a buffer of this size, filled up with zeros. -/
def tagSize : ℕ := 50

def tag (s : String) : Bytes := text s++List.replicate (tagSize-(text s).length) 0

def registerBlocks : List ℕ :=
  List.replicate 30 commonRegMemSize++[specialRegMemSize, commonRegMemSize, specialRegMemSize]

/-- A part of what goes through the pipe. The reader takes maps, open files and symbols as one text. -/
inductive Section where
  | request (image : Bytes)
  | stat (buf : Bytes)
  | statm (buf : Bytes)
  | stack (buf : Bytes)
  | threads (slots : List (Bytes×Bytes))
  | nearRegisters (blocks : List Bytes)
  | raw (data : Bytes)

def Section.encode : Section → Bytes
  | .request image => image
  | .stat buf | .statm buf | .stack buf => buf
  | .threads slots => toLE 4 slots.length ++ slots.flatMap fun slot => slot.1 ++ slot.2
  | .nearRegisters blocks => tag "start trans register" ++ blocks.flatten ++ tag "end trans register"
  | .raw data => data

inductive OpenFiles where
  | noDirectory
  | noMemory
  | items (lines : List Bytes)

/-- What `LiteCrashHandler` finds: the mapping that was filled in the crashed process, the memory near the registers
(`none` where `mmap` fails), and what it reads on its way. At most `maxDumpThreadNum` slots are sent. -/
structure Snapshot (L : Layout) where
  stat : Bytes
  statm : Bytes
  stack : Bytes
  threads : List (Bytes×Bytes)
  blocks : List (Option Bytes)
  maps : Option Bytes
  openFiles : OpenFiles
  jitSymbols : Option Bytes
  stat_size : stat.length = procStatBufSize
  statm_size : statm.length = procStatmBufSize
  stack_size : stack.length = privCopyStackBufferSize
  threads_count : threads.length ≤ maxDumpThreadNum
  threads_size : ∀ slot ∈ threads, slot.1.length = L.threadDumpRequest ∧ slot.2.length = threadStackBufferSize
  blocks_size : List.Forall₂ (fun words block => ∀ memory∈block, memory.length=words*8) registerBlocks blocks
  jitSymbols_size : ∀ symbols ∈ jitSymbols, symbols.length = arkwebJitSymbolBufSize

namespace Snapshot
variable {L : Layout} (w : Snapshot L)

def collectOpenFiles : Bytes × Bool :=
  match w.openFiles with
  | .noDirectory => ([], false)
  | .noMemory => (text "OpenFiles:\n", false)
  | .items lines => (text "OpenFiles:\n" ++ lines.flatten ++ text "end trans openfiles\n", true)

/-- `CollectMaps`, `CollectOpenFiles` and `CollectArkWebJitSymbol`, up to the first that fails. -/
def collectTexts (type : ProcessDumpType) : Bytes :=
  match w.maps with
  | none => []
  | some maps =>
    let (files, goesOn) := if type ≠ .dumpCatch then w.collectOpenFiles else ([], true)
    maps++text "Parse_Maps_Finish\n" ++ files++if goesOn then w.jitSymbols.getD [] else []

/-- `DumpPrviProcess` puts stat and statm into the mapping, and `LiteCrashHandler` writes it. -/
def sections (r : ProcessDumpRequest L) : List Section :=
  [Section.request r.image]++(if r.type ≠ .dumpCatch then [Section.stat w.stat, Section.statm w.statm] else []) ++
    [Section.stack w.stack, Section.threads w.threads] ++
    (if r.type ≠ .dumpCatch then [Section.nearRegisters w.blocks.reduceOption] else []) ++
    [Section.raw (w.collectTexts r.type)]

def liteCrashHandler (r : ProcessDumpRequest L) (pipe : Sink UInt8) : Sink UInt8 :=
  (w.sections r).foldl (fun pipe part => pipe.writeAll maxPipeSize part.encode) pipe

end Snapshot

def loopReadPipe (length : ℕ) (pipe : Source UInt8) : Option (Bytes×Source UInt8) :=
  pipe.readExactly maxPipeSize length

def tagIs (data : Bytes) (s : String) : Bool := ((data.set (tagSize-1) 0).takeWhile fun c => c≠0) = text s

def readStatAndStatm (type : ℕ) (pipe : Source UInt8) : Option (List Section×Source UInt8) :=
  if type = ProcessDumpType.cppCrash.code then do
    let (stat, pipe) ← loopReadPipe procStatBufSize pipe
    let (statm, pipe) ← loopReadPipe procStatmBufSize pipe
    some ([.stat stat, .statm statm], pipe)
  else some ([], pipe)

def readThreads (L : Layout) : ℕ → Source UInt8 → Option (List (Bytes×Bytes)×Source UInt8)
  | 0, pipe => some ([], pipe)
  | n+1, pipe => do
    let (request, pipe) ← loopReadPipe L.threadDumpRequest pipe
    let (stack, pipe) ← loopReadPipe threadStackBufferSize pipe
    let (slots, pipe) ← readThreads L n pipe
    some ((request, stack)::slots, pipe)

/-- A negative number is above the limit when it is read as an unsigned one. -/
def readOtherThreadStack (L : Layout) (pipe : Source UInt8) : Option (List (Bytes×Bytes)×Source UInt8) := do
  let (number, pipe) ← loopReadPipe 4 pipe
  if ofLE number > maxDumpThreadNum then none else readThreads L (ofLE number) pipe

def readStack (L : Layout) (pipe : Source UInt8) : Option (List Section×Source UInt8) := do
  let (stack, pipe) ← loopReadPipe privCopyStackBufferSize pipe
  let (slots, pipe) ← readOtherThreadStack L pipe
  some ([.stack stack, .threads slots], pipe)

/-- At the end of the pipe the block is filled with ones. -/
def readSingleRegMem (words : ℕ) (pipe : Source UInt8) : Bytes × Source UInt8 :=
  match loopReadPipe (words*8) pipe with
  | some got => got
  | none => (List.replicate (words*8) 255, {pipe with left := []})

def readBlocks : List ℕ → Source UInt8 → List Bytes × Source UInt8
  | [], pipe => ([], pipe)
  | words :: more, pipe =>
    let (block, pipe) := readSingleRegMem words pipe
    let (blocks, pipe) := readBlocks more pipe
    (block::blocks, pipe)

def readMemoryNearRegister (type : ℕ) (pipe : Source UInt8) : Option (List Section×Source UInt8) :=
  if type = ProcessDumpType.cppCrash.code then do
    let (data, pipe) ← loopReadPipe tagSize pipe
    if tagIs data "start trans register" then
      let (blocks, pipe) := readBlocks registerBlocks pipe
      let (data, pipe) ← loopReadPipe tagSize pipe
      if tagIs data "end trans register" then some ([.nearRegisters blocks], pipe) else none
    else none
  else some ([], pipe)

/-- One more round than there are bytes finds the end of the pipe. -/
def readRawData (pipe : Source UInt8) : Bytes × Source UInt8 :=
  pipe.readAll maxPipeSize maxRawDataSize (pipe.left.length+1) []

/-- The sections `ReadContent` takes from the pipe, in its order, and what it leaves there. -/
def readContent (L : Layout) (pipe : Source UInt8) : Option (List Section×Source UInt8) := do
  let (image, pipe) ← loopReadPipe L.processDumpRequest pipe
  let (process, pipe) ← readStatAndStatm (typeOf image) pipe
  let (stackParts, pipe) ← readStack L pipe
  let (registers, pipe) ← readMemoryNearRegister (typeOf image) pipe
  let (raw, pipe) := readRawData pipe
  some ([Section.request image]++process++stackParts++registers++[Section.raw raw], pipe)

end Faultloggerd.LiteDump
