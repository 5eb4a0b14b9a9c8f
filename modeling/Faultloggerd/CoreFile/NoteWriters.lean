import Faultloggerd.CoreFile.BufferWriter
import Faultloggerd.CoreFile.Mapping

/-! # The note segment

The notes of the process and of each of its threads. What ptrace and the proc files deliver is data here; the
sizes are those of the arm64 records.
-/
namespace Faultloggerd.CoreFile

open Foundations.ByteStore

abbrev Blob (n : ℕ) := {bytes : List UInt8 // bytes.length=n}

structure ThreadNotes where
  ntPrstatus : Blob 392
  ntUserPacMask : Blob 16
  ntFpregset : Blob 528
  ntSiginfo : Blob 128

structure TaskEntry where
  name : List UInt8
  notes : ThreadNotes

/-- `task` and `auxv` are `none` when they cannot be opened. -/
structure TargetNotes where
  ntPrpsinfo : Blob 136
  task : Option (List TaskEntry)
  auxv : Option (List UInt8)

structure NoteDumpProcessConfig where
  prpsinfo : Bool := true
  multiThread : Bool := true
  auxv : Bool := true
  dumpMappings : Bool := true

structure NoteDumpThreadConfig where
  prstatus : Bool := true
  fpregset : Bool := true
  siginfo : Bool := true
  armPacMask : Bool := true
  armTaggedAddrCtrl : Bool := true

structure CoredumpConfig where
  dumperThreadCount : ℤ := 1
  process : NoteDumpProcessConfig := {}
  threads : NoteDumpThreadConfig := {}

def noteNameCore : List UInt8 := text ['C', 'O', 'R', 'E']
def noteNameLinux : List UInt8 := text ['L', 'I', 'N', 'U', 'X']
@[grind unfold] def noteNameSize : ℕ := 8

def ntPrstatus : ℕ := 1
def ntFpregset : ℕ := 2
def ntPrpsinfo : ℕ := 3
def ntAuxv : ℕ := 6
def ntArmPacMask : ℕ := 0x406
def ntArmTaggedAddrCtrl : ℕ := 0x409
def ntSiginfo : ℕ := 0x53494749
def ntFile : ℕ := 0x46494c45

/-- The header goes through the writer, the name through a raw pointer. -/
def noteWrite (noteType descSize : ℕ) (noteName : List UInt8) : Writer :=
  Writer.andThen (Buffer.write (encode [(4, noteName.length+1), (4, descSize), (4, noteType)])) fun b =>
    (true, (Buffer.advance noteNameSize (b.pokes [⟨b.current, noteName++[0]⟩])).2)

def recordWrite (noteType : ℕ) (noteName record : List UInt8) : Writer :=
  (noteWrite noteType record.length noteName).andThen (Buffer.write record)

def prstatusWrite (notes : ThreadNotes) : Writer :=
  recordWrite ntPrstatus noteNameCore notes.ntPrstatus.val

def armPacMaskWrite (notes : ThreadNotes) : Writer :=
  recordWrite ntArmPacMask noteNameLinux notes.ntUserPacMask.val

def fpregsetWrite (notes : ThreadNotes) : Writer :=
  recordWrite ntFpregset noteNameCore notes.ntFpregset.val

def siginfoWrite (notes : ThreadNotes) : Writer :=
  recordWrite ntSiginfo noteNameCore notes.ntSiginfo.val

def sizeofLong : ℕ := 8

def armTaggedAddrCtrlWrite : Writer :=
  (noteWrite ntArmTaggedAddrCtrl sizeofLong noteNameLinux).andThen fun b =>
    if b.capacity-b.current < sizeofLong then
      b.refuse
    else
      (true, (Buffer.advance sizeofLong (b.pokes [⟨b.current, List.replicate sizeofLong 0⟩])).2)

inductive ThreadNote where
  | prstatus
  | armPacMask
  | fpregset
  | siginfo
  | armTaggedAddrCtrl

def NoteDumpThreadConfig.enables (cfg : NoteDumpThreadConfig) : ThreadNote → Bool
  | .prstatus => cfg.prstatus
  | .armPacMask => cfg.armPacMask
  | .fpregset => cfg.fpregset
  | .siginfo => cfg.siginfo
  | .armTaggedAddrCtrl => cfg.armTaggedAddrCtrl

def threadWriters (cfg : NoteDumpThreadConfig) : List ThreadNote :=
  [.prstatus, .armPacMask, .fpregset, .siginfo, .armTaggedAddrCtrl].filter cfg.enables

def ThreadNote.write (notes : ThreadNotes) : ThreadNote → Writer
  | .prstatus => prstatusWrite notes
  | .armPacMask => armPacMaskWrite notes
  | .fpregset => fpregsetWrite notes
  | .siginfo => siginfoWrite notes
  | .armTaggedAddrCtrl => armTaggedAddrCtrlWrite

def threadNoteWrite (cfg : NoteDumpThreadConfig) (notes : ThreadNotes) : Writer := fun b =>
  (true, Writer.each ((threadWriters cfg).map (ThreadNote.write notes)) b)

def prpsinfoWrite (target : TargetNotes) : Writer :=
  recordWrite ntPrpsinfo noteNameCore target.ntPrpsinfo.val

def TaskEntry.isThread (entry : TaskEntry) : Bool :=
  match entry.name.head? with
  | some c => '0'.toUInt8 ≤ c && c ≤ '9'.toUInt8
  | none => false

def multiThreadNoteWrite (cfg : NoteDumpThreadConfig) (target : TargetNotes) : Writer := fun b =>
  match target.task with
  | none => (false, b)
  | some entries =>
    (true, Writer.each ((entries.filter TaskEntry.isThread).map fun entry => threadNoteWrite cfg entry.notes) b)

def sizeofAuxv : ℕ := 16

/-- The records read from the vector: whole ones, up to and with the first of type `AT_NULL`. -/
def auxvRecordsFrom : ℕ → List UInt8 → List (List UInt8)
  | 0, _ => []
  | fuel+1, file =>
    if file.length < sizeofAuxv then []
    else file.take sizeofAuxv ::
      if ofLE (file.take 8) = 0 then [] else auxvRecordsFrom fuel (file.drop sizeofAuxv)

def auxvRecords (file : List UInt8) : List (List UInt8) := auxvRecordsFrom file.length file

/-- The loop over the records; the size in the header at `note` grows with each. -/
def writeAuxvRecords (note : ℕ) : List (List UInt8) → Writer
  | [] => fun b => (true, b)
  | record :: records => fun b =>
    let descsz := BitVec.ofNat 32 (field b.bytes (note+4) 4)+BitVec.ofNat 32 sizeofAuxv
    Writer.andThen (Buffer.write record) (writeAuxvRecords note records)
      (b.poke (note+4) (toLE 4 descsz.toNat))

def readProcessAuxv (note : ℕ) (auxv : Option (List UInt8)) : Writer := fun b =>
  let b := b.poke (note+4) (toLE 4 0)
  match auxv with
  | none => (false, b)
  | some file => writeAuxvRecords note (auxvRecords file) b

/-- The start of the two notes whose header is filled through a pointer. -/
def beginNote (noteType : ℕ) : Writer := fun b =>
  let b := (Buffer.advance nhdrSize (b.pokes
    [⟨b.current, toLE 4 (noteNameCore.length+1)⟩, ⟨b.current+8, toLE 4 noteType⟩])).2
  Buffer.write (noteNameCore++List.replicate 4 0) b

def auxvWrite (target : TargetNotes) : Writer := fun b =>
  Writer.andThen (beginNote ntAuxv) (fun b' => (true, (readProcessAuxv b.current target.auxv b').2)) b

def fileHeaderSize : ℕ := 16

def fileRegions (maps : List DumpMemoryRegions) : List DumpMemoryRegions :=
  maps.filter DumpMemoryRegions.isReadableFile

def writeAddrRelated (maps : List DumpMemoryRegions) : Writer :=
  Writer.all ((fileRegions maps).map fun region => Buffer.write
    (encode [(8, region.startHex.toNat), (8, region.endHex.toNat), (8, region.offsetHex.toNat)]))

def writePathName (region : DumpMemoryRegions) : Writer :=
  Writer.andThen (Buffer.write region.pathName) fun b => (true, (Buffer.advance 1 (b.pokes [⟨b.current, [0]⟩])).2)

def writeFilePath (maps : List DumpMemoryRegions) : Writer :=
  Writer.all ((fileRegions maps).map writePathName)

def padZeros : ℕ → Buffer → Buffer
  | 0, b => b
  | count+1, b => padZeros count (Buffer.advance 1 (b.pokes [⟨b.current, [0]⟩])).2

def paddingOf (alignment size : ℕ) : ℕ :=
  if size % alignment = 0 then 0 else alignment-size % alignment

/-- The end of the file note: the sizes are patched into the two headers, then the note is aligned. -/
def endFileNote (note start : ℕ) (maps : List DumpMemoryRegions) : Writer := fun b =>
  let descsz := b.current-start
  let lineNumber := BitVec.ofNat 16 ((fileRegions maps).length+1)
  let b := b.poke (note+4) (toLE 4 descsz)
  let b := b.poke start (toLE 8 (lineNumber.setWidth 64-1).toNat)
  (true, padZeros (paddingOf 4 descsz) b)

def fileRegionWrite (maps : List DumpMemoryRegions) : Writer := fun b =>
  let note := b.current
  Writer.andThen (beginNote ntFile) (fun b =>
    let start := b.current
    let b := (Buffer.advance fileHeaderSize (b.pokes [⟨start+8, toLE 8 1⟩])).2
    Writer.andThen (writeAddrRelated maps) (Writer.andThen (writeFilePath maps) (endFileNote note start maps)) b) b

inductive ProcessNote where
  | prpsinfo
  | multiThread
  | auxv
  | dumpMappings

def NoteDumpProcessConfig.enables (cfg : NoteDumpProcessConfig) : ProcessNote → Bool
  | .prpsinfo => cfg.prpsinfo
  | .multiThread => cfg.multiThread
  | .auxv => cfg.auxv
  | .dumpMappings => cfg.dumpMappings

def processWriters (cfg : NoteDumpProcessConfig) : List ProcessNote :=
  [.prpsinfo, .multiThread, .auxv, .dumpMappings].filter cfg.enables

def ProcessNote.write (cfg : CoredumpConfig) (target : TargetNotes) (maps : List DumpMemoryRegions) :
    ProcessNote → Writer
  | .prpsinfo => prpsinfoWrite target
  | .multiThread => multiThreadNoteWrite cfg.threads target
  | .auxv => auxvWrite target
  | .dumpMappings => fileRegionWrite maps

/-- The notes in turn; then their size and place are patched into the first program header. -/
def noteSegmentWrite (cfg : CoredumpConfig) (target : TargetNotes) (maps : List DumpMemoryRegions) : Writer :=
  fun b =>
    let noteStart := b.current
    let b := Writer.each ((processWriters cfg.process).map (ProcessNote.write cfg target maps)) b
    let b := b.poke (ehdrSize+Phdr.pFileszAt) (toLE 8 (b.current-noteStart))
    (true, b.poke (ehdrSize+Phdr.pOffsetAt) (toLE 8 noteStart))

end Faultloggerd.CoreFile
