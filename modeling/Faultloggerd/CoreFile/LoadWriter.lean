import Faultloggerd.CoreFile.HeaderWriters

/-! # The load segments

The segments are dealt to several threads. Each thread patches the offsets of its own headers and copies its
segments from the target, neighbours in one piece. The threads store into one mapping at the same time; a
schedule says in which order their stores take place.
-/
namespace Faultloggerd.CoreFile

open Foundations.ByteStore

/-- `transferred` is the number of bytes `process_vm_readv` copies for an address and a length, 0 when it fails. -/
structure ProcessVm where
  memory : BitVec 64 → UInt8
  transferred : BitVec 64 → BitVec 64 → ℕ

def ProcessVm.readv (vm : ProcessVm) (addr len : BitVec 64) : List UInt8 :=
  (List.range (min (vm.transferred addr len) len.toNat)).map fun i => vm.memory (addr+BitVec.ofNat 64 i)

/-- The inner loop of `MergeLoadSeg`: what follows `merged` without a gap and with its flags joins it. -/
def mergeFrom (merged : Phdr) : List Phdr → List Phdr
  | [] => [merged]
  | seg :: segs =>
    if merged.pVaddr+merged.pMemsz = seg.pVaddr ∧ merged.pFlags = seg.pFlags then
      mergeFrom {merged with
        pMemsz := merged.pMemsz+seg.pMemsz
        pFilesz := merged.pFilesz+seg.pFilesz} segs
    else
      merged::mergeFrom seg segs

def mergeLoadSeg : List Phdr → List Phdr
  | [] => []
  | seg :: segs => mergeFrom seg segs

structure WriteTask where
  start : ℕ
  stop : ℕ
  dst : ℕ

def getTotalSize (segs : List Phdr) : BitVec 64 := segs.foldl (fun total seg => total+seg.pMemsz) 0

def getDumpThreadCount (dumperThreadCount : ℤ) : ℕ :=
  let threadCount := if dumperThreadCount ≤ 0 then 1 else dumperThreadCount
  (if threadCount > 8 then 8 else threadCount).toNat

/-- The segments the next thread takes, and their size; the last thread takes all that are left. -/
def takeSegments (isLast : Bool) (targetSize : BitVec 64) : List Phdr → BitVec 64 → ℕ × BitVec 64
  | [], accSize => (0, accSize)
  | seg :: segs, accSize =>
    if isLast || accSize+seg.pMemsz ≤ targetSize then
      let r := takeSegments isLast targetSize segs (accSize+seg.pMemsz)
      (r.1+1, r.2)
    else
      (0, accSize)

def writeTasksFrom (segs : List Phdr) (targetSize : BitVec 64) (base : ℕ) :
    ℕ → ℕ → BitVec 64 → List WriteTask
  | 0, _, _ => []
  | threads+1, start, offset =>
    let r := takeSegments (threads == 0) targetSize (segs.drop start) 0
    ⟨start, start+r.1, base+offset.toNat⟩ ::
      writeTasksFrom segs targetSize base threads (start+r.1) (offset+r.2)

def generateWriteTasks (segs : List Phdr) (threadCount base : ℕ) : List WriteTask :=
  writeTasksFrom segs (getTotalSize segs/BitVec.ofNat 64 threadCount) base threadCount 0 0

def offsetStores : ℕ → ℕ → List Phdr → List Store
  | _, _, [] => []
  | idx, pos, seg :: segs =>
    ⟨phdrPos (idx+1)+Phdr.pOffsetAt, toLE 8 pos⟩::offsetStores (idx+1) (pos+seg.pMemsz.toNat) segs

structure TaskResult where
  stores : List Store
  totalWritten : BitVec 64
  ranOut : Bool

/-- The copies of the merged segments; the thread stops at the first that does not fit. -/
def copySegments (vm : ProcessVm) (capacity : ℕ) : ℕ → List Phdr → TaskResult
  | _, [] => ⟨[], 0, false⟩
  | pos, seg :: segs =>
    if pos+seg.pMemsz.toNat > capacity then
      ⟨[], 0, true⟩
    else
      let r := copySegments vm capacity (pos+seg.pMemsz.toNat) segs
      ⟨⟨pos, vm.readv seg.pVaddr seg.pMemsz⟩::r.stores, seg.pMemsz+r.totalWritten, r.ranOut⟩

def writeMergedSeg (vm : ProcessVm) (capacity : ℕ) (segs : List Phdr) (task : WriteTask) : TaskResult :=
  let own := (segs.drop task.start).take (task.stop-task.start)
  let r := copySegments vm capacity task.dst (mergeLoadSeg own)
  ⟨offsetStores task.start task.dst own++r.stores, r.totalWritten, r.ranOut⟩

def joinThreads (schedule : List ℕ) (results : List TaskResult) (b : Buffer) : Buffer :=
  {b with
    bytes := storeAll b.bytes (interleave schedule (results.map TaskResult.stores))
    ranOut := b.ranOut || results.any TaskResult.ranOut}

def runWriteTasks (schedule : List ℕ) (results : List TaskResult) (b : Buffer) : Buffer :=
  Writer.each (results.map fun r => Buffer.advance r.totalWritten.toNat) (joinThreads schedule results b)

def loadSegmentWrite (vm : ProcessVm) (dumperThreadCount : ℤ) (schedule : List ℕ) (ePhnum : BitVec 16) :
    Writer := fun b =>
  let segs := (List.range (ePhnum.toNat-1)).map fun i => Phdr.read b.bytes (phdrPos (i+1))
  let tasks := generateWriteTasks segs (getDumpThreadCount dumperThreadCount) b.current
  (true, runWriteTasks schedule (tasks.map (writeMergedSeg vm b.capacity segs)) b)

end Faultloggerd.CoreFile
