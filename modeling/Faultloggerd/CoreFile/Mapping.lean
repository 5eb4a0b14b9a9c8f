import Faultloggerd.CoreFile.Elf

/-! # The memory map of the target

One region for each line of the process's map, which of them are dumped, and the size the file is given before
anything is written.
-/
namespace Faultloggerd.CoreFile
open List BitVec

def permStrLen : ℕ := 5
def pathMaxLen : ℕ := 256

/-- The two texts are the C strings, without their terminator. -/
structure DumpMemoryRegions where
  startHex : BitVec 64
  endHex : BitVec 64
  offsetHex : BitVec 64
  memorySizeHex : BitVec 64
  priority : List UInt8
  pathName : List UInt8
  length_priority : priority.length < permStrLen
  length_pathName : pathName.length < pathMaxLen

def text (chars : List Char) : List UInt8 := chars.map Char.toUInt8

def largeAnonThreshold : BitVec 64 := 64*1024*1024
def maxCoredumpSize : BitVec 64 := 10*1024*1024*1024

namespace DumpMemoryRegions

variable (region : DumpMemoryRegions)

def hasValidPermissions : Bool :=
  region.priority.contains 'p'.toUInt8 && region.priority.contains 'r'.toUInt8

def isLargeAnonymousReservation : Bool :=
  region.pathName.isEmpty && largeAnonThreshold ≤ region.memorySizeHex

def isDevFile : Bool :=
  region.pathName == text ['[', 'i', 'o', ']'] ||
    List.isPrefixOf (text ['/', 'd', 'e', 'v', '/']) region.pathName

def shouldIncludeRegion : Bool :=
  region.hasValidPermissions && !region.isLargeAnonymousReservation && !region.isDevFile

def isReadableFile : Bool :=
  region.pathName.head? == some '/'.toUInt8 && region.priority.head? == some 'r'.toUInt8

end DumpMemoryRegions

def includedRegions (maps : List DumpMemoryRegions) : List DumpMemoryRegions :=
  maps.filter DumpMemoryRegions.shouldIncludeRegion

def estimateFileSize (maps : List DumpMemoryRegions) : BitVec 64 :=
  let noteCount := BitVec.ofNat 64 maps.length
  let headerSize := BitVec.ofNat 64 ehdrSize+(noteCount+1)*BitVec.ofNat 64 phdrSize +
    (noteCount+2)*BitVec.ofNat 64 shdrSize
  let notesSize := noteCount*(BitVec.ofNat 64 nhdrSize+100)
  let totalMem := maps.foldl (fun sum region =>
    if region.shouldIncludeRegion then sum+region.memorySizeHex else sum) 0
  let reserveSpace := 1000
  let estimatedSize := headerSize+notesSize+totalMem+reserveSpace
  if estimatedSize < maxCoredumpSize then estimatedSize else maxCoredumpSize

def totalSize (regions : List DumpMemoryRegions) : ℕ :=
  (regions.map fun region => region.memorySizeHex.toNat).sum

theorem totalSize_append (regions regions' : List DumpMemoryRegions) :
    totalSize (regions++regions')=totalSize regions+totalSize regions' := by
  simp [totalSize]

theorem totalSize_take_add_le (regions : List DumpMemoryRegions) (i : ℕ) (hi : i< regions.length) :
    totalSize (regions.take i)+regions[i].memorySizeHex.toNat≤totalSize regions := by
  have hs : totalSize (regions.take (i+1)++regions.drop (i+1))=totalSize regions := by
    rw [take_append_drop]
  rw [totalSize_append, take_succ_eq_append_getElem hi, totalSize_append] at hs
  have ho : totalSize [regions[i]]=regions[i].memorySizeHex.toNat := by simp [totalSize]
  omega

@[grind unfold] def exactEstimate (maps : List DumpMemoryRegions) : ℕ :=
  1248+232*maps.length+totalSize (includedRegions maps)

theorem totalMem_eq (maps : List DumpMemoryRegions) (sum : BitVec 64) : maps.foldl (fun sum region =>
      if region.shouldIncludeRegion then sum+region.memorySizeHex else sum) sum =
      sum+BitVec.ofNat 64 (totalSize (includedRegions maps)) := by
  induction maps generalizing sum with
  | nil => simp [totalSize, includedRegions]
  | cons region maps ih =>
    rw [foldl_cons, ih]
    by_cases h : region.shouldIncludeRegion
    · simp [h, includedRegions, totalSize, BitVec.ofNat_add, BitVec.add_assoc]
    · simp [h, includedRegions]

theorem toNat_estimateFileSize {maps : List DumpMemoryRegions} (h : exactEstimate maps< maxCoredumpSize.toNat) :
    (estimateFileSize maps).toNat=exactEstimate maps := by
  have hs : BitVec.ofNat 64 ehdrSize+(BitVec.ofNat 64 maps.length+1)*BitVec.ofNat 64 phdrSize +
      (BitVec.ofNat 64 maps.length+2)*BitVec.ofNat 64 shdrSize +
      BitVec.ofNat 64 maps.length*(BitVec.ofNat 64 nhdrSize+100) +
      (0+BitVec.ofNat 64 (totalSize (includedRegions maps)))+1000 =
      BitVec.ofNat 64 (ehdrSize+(maps.length+1)*phdrSize+(maps.length+2)*shdrSize +
        maps.length*(nhdrSize+100)+(0+totalSize (includedRegions maps))+1000) := by
    simp only [ofNat_add, ofNat_mul]
    rfl
  have he : ehdrSize+(maps.length+1)*phdrSize+(maps.length+2)*shdrSize +
      maps.length*(nhdrSize+100)+(0+totalSize (includedRegions maps))+1000 = exactEstimate maps := by grind
  have hv : (BitVec.ofNat 64 (exactEstimate maps)).toNat=exactEstimate maps := by
    exact Nat.mod_eq_of_lt (h.trans maxCoredumpSize.isLt)
  simp only [estimateFileSize, totalMem_eq]
  rw [hs, he, if_pos (by rw [lt_def, hv]; exact h), hv]

end Faultloggerd.CoreFile
