import Faultloggerd.CoreFile.BufferWriter
import Faultloggerd.CoreFile.Mapping

/-! # The program headers and the file header

The program headers are appended with placeholders for the offsets, which are then guessed as if the segments
followed the headers in the order of the map. The note and load writers overwrite the guesses; what they rely on
is that the other fields stand.
-/
namespace Faultloggerd.CoreFile
open Phdr Foundations.ByteStore Buffer Writer

def programSegmentHeaderFill (pType pFlags : BitVec 32) (startHex memorySizeHex : BitVec 64) : Phdr where
  pType := pType
  pFlags := pFlags
  pOffset := BitVec.ofNat 64 ehdrSize
  pVaddr := startHex
  pPaddr := 0
  pFilesz := memorySizeHex
  pMemsz := memorySizeHex
  pAlign := 1

def ptLoadHeaderFill (region : DumpMemoryRegions) : Phdr :=
  let readable := region.priority[0]? == some 'r'.toUInt8 || region.priority[0]? == some '-'.toUInt8
  let writable := region.priority[1]? == some 'w'.toUInt8
  let executable := region.priority[2]? == some 'x'.toUInt8
  let pFlags := (if readable then pfR else 0) ||| (if writable then pfW else 0) ||| if executable then pfX else 0
  programSegmentHeaderFill ptLoad pFlags region.startHex region.memorySizeHex

def ptNoteHeaderFill : Phdr := programSegmentHeaderFill ptNote pfR 0 0

@[grind unfold] def phdrPos (i : ℕ) : ℕ := ehdrSize+phdrSize*i

/-- The loop over the offsets: header `k` is placed last, `count` more follow, and the note comes after them. -/
def guessOffsets : ℕ → ℕ → BitVec 64 → Buffer → Buffer
  | 0, k, last, b =>
    let filesz := BitVec.ofNat 64 (field b.bytes (phdrPos k+Phdr.pFileszAt) 8)
    b.poke (phdrPos 0+Phdr.pOffsetAt) (toLE 8 (last+filesz).toNat)
  | count+1, k, last, b =>
    let next := last+BitVec.ofNat 64 (field b.bytes (phdrPos k+Phdr.pFileszAt) 8)
    guessOffsets count (k+1) next (b.poke (phdrPos (k+1)+Phdr.pOffsetAt) (toLE 8 next.toNat))

def placeHeaders (lineNumber : BitVec 16) (b : Buffer) : Buffer :=
  let first := BitVec.ofNat 64 ehdrSize+lineNumber.setWidth 64*BitVec.ofNat 64 phdrSize
  guessOffsets (lineNumber.toNat-2) 1 first (b.poke (phdrPos 1+Phdr.pOffsetAt) (toLE 8 first.toNat))

/-- The number of headers is a half word; it is returned only when all of them were written. -/
def programSegmentHeaderWrite (maps : List DumpMemoryRegions) (b : Buffer) : Option (BitVec 16) × Buffer :=
  let r := Writer.andThen (Buffer.write ptNoteHeaderFill.bytes) (Writer.all
    ((includedRegions maps).map fun region => Buffer.write (ptLoadHeaderFill region).bytes)) b
  if r.1 then
    let lineNumber := BitVec.ofNat 16 (1+(includedRegions maps).length)
    (some lineNumber, placeHeaders lineNumber r.2)
  else
    (none, r.2)

def elfIdent : List UInt8 := [0x7f, 0x45, 0x4c, 0x46, 2, 1, 1, 0, 0, 0, 0, 0, 0, 0, 0, 0]

def initElfHeader (ePhnum : BitVec 16) : Ehdr where
  eIdent := elfIdent
  eType := 4
  eMachine := 183
  eVersion := 1
  eEntry := 0
  ePhoff := BitVec.ofNat 64 ehdrSize
  eShoff := BitVec.ofNat 64 shdrSize
  eFlags := 0
  eEhsize := BitVec.ofNat 16 ehdrSize
  ePhentsize := BitVec.ofNat 16 phdrSize
  ePhnum := ePhnum
  eShentsize := BitVec.ofNat 16 shdrSize
  eShnum := ePhnum+3
  eShstrndx := ePhnum+1
  length_eIdent := rfl

def elfHeaderWrite (ePhnum : BitVec 16) : Writer := Buffer.writeAt (initElfHeader ePhnum).bytes 0

def programHeaders (maps : List DumpMemoryRegions) : List Phdr :=
  ptNoteHeaderFill::(includedRegions maps).map ptLoadHeaderFill

def Phdr.unplaced (p : Phdr) : Phdr := {p with pOffset := 0}

theorem unplaced_pOffset (p : Phdr) (x : BitVec 64) : {p with pOffset := x}.unplaced=p.unplaced := rfl

theorem length_phdr_le (p : Phdr) : p.bytes.length≤ maxCopyCap := by
  rw [length_bytes]
  decide

theorem appends_phdrs (he : List Phdr) : Appends (phdrSize*he.length) (all (he.map fun p => write p.bytes)) := by
  have h : Appends (he.map fun _ => phdrSize).sum (all (he.map fun p => write p.bytes)) :=
    appends_all _ fun p _ => appends_write p.length_bytes (by decide)
  rwa [List.map_const', List.sum_replicate_nat, Nat.mul_comm] at h

theorem read_writes (he : List Phdr) (b : Buffer)
    (hr1 : (all (he.map fun p => write p.bytes) b).2.ranOut=false) (i : ℕ) (hi : i<he.length) :
    read (all (he.map fun p => write p.bytes) b).2.bytes (b.current+phdrSize*i)=he[i] := by
  induction he generalizing b i with
  | nil => exact absurd hi (Nat.not_lt_zero i)
  | cons p he ih =>
    have hw := (appends_write p.length_bytes (by decide)).emits b
    have hs := andThen_of_room (sound_write (length_phdr_le p)) hr1
    have hr := (appends_phdrs he).emits (write p.bytes b).2
    have hroom' : (all (he.map fun p => write p.bytes) (write p.bytes b).2).2.ranOut=false := by
      rw [←hs]
      exact hr1
    have hf := hr.before hroom'
    have hc := hw.current hf
    rw [List.map_cons, all, hs]
    cases i with
    | zero =>
      have hk : ∀ a, b.current≤a → a<b.current+phdrSize →
          (all (he.map fun p => write p.bytes) (write p.bytes b).2).2.bytes a = store b.bytes b.current p.bytes a := by
        intro a _ ha
        rw [hr.frame hroom' a (by grind), bytes_write (length_phdr_le p) hf]
      exact (read_congr hk).trans (read_store p)
    | succ i =>
      have h := ih (write p.bytes b).2 hroom' i (by simpa using hi)
      rw [hc] at h
      rw [List.getElem_cons_succ, ←h]
      congr 1
      ring

theorem unplaced_read_poke (b : Buffer) (i k : ℕ) (x : BitVec 64) :
    (read (b.poke (phdrPos k+pOffsetAt) (toLE 8 x.toNat)).bytes (phdrPos i)).unplaced =
      (read b.bytes (phdrPos i)).unplaced := by
  by_cases hik : i=k
  · subst hik
    rw [bytes_poke, read_store_pOffset, unplaced_pOffset]
  · have ho : read (b.poke (phdrPos k+pOffsetAt) (toLE 8 x.toNat)).bytes (phdrPos i) = read b.bytes (phdrPos i) := by
      refine read_congr fun a ha ha' => store_of_outside ?_
      grind
    rw [ho]

/-- Only offsets of program headers were written from `b` to `b'`, none of them behind header `n`. -/
structure Guessed (n : ℕ) (b b' : Buffer) : Prop where
  capacity : b'.capacity = b.capacity
  current : b'.current = b.current
  before : b'.ranOut = false → b.ranOut = false
  room : phdrPos n+16 ≤ b.capacity → b'.ranOut = b.ranOut
  stand : ∀ i, (read b'.bytes (phdrPos i)).unplaced = (read b.bytes (phdrPos i)).unplaced

theorem Guessed.trans {n : ℕ} {b b1 b2 : Buffer} (h1 : Guessed n b b1) (h2 : Guessed n b1 b2) : Guessed n b b2 where
  capacity := h2.capacity.trans h1.capacity
  current := h2.current.trans h1.current
  before h := h1.before (h2.before h)
  room h := (h2.room (h1.capacity ▸ h)).trans (h1.room h)
  stand i := (h2.stand i).trans (h1.stand i)

theorem guessed_poke {k n : ℕ} (b : Buffer) (x : BitVec 64) (hk : k≤n) :
    Guessed n b (b.poke (phdrPos k+pOffsetAt) (toLE 8 x.toNat)) where
  capacity := rfl
  current := rfl
  before h := (ranOut_poke.mp h).1
  room h := by
    have hf : ¬b.capacity<phdrPos k+pOffsetAt+8 := by
      grind
    simp [poke, hf]
  stand i := unplaced_read_poke b i k x

theorem guessed_guessOffsets (count k : ℕ) (last : BitVec 64) (b : Buffer) :
    Guessed (k+count) b (guessOffsets count k last b) := by
  induction count generalizing k last b with
  | zero => exact guessed_poke b _ (Nat.zero_le k)
  | succ count ih =>
    rw [Nat.add_succ, ←Nat.succ_add]
    exact (guessed_poke b _ (Nat.le_add_right _ _)).trans (ih (k+1) _ _)

theorem guessed_placeHeaders (lineNumber : BitVec 16) (b : Buffer) :
    Guessed (1+(lineNumber.toNat-2)) b (placeHeaders lineNumber b) :=
  (guessed_poke b _ (Nat.le_add_right 1 _)).trans (guessed_guessOffsets _ 1 _ _)

structure HeadersWritten (maps : List DumpMemoryRegions) (b : Buffer) (r : Option (BitVec 16)×Buffer) :
    Prop where
  capacity : r.2.capacity = b.capacity
  room : r.2.ranOut = false ↔ b.ranOut = false ∧ phdrPos (programHeaders maps).length ≤ b.capacity
  count : r.2.ranOut = false → r.1 = some (BitVec.ofNat 16 (programHeaders maps).length)
  current : r.2.ranOut = false → r.2.current = phdrPos (programHeaders maps).length
  stand : r.2.ranOut = false → ∀ i, ∀ hi : i < (programHeaders maps).length,
    (Phdr.read r.2.bytes (phdrPos i)).unplaced = (programHeaders maps)[i].unplaced

/-- Without a load segment the first guess lands behind the headers, where 16 more bytes must be mapped. -/
theorem headersWritten (maps : List DumpMemoryRegions) (b : Buffer) (hb : b.current=ehdrSize)
    (hc1 : phdrPos 1+16≤b.capacity) : HeadersWritten maps b (programSegmentHeaderWrite maps b) := by
  have hl : (programHeaders maps).length=1+(includedRegions maps).length := by
    simp [programHeaders, Nat.add_comm]
  have hw := (appends_phdrs (programHeaders maps)).emits b
  have hs := (appends_phdrs (programHeaders maps)).sound b
  have hr1 := read_writes (programHeaders maps) b
  have ha : andThen (write ptNoteHeaderFill.bytes) (all
      ((includedRegions maps).map fun region => write (ptLoadHeaderFill region).bytes)) b =
      all ((programHeaders maps).map fun p => write p.bytes) b := by
    rw [programHeaders, List.map_cons, List.map_map]
    rfl
  simp only [programSegmentHeaderWrite, ha, ←hl]
  generalize all ((programHeaders maps).map fun p => write p.bytes) b=r at *
  have hf := hw.room
  rw [hb] at hf hr1
  cases hok : r.1 with
  | false =>
    have ho : r.2.ranOut=true := by
      by_contra h
      simp [hs (by simpa using h)] at hok
    exact ⟨hw.capacity, hf, by simp [ho], by simp [ho], by simp [ho]⟩
  | true =>
    simp only [↓reduceIte]
    have hp := guessed_placeHeaders (BitVec.ofNat 16 (programHeaders maps).length) r.2
    have hr : (placeHeaders (BitVec.ofNat 16 (programHeaders maps).length) r.2).ranOut=false ↔ r.2.ranOut=false := by
      refine ⟨hp.before, fun h => (hp.room ?_).trans h⟩
      rw [hw.capacity]
      grind
    refine ⟨hp.capacity.trans hw.capacity, hr.trans hf, fun _ => rfl, fun h => ?_, fun h i hi => ?_⟩
    · rw [hp.current, hw.current (hr.mp h), hb]
      rfl
    · rw [hp.stand i, phdrPos, hr1 (hr.mp h) i hi]

theorem elfHeaderWrite_spec (ePhnum : BitVec 16) (b : Buffer) (hc1 : ehdrSize≤b.capacity) :
    (elfHeaderWrite ePhnum b).2.bytes=store b.bytes 0 (initElfHeader ePhnum).bytes ∧
      (elfHeaderWrite ePhnum b).2.current=b.current ∧ (elfHeaderWrite ePhnum b).2.capacity=b.capacity ∧
      (elfHeaderWrite ePhnum b).2.ranOut=b.ranOut := by
  have hf : ¬0+(initElfHeader ePhnum).bytes.length > b.capacity := by
    rw [Ehdr.length_bytes]
    omega
  have hc : ¬(initElfHeader ePhnum).bytes.length > min maxCopyCap (b.capacity-0) := by
    rw [Ehdr.length_bytes]
    have : ehdrSize≤ maxCopyCap := by decide
    omega
  simp only [elfHeaderWrite, writeAt, if_neg hf, if_neg hc, and_self]

end Faultloggerd.CoreFile
