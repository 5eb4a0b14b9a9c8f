import Faultloggerd.Foundations.ByteStore

/-! # ELF records

The records a core file is made of, their bytes, and how they are read back from a mapping. Sizes and positions
are those of the 64-bit format.
-/
namespace Faultloggerd.CoreFile
open List Nat Foundations.ByteStore

def ehdrSize : ℕ := 64
def phdrSize : ℕ := 56
def shdrSize : ℕ := 64
def nhdrSize : ℕ := 12

attribute [grind unfold] ehdrSize phdrSize shdrSize nhdrSize

structure Phdr where
  pType : BitVec 32
  pFlags : BitVec 32
  pOffset : BitVec 64
  pVaddr : BitVec 64
  pPaddr : BitVec 64
  pFilesz : BitVec 64
  pMemsz : BitVec 64
  pAlign : BitVec 64

def ptLoad : BitVec 32 := 1
def ptNote : BitVec 32 := 4

def pfX : BitVec 32 := 1
def pfW : BitVec 32 := 2
def pfR : BitVec 32 := 4

namespace Phdr

def fields (p : Phdr) : List (ℕ×ℕ) :=
  [(4, p.pType.toNat), (4, p.pFlags.toNat), (8, p.pOffset.toNat), (8, p.pVaddr.toNat),
    (8, p.pPaddr.toNat), (8, p.pFilesz.toNat), (8, p.pMemsz.toNat), (8, p.pAlign.toNat)]

def bytes (p : Phdr) : List UInt8 := encode p.fields

def pOffsetAt : ℕ := 8
def pFileszAt : ℕ := 32
attribute [grind unfold] pOffsetAt pFileszAt

def read (m : Bytes) (pos : ℕ) : Phdr where
  pType := .ofNat 32 (field m pos 4)
  pFlags := .ofNat 32 (field m (pos+4) 4)
  pOffset := .ofNat 64 (field m (pos+8) 8)
  pVaddr := .ofNat 64 (field m (pos+16) 8)
  pPaddr := .ofNat 64 (field m (pos+24) 8)
  pFilesz := .ofNat 64 (field m (pos+32) 8)
  pMemsz := .ofNat 64 (field m (pos+40) 8)
  pAlign := .ofNat 64 (field m (pos+48) 8)

end Phdr

variable {m m' : Bytes} {pos : ℕ}

theorem ofNat_half (x : BitVec 16) : BitVec.ofNat 16 (x.toNat % 256^2)=x := by
  have hlt : x.toNat<256^2 := x.isLt
  rw [mod_eq_of_lt hlt, BitVec.ofNat_toNat, BitVec.setWidth_eq]

theorem ofNat_word (x : BitVec 32) : BitVec.ofNat 32 (x.toNat % 256^4)=x := by
  have hlt : x.toNat<256^4 := x.isLt
  rw [mod_eq_of_lt hlt, BitVec.ofNat_toNat, BitVec.setWidth_eq]

theorem ofNat_xword (x : BitVec 64) : BitVec.ofNat 64 (x.toNat % 256^8)=x := by
  have hlt : x.toNat<256^8 := x.isLt
  rw [mod_eq_of_lt hlt, BitVec.ofNat_toNat, BitVec.setWidth_eq]

theorem toLE_xword (x : ℕ) : toLE 8 x=toLE 8 (BitVec.ofNat 64 x).toNat := by
  exact (toLE_mod 8 x).symm

namespace Phdr

@[simp, grind =] theorem length_bytes (p : Phdr) : p.bytes.length=phdrSize := length_encode p.fields

theorem read_congr (h : ∀ a, pos≤a → a<pos+phdrSize → m a=m' a) : read m pos=read m' pos := by
  have hf : ∀ d w, d+w≤phdrSize → field m (pos+d) w=field m' (pos+d) w :=
    fun d w hd => field_congr fun a ha ha' => h a (by omega) (by omega)
  have hz := hf 0 4 (by decide)
  rw [add_zero] at hz
  simp (disch := decide) [read, hz, hf]

theorem read_store (p : Phdr) : read (store m pos p.bytes) pos=p := by
  have hf : ∀ before w x after, p.fields=before++(w, x)::after →
      field (store m pos p.bytes) (pos+width before) w=x % 256^w := by
    intro before w x after hs
    rw [bytes, hs]
    exact field_store_encode before w x after
  have h0 := hf [] _ _ _ rfl
  have h1 := hf (p.fields.take 1) _ _ _ rfl
  have h2 := hf (p.fields.take 2) _ _ _ rfl
  have h3 := hf (p.fields.take 3) _ _ _ rfl
  have h4 := hf (p.fields.take 4) _ _ _ rfl
  have h5 := hf (p.fields.take 5) _ _ _ rfl
  have h6 := hf (p.fields.take 6) _ _ _ rfl
  have h7 := hf (p.fields.take 7) _ _ _ rfl
  simp only [fields, width, take_succ_cons, take_zero, map_cons, map_nil, sum_cons,
    sum_nil, add_zero] at h0 h1 h2 h3 h4 h5 h6 h7
  simp only [read, h0, h1, h2, h3, h4, h5, h6, h7, ofNat_word, ofNat_xword]

theorem read_store_pOffset (x : BitVec 64) :
    read (store m (pos+pOffsetAt) (toLE 8 x.toNat)) pos={read m pos with pOffset := x} := by
  have hs : field (store m (pos+pOffsetAt) (toLE 8 x.toNat)) (pos+8) 8=x.toNat % 256^8 := field_store_self 8 x.toNat
  simp (disch := simp only [pOffsetAt, length_toLE]; omega) only [read, hs, field_store_of_disjoint, ofNat_xword]

theorem read_store_pFilesz (x : BitVec 64) :
    read (store m (pos+pFileszAt) (toLE 8 x.toNat)) pos={read m pos with pFilesz := x} := by
  have hs : field (store m (pos+pFileszAt) (toLE 8 x.toNat)) (pos+32) 8=x.toNat % 256^8 := field_store_self 8 x.toNat
  simp (disch := simp only [pFileszAt, length_toLE]; omega) only [read, hs, field_store_of_disjoint, ofNat_xword]

end Phdr

structure Shdr where
  shName : BitVec 32
  shType : BitVec 32
  shFlags : BitVec 64
  shAddr : BitVec 64
  shOffset : BitVec 64
  shSize : BitVec 64
  shLink : BitVec 32
  shInfo : BitVec 32
  shAddralign : BitVec 64
  shEntsize : BitVec 64

def shtProgbits : BitVec 32 := 1
def shtStrtab : BitVec 32 := 3
def shtNote : BitVec 32 := 7

def shfWrite : BitVec 64 := 1
def shfAlloc : BitVec 64 := 2
def shfExecinstr : BitVec 64 := 4

namespace Shdr

def placeFields (s : Shdr) : List (ℕ×ℕ) :=
  [(4, s.shName.toNat), (4, s.shType.toNat), (8, s.shFlags.toNat), (8, s.shAddr.toNat),
    (8, s.shOffset.toNat), (8, s.shSize.toNat)]

def fields (s : Shdr) : List (ℕ×ℕ) :=
  s.placeFields++[(4, s.shLink.toNat), (4, s.shInfo.toNat), (8, s.shAddralign.toNat), (8, s.shEntsize.toNat)]

def bytes (s : Shdr) : List UInt8 := encode s.fields

def placeBytes (s : Shdr) : List UInt8 := encode s.placeFields

@[simp, grind =] theorem length_bytes (s : Shdr) : s.bytes.length=shdrSize := length_encode s.fields

@[simp, grind =] theorem length_placeBytes (s : Shdr) : s.placeBytes.length=40 := length_encode s.placeFields

end Shdr

/-- What a reader of the file takes from a section header: where its section lies. -/
structure Place where
  addr : BitVec 64
  offset : BitVec 64
  size : BitVec 64

def Shdr.place (s : Shdr) : Place := ⟨s.shAddr, s.shOffset, s.shSize⟩

def Phdr.place (p : Phdr) : Place := ⟨p.pVaddr, p.pOffset, p.pFilesz⟩

def sectionPlace (m : Bytes) (pos : ℕ) : Place where
  addr := .ofNat 64 (field m (pos+16) 8)
  offset := .ofNat 64 (field m (pos+24) 8)
  size := .ofNat 64 (field m (pos+32) 8)

theorem sectionPlace_congr (h : ∀ a, pos≤a → a<pos+40 → m a=m' a) : sectionPlace m pos=sectionPlace m' pos := by
  have hf : ∀ d w, d+w≤40 → field m (pos+d) w=field m' (pos+d) w :=
    fun d w hd => field_congr fun a ha ha' => h a (by omega) (by omega)
  simp (disch := decide) [sectionPlace, hf]

theorem sectionPlace_store_encode (s : Shdr) (rest : List (ℕ×ℕ)) :
    sectionPlace (store m pos (encode (s.placeFields++rest))) pos=s.place := by
  have hf : ∀ before w x after, s.placeFields++rest=before++(w, x)::after →
      field (store m pos (encode (s.placeFields++rest))) (pos+width before) w=x % 256^w := by
    intro before w x after hs
    rw [hs]
    exact field_store_encode before w x after
  have h3 := hf (s.placeFields.take 3) _ _ _ rfl
  have h4 := hf (s.placeFields.take 4) _ _ _ rfl
  have h5 := hf (s.placeFields.take 5) _ _ _ rfl
  simp only [Shdr.placeFields, width, take_succ_cons, take_zero, map_cons, map_nil, sum_cons, sum_nil,
    add_zero] at h3 h4 h5
  simp only [sectionPlace, Shdr.place, Shdr.placeFields, h3, h4, h5, ofNat_xword]

structure Ehdr where
  eIdent : List UInt8
  eType : BitVec 16
  eMachine : BitVec 16
  eVersion : BitVec 32
  eEntry : BitVec 64
  ePhoff : BitVec 64
  eShoff : BitVec 64
  eFlags : BitVec 32
  eEhsize : BitVec 16
  ePhentsize : BitVec 16
  ePhnum : BitVec 16
  eShentsize : BitVec 16
  eShnum : BitVec 16
  eShstrndx : BitVec 16
  length_eIdent : eIdent.length = 16

namespace Ehdr

def identFields (e : Ehdr) : List (ℕ×ℕ) := e.eIdent.map fun byte => (1, byte.toNat)

def headFields (e : Ehdr) : List (ℕ×ℕ) :=
  [(2, e.eType.toNat), (2, e.eMachine.toNat), (4, e.eVersion.toNat), (8, e.eEntry.toNat),
    (8, e.ePhoff.toNat), (8, e.eShoff.toNat), (4, e.eFlags.toNat), (2, e.eEhsize.toNat),
    (2, e.ePhentsize.toNat), (2, e.ePhnum.toNat), (2, e.eShentsize.toNat), (2, e.eShnum.toNat), (2, e.eShstrndx.toNat)]

def bytes (e : Ehdr) : List UInt8 := encode (e.identFields++e.headFields)

@[grind unfold] def eShoffAt : ℕ := 40

end Ehdr

/-- The part of the file header that locates the two header tables. -/
structure Tables where
  phoff : BitVec 64
  shoff : BitVec 64
  phnum : BitVec 16
  shnum : BitVec 16
  shstrndx : BitVec 16

def tables (m : Bytes) : Tables where
  phoff := .ofNat 64 (field m 32 8)
  shoff := .ofNat 64 (field m 40 8)
  phnum := .ofNat 16 (field m 56 2)
  shnum := .ofNat 16 (field m 60 2)
  shstrndx := .ofNat 16 (field m 62 2)

namespace Ehdr

theorem width_identFields (e : Ehdr) : width e.identFields=16 := by
  simp [identFields, width, Function.comp_def, e.length_eIdent]

@[simp] theorem length_bytes (e : Ehdr) : e.bytes.length=ehdrSize := by
  rw [bytes, length_encode, width_append, width_identFields]
  rfl

theorem tables_congr (h : ∀ a, a<ehdrSize → m a=m' a) : tables m=tables m' := by
  have hf : ∀ d w, d+w≤ehdrSize → field m d w=field m' d w := fun d w hd => field_congr fun a ha ha' => h a (by omega)
  simp (disch := decide) [tables, hf]

theorem tables_store (e : Ehdr) : tables (store m 0 e.bytes)=⟨e.ePhoff, e.eShoff, e.ePhnum, e.eShnum, e.eShstrndx⟩ := by
  have hf : ∀ before w x after, e.headFields=before++(w, x)::after →
      field (store m 0 e.bytes) (16+width before) w=x % 256^w := by
    intro before w x after hs3
    have h : field (store m 0 (encode ((e.identFields++before)++(w, x)::after)))
        (0+width (e.identFields++before)) w=x % 256^w := field_store_encode _ _ _ _
    rwa [append_assoc, ←hs3, zero_add, width_append, width_identFields] at h
  have hp1 := hf (e.headFields.take 4) _ _ _ rfl
  have hs2 := hf (e.headFields.take 5) _ _ _ rfl
  have hp := hf (e.headFields.take 9) _ _ _ rfl
  have hs1 := hf (e.headFields.take 11) _ _ _ rfl
  have hs := hf (e.headFields.take 12) _ _ _ rfl
  simp only [headFields, width, take_succ_cons, take_zero, map_cons, map_nil, sum_cons,
    sum_nil, reduceAdd] at hp1 hs2 hp hs1 hs
  simp only [tables, hp1, hs2, hp, hs1, hs, ofNat_half, ofNat_xword]

theorem tables_store_eShoff (x : BitVec 64) :
    tables (store m eShoffAt (toLE 8 x.toNat))={tables m with shoff := x} := by
  have hs : field (store m eShoffAt (toLE 8 x.toNat)) 40 8=x.toNat % 256^8 := field_store_self 8 x.toNat
  simp (disch := simp only [eShoffAt, length_toLE]; omega) only [tables, hs, field_store_of_disjoint, ofNat_xword]

end Ehdr

end Faultloggerd.CoreFile
