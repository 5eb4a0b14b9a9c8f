import Faultloggerd.Foundations.BitMasks
import Mathlib.Tactic.ByContra

/-! # Reading memory: `DfxMemory`

`accessMem` answers the accessor's `AccessMem`: the word at an address, `none` where it fails. A read
copies bytes until an access fails; the address moves on only when all bytes were copied. Values are
little-endian and fill the low bytes of their destination, so what is left of a failed read shows in
the destination as well (`overlay`).
-/
namespace Faultloggerd.Dwarf
open List BitVec Nat

abbrev Word := BitVec 64

abbrev Byte := BitVec 8

def wordBytes (w : Word) : List Byte := (List.range 8).map fun k => w.extractLsb' (8*k) 8

def ofBytes (bs : List Byte) : Word := bs.foldr (fun b acc => acc <<< 8 ||| b.setWidth 64) 0

def overlay (v : Word) (bs : List Byte) : Word := ofBytes (bs++(wordBytes v).drop bs.length)

theorem overlay_of_length (v : Word) (bs : List Byte) (h : bs.length=8) : overlay v bs=ofBytes bs := by
  have hd : (wordBytes v).drop bs.length=[] := drop_eq_nil_of_le (by simp [wordBytes, h])
  rw [overlay, hd, append_nil]

theorem toNat_ofBytes_cons_of_lt {bs : List Byte} (b : Byte) (hl : bs.length<8)
    (h : (ofBytes bs).toNat<256^bs.length) : (ofBytes (b::bs)).toNat=(ofBytes bs).toNat*256+b.toNat := by
  have hp : 256^bs.length≤256^7 := Nat.pow_le_pow_right (by decide) (by omega)
  have hs : (ofBytes bs).toNat <<< 8 % 2^64=(ofBytes bs).toNat <<< 8 := by
    omega
  change (ofBytes bs <<< 8 ||| b.setWidth 64).toNat=_
  rw [toNat_or, toNat_shiftLeft, toNat_setWidth, hs, Nat.mod_eq_of_lt (by omega),
    ← Nat.shiftLeft_add_eq_or_of_lt (by omega), Nat.shiftLeft_eq]

variable (bs : List Byte)

theorem toNat_ofBytes_lt (h : bs.length≤8) : (ofBytes bs).toNat<256^bs.length := by
  induction bs with
  | nil => decide
  | cons b bs ih =>
    rw [length_cons] at h ⊢
    have hbs := ih (by omega)
    rw [toNat_ofBytes_cons_of_lt b (by omega) hbs]
    omega

theorem toNat_ofBytes_cons {bs : List Byte} (b : Byte) (hl : bs.length<8) :
    (ofBytes (b::bs)).toNat=(ofBytes bs).toNat*256+b.toNat :=
  toNat_ofBytes_cons_of_lt b hl (toNat_ofBytes_lt bs (by omega))

theorem ofBytes_injective {as bs : List Byte} (hl : as.length=bs.length) (hb : bs.length≤8)
    (h : ofBytes as=ofBytes bs) : as=bs := by
  induction as generalizing bs with
  | nil => exact (length_eq_zero_iff.mp hl.symm).symm
  | cons a as ih =>
    cases bs with
    | nil => cases hl
    | cons b bs =>
      rw [length_cons, length_cons] at hl
      rw [length_cons] at hb
      have hn := congrArg BitVec.toNat h
      rw [toNat_ofBytes_cons a (by omega), toNat_ofBytes_cons b (by omega)] at hn
      have ht : ofBytes as=ofBytes bs := eq_of_toNat_eq (by omega)
      have hh : a=b := eq_of_toNat_eq (by omega)
      rw [hh, ih (by omega) (by omega) ht]

theorem ofBytes_append_zeros (n : ℕ) : ofBytes (bs++List.replicate n 0)=ofBytes bs := by
  induction bs with
  | nil =>
    induction n with
    | zero => rfl
    | succ n ih =>
      rw [nil_append] at ih ⊢
      change ofBytes (replicate n 0) <<< 8 ||| (0 : Byte).setWidth 64=_
      rw [ih]
      decide
  | cons b bs ih =>
    change ofBytes (bs++List.replicate n 0) <<< 8 ||| b.setWidth 64=_
    rw [ih]
    rfl

theorem getLsbD_ofBytes (i : ℕ) (hi : i<64) : (ofBytes bs).getLsbD i=(bs[i/8]?.getD 0).getLsbD (i % 8) := by
  induction bs generalizing i with
  | nil => simp [ofBytes]
  | cons b bs ih =>
    change (ofBytes bs <<< 8 ||| b.setWidth 64).getLsbD i=_
    rw [getLsbD_or, getLsbD_shiftLeft, getLsbD_setWidth]
    by_cases hl : i<8
    · have hd : i/8=0 := by omega
      have hm : i % 8=i := by omega
      simp [hl, hi, hd, hm]
    · have hd : i/8=(i-8)/8+1 := by omega
      have hm : i % 8=(i-8) % 8 := by omega
      rw [ih (i-8) (by omega), hd, hm, getLsbD_of_ge b i (by omega)]
      simp [hl, hi]

theorem ofBytes_wordBytes (w : Word) : ofBytes (wordBytes w)=w := by
  apply eq_of_getLsbD_eq
  intro i hi
  have hb : (wordBytes w)[i/8]? = some (w.extractLsb' (8*(i/8)) 8) := by
    rw [wordBytes, getElem?_map, getElem?_range (by omega)]
    rfl
  have hs : 8*(i/8)+i % 8=i := by omega
  have hm : i % 8<8 := by omega
  rw [getLsbD_ofBytes _ i hi, hb, Option.getD_some, getLsbD_extractLsb', hs]
  simp [hm]

theorem wordBytes_ofBytes {bs : List Byte} (h : bs.length=8) : wordBytes (ofBytes bs)=bs :=
  ofBytes_injective (by simp [wordBytes, h]) (by omega) (ofBytes_wordBytes _)

theorem overlay_zero : overlay 0 bs=ofBytes bs := by
  have hz : (wordBytes 0).drop bs.length=List.replicate (8-bs.length) 0 := by
    rw [show wordBytes 0=List.replicate 8 0 from by decide, drop_replicate]
  rw [overlay, hz, ofBytes_append_zeros]

structure DfxMemory where
  accessMem : Word → Option Word
  alignAddr : Bool
  alignBytes : Word
  dataOffset : Word
  funcOffset : Word

namespace DfxMemory

def readRest (m : DfxMemory) : ℕ → ℕ → Word → List Byte
  | 0, leftOver, addr =>
    if leftOver = 0 then []
    else
      match m.accessMem addr with
      | none => []
      | some w => (wordBytes w).take leftOver
  | words+1, leftOver, addr =>
    match m.accessMem addr with
    | none => []
    | some w => wordBytes w ++ readRest m words leftOver (addr+8)

def readBytes (m : DfxMemory) (addr : Word) (size : ℕ) : List Byte :=
  if addr.toNat+size ≥ 2^64 then []
  else
    let alignBytes := if m.alignAddr ∧ m.alignBytes ≠ 0 then addr &&& (m.alignBytes-1) else 0
    if alignBytes ≠ 0 then
      match m.accessMem (addr &&& ~~~(m.alignBytes-1)) with
      | none => []
      | some w =>
        let copyBytes := min (m.alignBytes-alignBytes).toNat size
        ((wordBytes w).drop alignBytes.toNat).take copyBytes ++
          m.readRest ((size-copyBytes)/8) ((size-copyBytes) % 8)
            (addr+BitVec.ofNat 64 copyBytes)
    else m.readRest (size/8) (size % 8) addr

/-- `Read<T>(addr, &val)` into an uninitialised `val`: `none` where it returns false. -/
def read (m : DfxMemory) (addr : Word) (size : ℕ) : Option Word :=
  let bs := m.readBytes addr size
  if bs.length = size then some (ofBytes bs) else none

/-- `Read<T>(addr, &val, true)` into `val`, with the new address. -/
def readInto (m : DfxMemory) (addr : Word) (size : ℕ) (val : Word) : Word × Word :=
  let bs := m.readBytes addr size
  (overlay val bs, if bs.length=size then addr+BitVec.ofNat 64 size else addr)

section Reads

variable {m : DfxMemory} {addr value : Word} {size : ℕ}

theorem length_of_read (h : m.read addr size=some value) :
    (m.readBytes addr size).length=size ∧ value=ofBytes (m.readBytes addr size) := by
  rw [read] at h
  split at h
  · rename_i hl
    exact ⟨hl, (Option.some.inj h).symm⟩
  · cases h

theorem readInto_zero_of_read (h : m.read addr size=some value) :
    m.readInto addr size 0=(value, addr+BitVec.ofNat 64 size) := by
  obtain ⟨hl, rfl⟩ := length_of_read h
  rw [readInto, if_pos hl, overlay_zero]

theorem readInto_word_of_read (h : m.read addr 8=some value) (val : Word) : m.readInto addr 8 val=(value, addr+8) := by
  obtain ⟨hl, rfl⟩ := length_of_read h
  rw [readInto, if_pos hl, overlay_of_length _ _ hl]
  rfl

theorem readInto_over_read {addr' val : Word} (hv : m.read addr' 4=some val) (h : m.read addr 4=some value) :
    (m.readInto addr 4 val).1=value := by
  obtain ⟨hl', rfl⟩ := length_of_read hv
  obtain ⟨hl, rfl⟩ := length_of_read h
  have hb : wordBytes (ofBytes (m.readBytes addr' 4))=m.readBytes addr' 4++List.replicate 4 0 := by
    rw [←ofBytes_append_zeros _ 4]
    exact wordBytes_ofBytes (by rw [length_append, hl', length_replicate])
  rw [readInto, overlay, hl, hb, drop_left' hl', ofBytes_append_zeros]

theorem add_lt_of_read (hs : size≠0) (h : m.read addr size=some value) : addr.toNat+size<2^64 := by
  obtain ⟨hl, -⟩ := length_of_read h
  by_contra hover
  have hn : m.readBytes addr size=[] := if_pos (by omega)
  rw [hn] at hl
  exact hs hl.symm

theorem toNat_add_of_read (hs : size≠0) (h : m.read addr size=some value) :
    (addr+BitVec.ofNat 64 size).toNat=addr.toNat+size := by
  have hlt := add_lt_of_read hs h
  rw [toNat_add, toNat_ofNat, mod_eq_of_lt (a := size) (by omega), mod_eq_of_lt hlt]

theorem toNat_succ_of_read (h : m.read addr 1=some value) : (addr+1).toNat=addr.toNat+1 :=
  toNat_add_of_read (by decide) h

theorem le_readInto (m : DfxMemory) (addr : Word) (size : ℕ) (val : Word) :
    addr.toNat≤(m.readInto addr size val).2.toNat := by
  rw [readInto]
  split
  case isTrue hl =>
    by_cases hs : size=0
    · simp [hs]
    · have hr : m.read addr size=some (ofBytes (m.readBytes addr size)) := if_pos hl
      rw [toNat_add_of_read hs hr]
      exact Nat.le_add_right ..
  case isFalse => exact Nat.le_refl _

end Reads

def setDataOffset (m : DfxMemory) (dataOffset : Word) : DfxMemory :=
  {m with dataOffset := dataOffset}

theorem readRest_setDataOffset (m : DfxMemory) (d : Word) (words leftOver : ℕ) (addr : Word) :
    (m.setDataOffset d).readRest words leftOver addr=m.readRest words leftOver addr := by
  induction words generalizing addr with
  | zero => rfl
  | succ words ih =>
    simp only [readRest, ih]
    rfl

@[simp]
theorem readBytes_setDataOffset (m : DfxMemory) (d addr : Word) (size : ℕ) :
    (m.setDataOffset d).readBytes addr size=m.readBytes addr size := by
  simp only [readBytes, readRest_setDataOffset]
  rfl

@[simp]
theorem read_setDataOffset (m : DfxMemory) (d addr : Word) (size : ℕ) :
    (m.setDataOffset d).read addr size=m.read addr size := by
  simp [read]

@[simp]
theorem readInto_setDataOffset (m : DfxMemory) (d addr : Word) (size : ℕ) (val : Word) :
    (m.setDataOffset d).readInto addr size val=m.readInto addr size val := by
  simp [readInto]

/-- One round reads a byte; the read fails at the end of the address space at the latest. -/
def readUlebLoop (m : DfxMemory) : ℕ → Word → Word → ℕ → Word × Word
  | 0, addr, val, _ => (val, addr)
  | rounds+1, addr, val, shift =>
    match m.read addr 1 with
    | none => (val, addr)
    | some u8 =>
      let val := val ||| (u8 &&& 0x7f) <<< shift
      if u8 &&& 0x80 ≠ 0 then readUlebLoop m rounds (addr+1) val (shift+7)
      else (val, addr+1)

def readUleb128 (m : DfxMemory) (addr : Word) : Word × Word :=
  m.readUlebLoop (2^64-addr.toNat) addr 0 0

/-- The value so far, the shift, the last byte and the address. -/
def readSlebLoop (m : DfxMemory) : ℕ → Word → Word → ℕ → Word → Word × ℕ × Word × Word
  | 0, addr, val, shift, byte => (val, shift, byte, addr)
  | rounds+1, addr, val, shift, byte =>
    match m.read addr 1 with
    | none => (val, shift, byte, addr)
    | some byte =>
      let val := val ||| (byte &&& 0x7f) <<< shift
      if byte &&& 0x80 ≠ 0 then readSlebLoop m rounds (addr+1) val (shift+7) byte
      else (val, shift+7, byte, addr+1)

def readSleb128 (m : DfxMemory) (addr : Word) : Word × Word :=
  let (val, shift, byte, addr) := m.readSlebLoop (2^64-addr.toNat) addr 0 0 0
  (if byte &&& 0x40≠0 then val ||| BitVec.allOnes 64 <<< shift else val, addr)

def readUnsigned (m : DfxMemory) (addr : Word) (size : ℕ) : Word × Word := m.readInto addr size 0

def readSigned (m : DfxMemory) (addr : Word) (size : ℕ) : Word × Word :=
  let (val, addr) := m.readInto addr size 0
  ((val.setWidth (8*size)).signExtend 64, addr)

def readFormatEncodedValue (m : DfxMemory) (addr : Word) (formatEncoding : Byte) : Word × Word :=
  match formatEncoding.toNat with
  | 0x01 => m.readUleb128 addr
  | 0x09 => m.readSleb128 addr
  | 0x0d => m.readUnsigned addr 1
  | 0x0e => m.readSigned addr 1
  | 0x02 => m.readUnsigned addr 2
  | 0x0a => m.readSigned addr 2
  | 0x03 => m.readUnsigned addr 4
  | 0x0b => m.readSigned addr 4
  | 0x04 => m.readUnsigned addr 8
  | 0x0c => m.readSigned addr 8
  | _ => (0, addr)

def dwEhPeOmit : Byte := 0xff

def dwEhPeAligned : Byte := 0x50

def applyBase (m : DfxMemory) (startAddr : Word) (encoding : Byte) : Word :=
  match (encoding &&& 0x70).toNat with
  | 0x10 => startAddr
  | 0x30 => m.dataOffset
  | 0x40 => m.funcOffset
  | _ => 0

def readEncodedValue (m : DfxMemory) (addr : Word) (encoding : Byte) : Word × Word :=
  if encoding = dwEhPeOmit then (0, addr)
  else if encoding = dwEhPeAligned then
    if addr.toNat+7 ≥ 2^64 then (0, addr+7)
    else m.readUnsigned ((addr+7) &&& ~~~7) 8
  else if encoding &&& 0x0f = 0 then m.readUnsigned addr 8
  else
    let (val, addr') := m.readFormatEncodedValue addr (encoding &&& 0x0f)
    let val := val+m.applyBase addr encoding
    if encoding &&& 0x80 ≠ 0 then ((m.readInto val 8 val).1, addr') else (val, addr')

/-- A memory with one image from `base` on; what lies behind its end reads as zero. -/
def ofImage (base : ℕ) (image : List Byte) : DfxMemory where
  accessMem := fun addr =>
    if base ≤ addr.toNat ∧ addr.toNat < base+image.length then
      some (ofBytes ((image.drop (addr.toNat-base)).take 8))
    else none
  alignAddr := false
  alignBytes := 0
  dataOffset := 0
  funcOffset := 0

end DfxMemory

end Faultloggerd.Dwarf
