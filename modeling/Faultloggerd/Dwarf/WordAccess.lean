import Faultloggerd.Dwarf.Memory
import Faultloggerd.Foundations.PartialMemory

/-! # Byte reads through word access

`AccessMem` gives a whole word or fails. `Read` takes the bytes before an aligned address from the word around them,
then whole words, then the left-over bytes from one more word. The first and the last word hold bytes that were not
asked for.
-/
namespace Faultloggerd.Dwarf
open Foundations.PartialMemory List BitVec Option DfxMemory Nat

variable {m : DfxMemory} {bytes : ℕ → Option Byte} {addr : Word} {size words leftOver : ℕ}

/-- `AccessMem` gives the eight bytes from an address on, and fails where one of them cannot be read. -/
def Accesses (m : DfxMemory) (bytes : ℕ → Option Byte) : Prop :=
  ∀ a w, m.accessMem a = some w ↔ Agrees bytes a.toNat (wordBytes w)

theorem length_wordBytes (w : Word) : (wordBytes w).length=8 := by simp [wordBytes]

theorem Accesses.isSome_iff (h : Accesses m bytes) (a : Word) : (m.accessMem a).isSome ↔ Readable bytes a.toNat 8 := by
  constructor
  · intro hs
    obtain ⟨w, hw⟩ := isSome_iff_exists.mp hs
    have hr := ((h a w).mp hw).readable
    rwa [length_wordBytes] at hr
  · intro hr
    have hc := hr.agrees_cells 0
    rw [←wordBytes_ofBytes (length_cells 0)] at hc
    rw [(h a _).mpr hc]
    rfl

theorem toNat_add_eight (hlt : addr.toNat+8<2^64) : (addr+8).toNat=addr.toNat+8 := by
  rw [toNat_add, show (8 : Word).toNat=8 from rfl, mod_eq_of_lt hlt]

theorem agrees_readRest (h : Accesses m bytes) (hlt : addr.toNat+8*words+leftOver<2^64) :
    Agrees bytes addr.toNat (m.readRest words leftOver addr) := by
  induction words generalizing addr with
  | zero =>
    unfold readRest
    split
    · exact agrees_nil
    · cases hw : m.accessMem addr with
      | none => exact agrees_nil
      | some w => exact ((h addr w).mp hw).take leftOver
  | succ words ih =>
    unfold readRest
    cases hw : m.accessMem addr with
    | none => exact agrees_nil
    | some w =>
      have hn : (addr+8).toNat=addr.toNat+8 := toNat_add_eight (by omega)
      refine ((h addr w).mp hw).append ?_
      rw [length_wordBytes, ←hn]
      exact ih (by omega)

theorem length_readRest_eq_iff (h : Accesses m bytes) (hl : leftOver<8) (hlt : addr.toNat+8*words+leftOver<2^64) :
    (m.readRest words leftOver addr).length=8*words+leftOver ↔
      Readable bytes addr.toNat (8*words) ∧ (leftOver≠0 → Readable bytes (addr.toNat+8*words) 8) := by
  induction words generalizing addr with
  | zero =>
    have hs := h.isSome_iff addr
    have hn : Readable bytes addr.toNat 0 := nofun
    unfold readRest
    by_cases hz : leftOver=0
    · simp [hz, hn]
    · rw [if_neg hz]
      cases hw : m.accessMem addr with
      | none =>
        rw [hw] at hs
        simp only [isSome_none, Bool.false_eq_true] at hs
        simp [hn, hz, hs, Ne.symm hz]
      | some w =>
        rw [hw] at hs
        simp only [isSome_some, true_iff] at hs
        simp [hn, hs, length_wordBytes]
        omega
  | succ words ih =>
    have hs := h.isSome_iff addr
    have hn1 : (addr+8).toNat=addr.toNat+8 := toNat_add_eight (by omega)
    have hs1 : Readable bytes addr.toNat (8*(words+1)) ↔
        Readable bytes addr.toNat 8 ∧ Readable bytes (addr+8).toNat (8*words) := by
      rw [hn1, Nat.mul_add, Nat.add_comm, readable_add_iff]
    have he : addr.toNat+8*(words+1)=(addr+8).toNat+8*words := by omega
    unfold readRest
    cases hw : m.accessMem addr with
    | none =>
      rw [hw] at hs
      grind
    | some w =>
      rw [hw] at hs
      simp only [length_append, length_wordBytes]
      grind

namespace DfxMemory

def misalignment (m : DfxMemory) (addr : Word) : Word :=
  if m.alignAddr ∧ m.alignBytes ≠ 0 then addr &&& (m.alignBytes-1) else 0

def alignedAddr (m : DfxMemory) (addr : Word) : Word := addr &&& ~~~(m.alignBytes-1)

def headBytes (m : DfxMemory) (addr : Word) (size : ℕ) : ℕ :=
  if m.misalignment addr = 0 then 0 else min (m.alignBytes-m.misalignment addr).toNat size

theorem misalignment_eq (h : m.misalignment addr≠0) :
    m.alignBytes≠0 ∧ m.misalignment addr=addr&&&(m.alignBytes-1) := by
  unfold misalignment at h ⊢
  split
  · rename_i ha
    exact ⟨ha.2, rfl⟩
  · rename_i ha
    rw [if_neg ha] at h
    exact absurd rfl h

theorem alignedAddr_add (h : m.misalignment addr≠0) :
    (m.alignedAddr addr).toNat+(m.misalignment addr).toNat=addr.toNat := by
  obtain ⟨-, hmis⟩ := misalignment_eq h
  rw [hmis]
  exact Foundations.BitMasks.toNat_and_not_add_and addr _

theorem headBytes_le : m.headBytes addr size≤ size := by
  unfold headBytes
  split
  · exact zero_le _
  · exact Nat.min_le_right ..

theorem readBytes_aligned (hlt : addr.toNat+size<2^64) (h : m.misalignment addr=0) :
    m.readBytes addr size=m.readRest (size/8) (size % 8) addr := by
  unfold readBytes
  rw [if_neg (by omega)]
  change (if m.misalignment addr≠0 then _ else _)=_
  rw [if_neg (not_not_intro h)]

theorem readBytes_misaligned (hlt : addr.toNat+size<2^64) (h : m.misalignment addr≠0) : m.readBytes addr size =
      match m.accessMem (m.alignedAddr addr) with
      | none => []
      | some w =>
        ((wordBytes w).drop (m.misalignment addr).toNat).take (m.headBytes addr size) ++
          m.readRest ((size-m.headBytes addr size)/8) ((size-m.headBytes addr size) % 8)
            (addr+BitVec.ofNat 64 (m.headBytes addr size)) := by
  have hhead : m.headBytes addr size=min (m.alignBytes-m.misalignment addr).toNat size := if_neg h
  unfold readBytes
  rw [if_neg (by omega), hhead]
  change (if m.misalignment addr≠0 then _ else _)=_
  rw [if_pos h]
  rfl

end DfxMemory

/-- The copy stays inside the word that was loaded, what is copied is what memory holds, and everything is copied where
everything can be read. -/
structure ReadLaw (m : DfxMemory) (bytes : ℕ → Option Byte) (addr : Word) (size : ℕ) : Prop where
  inWord : size ≠ 0 → m.misalignment addr ≠ 0 → (m.accessMem (m.alignedAddr addr)).isSome →
    (m.misalignment addr).toNat+m.headBytes addr size ≤ 8
  agrees : Agrees bytes addr.toNat (m.readBytes addr size)
  complete : Readable bytes addr.toNat size → (m.readBytes addr size).length = size

def leftOverBytes (m : DfxMemory) (addr : Word) (size : ℕ) : ℕ := (size-m.headBytes addr size) % 8

/-- The words of the head and of the left-over can be read where the bytes that are asked for can, and the head lies in
one word. -/
structure WordsReadable (m : DfxMemory) (bytes : ℕ → Option Byte) (addr : Word) (size : ℕ) : Prop where
  inWord : size ≠ 0 → m.misalignment addr ≠ 0 → Readable bytes (m.alignedAddr addr).toNat 8 →
    (m.misalignment addr).toNat+m.headBytes addr size ≤ 8
  head : Readable bytes addr.toNat size → size ≠ 0 → m.misalignment addr ≠ 0 →
    Readable bytes (m.alignedAddr addr).toNat 8
  tail : Readable bytes addr.toNat size → leftOverBytes m addr size ≠ 0 →
    Readable bytes (addr.toNat+size-leftOverBytes m addr size) 8

theorem toNat_behind_head (m : DfxMemory) (hlt : addr.toNat+size<2^64) :
    (addr+BitVec.ofNat 64 (m.headBytes addr size)).toNat=addr.toNat+m.headBytes addr size := by
  have hle : m.headBytes addr size≤ size := m.headBytes_le
  rw [toNat_add, toNat_ofNat, mod_eq_of_lt (a := m.headBytes addr size) (by omega), mod_eq_of_lt (by omega)]

theorem length_head (w : Word) (hin : (m.misalignment addr).toNat+m.headBytes addr size≤8) :
    (((wordBytes w).drop (m.misalignment addr).toNat).take (m.headBytes addr size)).length=m.headBytes addr size := by
  rw [length_take, length_drop, length_wordBytes]
  omega

section Law

variable (h : Accesses m bytes) (hlt : addr.toNat+size<2^64)
include h hlt

theorem length_rest_eq_iff (hr : Readable bytes addr.toNat size) :
    (m.readRest ((size-m.headBytes addr size)/8) ((size-m.headBytes addr size) % 8)
        (addr+BitVec.ofNat 64 (m.headBytes addr size))).length=size-m.headBytes addr size ↔
      (leftOverBytes m addr size≠0 → Readable bytes (addr.toNat+size-leftOverBytes m addr size) 8) := by
  have hle : m.headBytes addr size≤ size := m.headBytes_le
  have hs := toNat_behind_head m hlt
  have hs1 := div_add_mod (size-m.headBytes addr size) 8
  have hl : (size-m.headBytes addr size) % 8<8 := mod_lt _ (by decide)
  have hi := length_readRest_eq_iff h hl (by omega :
    (addr+BitVec.ofNat 64 (m.headBytes addr size)).toNat+8*((size-m.headBytes addr size)/8) +
      (size-m.headBytes addr size) % 8<2^64)
  have hw : Readable bytes (addr.toNat+m.headBytes addr size) (8*((size-m.headBytes addr size)/8)) :=
    hr.inside (by omega) (by omega)
  rw [hs1, hs] at hi
  rw [hi, and_iff_right hw, leftOverBytes, show addr.toNat+m.headBytes addr size+8*((size-m.headBytes addr size)/8) =
      addr.toNat+size-(size-m.headBytes addr size) % 8 by omega]

theorem agrees_rest : Agrees bytes (addr.toNat+m.headBytes addr size)
    (m.readRest ((size-m.headBytes addr size)/8) ((size-m.headBytes addr size) % 8)
      (addr+BitVec.ofNat 64 (m.headBytes addr size))) := by
  have hs := toNat_behind_head m hlt
  rw [←hs]
  exact agrees_readRest h (by omega)

theorem readLaw_iff_of_aligned (hmis : m.misalignment addr=0) :
    ReadLaw m bytes addr size ↔ WordsReadable m bytes addr size := by
  have hhead : m.headBytes addr size=0 := if_pos hmis
  have hb := m.readBytes_aligned hlt hmis
  have hl := length_rest_eq_iff h hlt
  have hr1 := agrees_rest h hlt
  rw [hhead, Nat.sub_zero, BitVec.add_zero, ←hb] at hl hr1
  constructor
  · intro hl1
    exact ⟨fun _ hne => absurd hmis hne, fun _ _ hne => absurd hmis hne, fun hr => (hl hr).mp (hl1.complete hr)⟩
  · intro hw
    exact ⟨fun _ hne => absurd hmis hne, hr1, fun hr => (hl hr).mpr (hw.tail hr)⟩

theorem readLaw_iff_of_misaligned (hmis : m.misalignment addr≠0) (hsize : size≠0) :
    ReadLaw m bytes addr size ↔ WordsReadable m bytes addr size := by
  have hle : m.headBytes addr size≤ size := m.headBytes_le
  have hb := m.readBytes_misaligned hlt hmis
  have hs := h.isSome_iff (m.alignedAddr addr)
  have hl1 := length_rest_eq_iff h hlt
  have hr1 := agrees_rest h hlt
  cases hw : m.accessMem (m.alignedAddr addr) with
  | none =>
    rw [hw] at hb hs
    simp only [isSome_none, Bool.false_eq_true, false_iff] at hs
    -- nothing is read, so the law asks that something of the range cannot be read
    constructor
    · intro hl
      have hn : ¬Readable bytes addr.toNat size := by
        intro hr
        have ha := hl.complete hr
        rw [hb] at ha
        exact hsize ha.symm
      exact ⟨fun _ _ hw1 => absurd hw1 hs, fun ha => absurd ha hn, fun ha => absurd ha hn⟩
    · intro hw2
      refine ⟨fun _ _ hw1 => absurd hw1 (by rw [hw]; exact Bool.false_ne_true), ?_, fun hr => ?_⟩
      · rw [hb]
        exact agrees_nil
      · exact absurd (hw2.head hr hsize hmis) hs
  | some w =>
    rw [hw] at hb hs
    simp only [isSome_some, true_iff] at hs
    have hw1 : Agrees bytes addr.toNat
        (((wordBytes w).drop (m.misalignment addr).toNat).take (m.headBytes addr size)) := by
      have hd := (((h _ w).mp hw).drop (m.misalignment addr).toNat).take (m.headBytes addr size)
      rwa [m.alignedAddr_add hmis] at hd
    have ht : ∀ hin : (m.misalignment addr).toNat+m.headBytes addr size≤8,
        Readable bytes addr.toNat size → ((m.readBytes addr size).length=size ↔
          (leftOverBytes m addr size≠0 → Readable bytes (addr.toNat+size-leftOverBytes m addr size) 8)) := by
      intro hin hr
      rw [hb, length_append, length_head w hin, ←hl1 hr]
      omega
    constructor
    · intro hl
      have hin := hl.inWord hsize hmis (by rw [hw]; rfl)
      exact ⟨fun _ _ _ => hin, fun _ _ _ => hs, fun hr => (ht hin hr).mp (hl.complete hr)⟩
    · intro hw2
      have hin := hw2.inWord hsize hmis hs
      refine ⟨fun _ _ _ => hin, ?_, fun hr => (ht hin hr).mpr (hw2.tail hr)⟩
      rw [hb]
      refine hw1.append ?_
      rw [length_head w hin]
      exact hr1

omit h in
theorem readBytes_zero (hmis : m.misalignment addr≠0) (hsize : size=0) : m.readBytes addr size = [] := by
  have hhead : m.headBytes addr size=0 := by
    have hle : m.headBytes addr size≤ size := m.headBytes_le
    omega
  rw [m.readBytes_misaligned hlt hmis, hhead, hsize]
  cases m.accessMem (m.alignedAddr addr) <;> rfl

/-- A read is right exactly when the words it loads can be read where its bytes can. -/
theorem readLaw_iff : ReadLaw m bytes addr size ↔ WordsReadable m bytes addr size := by
  by_cases hmis : m.misalignment addr=0
  · exact readLaw_iff_of_aligned h hlt hmis
  by_cases hsize : size=0
  · have hb := readBytes_zero hlt hmis hsize
    have hl : leftOverBytes m addr size=0 := by
      rw [leftOverBytes, hsize, Nat.zero_sub]
    refine iff_of_true ⟨fun hne => absurd hsize hne, ?_, fun _ => ?_⟩
      ⟨fun hne => absurd hsize hne, fun _ hne => absurd hsize hne, fun _ hne => absurd hl hne⟩
    · rw [hb]
      exact agrees_nil
    · rw [hb, hsize]
      rfl
  · exact readLaw_iff_of_misaligned h hlt hmis hsize

end Law

def wordMemory (bytes : ℕ → Option Byte) (alignAddr : Bool) (alignBytes : Word) : DfxMemory where
  accessMem := fun a => if Readable bytes a.toNat 8 then some (ofBytes (cells bytes 0 a.toNat 8)) else none
  alignAddr := alignAddr
  alignBytes := alignBytes
  dataOffset := 0
  funcOffset := 0

theorem accesses_wordMemory (bytes : ℕ → Option Byte) (alignAddr : Bool) (alignBytes : Word) :
    Accesses (wordMemory bytes alignAddr alignBytes) bytes := by
  intro a w
  unfold wordMemory
  dsimp only
  constructor
  · intro hw
    split at hw
    · rename_i hr
      rw [←Option.some.inj hw, wordBytes_ofBytes (length_cells 0)]
      exact hr.agrees_cells 0
    · cases hw
  · intro ha
    have hr := ha.readable
    rw [length_wordBytes] at hr
    have hs := (hr.agrees_cells 0).unique ha (by rw [length_cells, length_wordBytes])
    rw [if_pos hr, hs, ofBytes_wordBytes]

def page : ℕ → Option Byte := fun a => if 0x1000 ≤ a ∧ a < 0x2000 then some 7 else none

theorem readLaw_page : Accesses (wordMemory page true 8) page ∧ ReadLaw (wordMemory page true 8) page 0x1003 16 := by
  have ha := accesses_wordMemory page true 8
  have hl := readLaw_iff ha (show (0x1003 : Word).toNat+16<2^64 by decide)
  exact ⟨ha, hl.mpr ⟨by decide, by decide, by decide⟩⟩

/-- The last four bytes of the page are readable, but not the word that starts with them. -/
theorem page_end_unread : Accesses (wordMemory page false 0) page ∧ Readable page (0x1ffc : Word).toNat 4 ∧
      (wordMemory page false 0).readBytes 0x1ffc 4 = [] ∧ ¬ReadLaw (wordMemory page false 0) page 0x1ffc 4 := by
  have hr : Readable page (0x1ffc : Word).toNat 4 := by decide
  have hn : (wordMemory page false 0).readBytes 0x1ffc 4=[] := by decide
  refine ⟨accesses_wordMemory page false 0, hr, hn, fun hl => ?_⟩
  have ha := hl.complete hr
  cases ha

end Faultloggerd.Dwarf
