import Faultloggerd.Dwarf.EntryParser
import Faultloggerd.Foundations.Bisection

/-! # Searching the table of FDEs

`SearchEntry` bisects the table and keeps the address it found in a variable that is zero otherwise.
-/
namespace Faultloggerd.Dwarf
open Foundations.Bisection BitVec Option Nat

def entryAddr (uti : UnwindTableInfo) (i : ℕ) : Word := uti.tableData+BitVec.ofNat 64 i*8

abbrev keysOf (startPc : ℕ → Word) : ℕ → ℕ := fun i => (startPc i).toNat

/-- A readable table: its start addresses, which increase, and its FDE addresses, none of which is zero. -/
structure TableAt (m : DfxMemory) (uti : UnwindTableInfo) (startPc fdeAddr : ℕ → Word) : Prop where
  start : ∀ i < uti.tableLen.toNat, tableWord m uti (entryAddr uti i) = some (startPc i)
  fde : ∀ i < uti.tableLen.toNat, tableWord m uti (entryAddr uti i+4) = some (fdeAddr i)
  increasing : Increasing (keysOf startPc) uti.tableLen.toNat
  nonzero : ∀ i < uti.tableLen.toNat, fdeAddr i ≠ 0

section Search

variable {m : DfxMemory} {uti : UnwindTableInfo} {startPc fdeAddr : ℕ → Word}

/-- Entries that are `2 ^ 61` apart share their address, so the sum of two bounds does not overflow. -/
theorem TableAt.length_le (h : TableAt m uti startPc fdeAddr) : uti.tableLen.toNat≤2^61 := by
  by_contra hlong
  have hf := h.start 0 (by omega)
  have hs := h.start (2^61) (by omega)
  have ha : entryAddr uti (2^61)=entryAddr uti 0 := by
    unfold entryAddr
    congr 1
  rw [ha, hf] at hs
  have hlt := h.increasing 0 (2^61) (by decide) (by omega)
  exact absurd (congrArg BitVec.toNat (some.inj hs)) (Nat.ne_of_lt hlt)

theorem middle_eq {low high : ℕ} (hl : low≤2^61) (hh : high≤2^61) :
    (BitVec.ofNat 64 low+BitVec.ofNat 64 high)/2=BitVec.ofNat 64 ((low+high)/2) := by
  apply eq_of_toNat_eq
  rw [←ofNat_add, toNat_udiv, toNat_ofNat, toNat_ofNat, mod_eq_of_lt (by omega), mod_eq_of_lt (by omega)]
  rfl

theorem searchLoop_spec (h : TableAt m uti startPc fdeAddr) (pc : Word) (fuel low high : ℕ)
    (hw : Window (keysOf startPc) pc.toNat uti.tableLen.toNat low high) (hf1 : high-low≤fuel) :
    ∃ entry bound, searchLoop m pc uti fuel (BitVec.ofNat 64 low) (BitVec.ofNat 64 high) =
        some (some (entry, BitVec.ofNat 64 bound)) ∧
      ((∃ i, IsLast (keysOf startPc) pc.toNat uti.tableLen.toNat i ∧ entry=fdeAddr i) ∨
        entry=0 ∧ Window (keysOf startPc) pc.toNat uti.tableLen.toNat bound bound) := by
  have hl1 := h.length_le
  induction fuel generalizing low high with
  | zero =>
    have hle := hw.le
    obtain rfl : low=high := by omega
    refine ⟨0, low, ?_, .inr ⟨rfl, hw⟩⟩
    rw [searchLoop, if_neg (lt_irrefl _)]
  | succ fuel ih =>
    have hle := hw.le
    have hb1 := hw.bound
    have hl : (BitVec.ofNat 64 low).toNat=low := by
      rw [toNat_ofNat, mod_eq_of_lt (by omega)]
    have hh : (BitVec.ofNat 64 high).toNat=high := by
      rw [toNat_ofNat, mod_eq_of_lt (by omega)]
    rw [searchLoop, hl, hh]
    by_cases hlt : low<high
    · rw [if_pos hlt, middle_eq (by omega) (by omega)]
      have hc : (low+high)/2<high := by omega
      have hs := h.start ((low+high)/2) (by omega)
      have hf := h.fde ((low+high)/2) (by omega)
      dsimp only
      unfold entryAddr at hs hf
      rw [hs]
      dsimp only
      by_cases heq : startPc ((low+high)/2)=pc
      · refine ⟨_, high, ?_, .inl ⟨(low+high)/2, isLast_of_eq h.increasing (by omega) ?_, rfl⟩⟩
        · rw [if_pos heq, hf]
          rfl
        · exact congrArg BitVec.toNat heq
      rw [if_neg heq]
      by_cases hb : pc.toNat<(startPc ((low+high)/2)).toNat
      · rw [if_pos hb]
        exact ih low _ (hw.lower h.increasing (by omega) hc hb) (by omega)
      · have hs1 : BitVec.ofNat 64 ((low+high)/2)+1=BitVec.ofNat 64 ((low+high)/2+1) := (ofNat_add ..).symm
        rw [if_neg hb, hs1]
        have ha : (startPc ((low+high)/2)).toNat<pc.toNat := by
          have hne : (startPc ((low+high)/2)).toNat≠pc.toNat := fun hn => heq (eq_of_toNat_eq hn)
          omega
        exact ih _ high (hw.upper h.increasing hc ha) (by omega)
    · obtain rfl : low=high := by omega
      exact ⟨0, low, if_neg hlt, .inr ⟨rfl, hw⟩⟩

theorem searchEntry_spec (h : TableAt m uti startPc fdeAddr) (pc : Word) :
    (∃ i, IsLast (keysOf startPc) pc.toNat uti.tableLen.toNat i ∧ searchEntry m pc uti=some (some (fdeAddr i))) ∨
      (∀ i<uti.tableLen.toNat, pc.toNat<(startPc i).toNat) ∧ searchEntry m pc uti=some none := by
  obtain ⟨entry, bound, hl, he⟩ := searchLoop_spec h pc uti.tableLen.toNat 0 uti.tableLen.toNat .start (sub_le ..)
  rw [ofNat_toNat] at hl
  change searchLoop m pc uti uti.tableLen.toNat 0 uti.tableLen=_ at hl
  unfold searchEntry
  rw [hl]
  simp only [map_some, bind_some]
  obtain ⟨i, hl1, rfl⟩ | ⟨rfl, hw⟩ := he
  · refine .inl ⟨i, hl1, ?_⟩
    rw [if_pos (h.nonzero i hl1.lt)]
  have hb := hw.bound
  by_cases hz : bound=0
  · refine .inr ⟨hw.none_of_empty hz, ?_⟩
    subst hz
    exact congrArg some (if_neg (not_not_intro rfl))
  · refine .inl ⟨bound-1, hw.isLast (lt_irrefl _) hz, ?_⟩
    have hne : BitVec.ofNat 64 bound≠0 := by
      intro heq
      have hn := congrArg BitVec.toNat heq
      rw [toNat_ofNat, mod_eq_of_lt (by omega)] at hn
      exact hz hn
    have hp : BitVec.ofNat 64 bound-1=BitVec.ofNat 64 (bound-1) := by
      rw [show bound=bound-1+1 by omega, ofNat_add]
      exact add_sub_cancel _ _
    rw [if_pos hne, hp]
    exact congrArg some (h.fde (bound-1) (by omega))

/-- The search succeeds exactly when a start address is not above the pc, and finds the entry of the greatest one. -/
theorem searchEntry_finds_last (h : TableAt m uti startPc fdeAddr) (pc : Word) :
    ((∃ entry, searchEntry m pc uti=some (some entry)) ↔ ∃ i<uti.tableLen.toNat, (startPc i).toNat≤pc.toNat) ∧
      (searchEntry m pc uti).isSome ∧ ∀ i < uti.tableLen.toNat, (startPc i).toNat ≤ pc.toNat →
        (∀ j<uti.tableLen.toNat, (startPc j).toNat≤pc.toNat → (startPc j).toNat≤(startPc i).toNat) →
        searchEntry m pc uti = some (some (fdeAddr i)) := by
  obtain ⟨last, hl, hf⟩ | ⟨hn, hf⟩ := searchEntry_spec h pc
  · refine ⟨⟨fun _ => ⟨last, hl.lt, hl.le⟩, fun _ => ⟨_, hf⟩⟩, by rw [hf]; rfl, fun i hi hle hg => ?_⟩
    have ho : IsLast (keysOf startPc) pc.toNat uti.tableLen.toNat i := by
      refine ⟨hi, hle, fun j hj hj1 => ?_⟩
      by_contra hgt
      have hlt := h.increasing i j (by omega) hj
      exact absurd (hg j hj hj1) (not_le.mpr hlt)
    rw [hf, hl.unique ho]
  · refine ⟨⟨?_, ?_⟩, by rw [hf]; rfl, fun i hi hle => absurd hle (not_le.mpr (hn i hi))⟩
    · rintro ⟨entry, he⟩
      rw [hf] at he
      cases he
    · rintro ⟨i, hi, hle⟩
      exact absurd hle (not_le.mpr (hn i hi))

def twoEntries : DfxMemory := .ofImage 0x1000 [0x10, 0, 0, 0, 0, 1, 0, 0, 0x20, 0, 0, 0, 0x40, 1, 0, 0]

def twoEntriesInfo : UnwindTableInfo := ⟨0, false, 0x4000, 2, 0x1000⟩

theorem twoEntries_found : TableAt twoEntries twoEntriesInfo (fun i => if i=0 then 0x4010 else 0x4020)
      (fun i => if i=0 then 0x4100 else 0x4140) ∧
    searchEntry twoEntries 0x4018 twoEntriesInfo = some (some 0x4100) := by
  refine (and_iff_left_of_imp fun ht => ?_).mpr ⟨by decide, by decide, ?_, by decide⟩
  · exact (searchEntry_finds_last ht 0x4018).2.2 0 (by decide) (by decide) (by decide)
  · intro i j hij hj
    obtain rfl : j=1 := by
      have hlt : j<2 := hj
      omega
    obtain rfl : i=0 := by omega
    decide

end Search

end Faultloggerd.Dwarf
