import Mathlib.Algebra.Order.Group.Nat
import Mathlib.Algebra.Group.Int.Defs

/-! # The map of an address: `DfxMaps::FindMapIndexByAddr` -/
namespace Faultloggerd.Maps
open List

structure DfxMap where
  begin : ℕ := 0
  endAddr : ℕ := 0
  name : List Char := []

def DfxMap.contain (m : DfxMap) (pc : ℕ) : Prop := m.begin ≤ pc ∧ pc < m.endAddr

instance (m : DfxMap) (pc : ℕ) : Decidable (m.contain pc) := inferInstanceAs (Decidable (_ ∧ _))

structure DfxMaps where
  maps : List (Option DfxMap)
  adltMapIndex : ℕ := 2^32-1

def adltPathNameStart : List Char := "/system/lib/libadlt".toList

def DfxMap.isAdlt (m : DfxMap) : Bool := adltPathNameStart.isPrefixOf m.name

def asInt (index : ℕ) : ℤ := (BitVec.ofNat 32 index).toInt

def findFrom (m : DfxMaps) (addr first last : ℕ) : ℤ :=
  if first < last then
    let index := (first+last)/2
    match m.maps[index]? with
    | some (some cur) =>
      if cur.contain addr then
        if cur.isAdlt ∧ m.adltMapIndex < m.maps.length then asInt m.adltMapIndex else asInt index
      else if addr < cur.begin then findFrom m addr first index
      else findFrom m addr (index+1) last
    | _ => -1
  else -1
termination_by last-first

def findMapIndexByAddr (m : DfxMaps) (addr : ℕ) : ℤ := findFrom m addr 0 m.maps.length

/-- Sorted by begin address, disjoint, not empty, and no ADLT map among them. -/
structure Proper (maps : List DfxMap) : Prop where
  sorted : maps.Pairwise fun m m' => m.begin ≤ m'.begin
  disjoint : maps.Pairwise fun m m' => ∀ pc, ¬(m.contain pc ∧ m'.contain pc)
  nonempty : ∀ m ∈ maps, m.begin < m.endAddr
  noAdlt : ∀ m ∈ maps, m.isAdlt = false

section Search

variable {maps : List DfxMap} {adlt addr first last i j : ℕ} {m m' : DfxMap}

theorem Proper.end_le_begin (h : Proper maps) (hi : maps[i]?=some m) (hj : maps[j]?=some m') (hij : i<j) :
    m.endAddr≤ m'.begin := by
  obtain ⟨hi1, rfl⟩ := List.getElem?_eq_some_iff.mp hi
  obtain ⟨hj1, rfl⟩ := List.getElem?_eq_some_iff.mp hj
  have hs := pairwise_iff_getElem.mp h.sorted i j hi1 hj1 hij
  have hn := h.nonempty _ (getElem_mem hj1)
  by_contra hlt
  exact pairwise_iff_getElem.mp h.disjoint i j hi1 hj1 hij maps[j].begin ⟨⟨hs, by omega⟩, le_rfl, hn⟩

theorem findFrom_step (adlt addr : ℕ) (h : Proper maps) (hlt : first<last) (hl : last≤ maps.length) :
    ∃ cur, maps[(first+last)/2]?=some cur ∧ findFrom ⟨maps.map some, adlt⟩ addr first last =
        if cur.contain addr then asInt ((first+last)/2)
        else if addr<cur.begin then findFrom ⟨maps.map some, adlt⟩ addr first ((first+last)/2)
        else findFrom ⟨maps.map some, adlt⟩ addr ((first+last)/2+1) last := by
  have hm : (first+last)/2< maps.length := by omega
  have ha := h.noAdlt _ (getElem_mem hm)
  rw [findFrom]
  simp [hlt, hm, ha]

theorem findFrom_of_contain (h : Proper maps) (hi : maps[i]?=some m) (hm : m.contain addr) (hf : first≤ i)
    (hi1 : i<last) (hl : last≤ maps.length) : findFrom ⟨maps.map some, adlt⟩ addr first last=asInt i := by
  induction hn : last-first using Nat.strong_induction_on generalizing first last with
  | _ n ih =>
    obtain ⟨cur, hc1, hs⟩ := findFrom_step adlt addr h (hf.trans_lt hi1) hl
    rw [hs]
    obtain hlt | heq | hgt := lt_trichotomy i ((first+last)/2)
    · have hb : addr<cur.begin := hm.2.trans_le (h.end_le_begin hi hc1 hlt)
      rw [if_neg fun hc => absurd hc.1 (not_le.mpr hb), if_pos hb]
      exact ih _ (by omega) hf hlt (by omega) rfl
    · rw [←heq, hi] at hc1
      obtain rfl := Option.some.inj hc1
      rw [if_pos hm, heq]
    · have hb1 : cur.endAddr≤addr := (h.end_le_begin hc1 hi hgt).trans hm.1
      have hn1 := h.nonempty cur (mem_of_getElem? hc1)
      rw [if_neg fun hc => absurd hc.2 (not_lt.mpr hb1), if_neg (by omega)]
      exact ih _ (by omega) hgt hi1 hl rfl

theorem findFrom_of_none (h : Proper maps) (hn1 : ∀ m∈maps, ¬m.contain addr) (hl : last≤ maps.length) :
    findFrom ⟨maps.map some, adlt⟩ addr first last=-1 := by
  induction hn : last-first using Nat.strong_induction_on generalizing first last with
  | _ n ih =>
    by_cases hlt : first<last
    · obtain ⟨cur, hc, hs⟩ := findFrom_step adlt addr h hlt hl
      rw [hs, if_neg (hn1 cur (mem_of_getElem? hc))]
      split_ifs
      · exact ih _ (by omega) (by omega) rfl
      · exact ih _ (by omega) hl rfl
    · rw [findFrom, if_neg hlt]

theorem findMapIndexByAddr_of_contain (h : Proper maps) (hi : maps[i]?=some m) (hm : m.contain addr) :
    findMapIndexByAddr ⟨maps.map some, adlt⟩ addr=asInt i := by
  have hlt := (List.getElem?_eq_some_iff.mp hi).1
  exact findFrom_of_contain h hi hm (by omega) (by simpa using hlt) (by simp)

theorem asInt_of_lt (hi : i<2^31) : asInt i=i := by
  rw [asInt, BitVec.toInt_eq_toNat_cond, BitVec.toNat_ofNat]
  omega

end Search

/-- In proper maps the one that contains the address is found, and -1 where there is none. -/
theorem findMapIndexByAddr_finds (maps : List DfxMap) (adlt addr : ℕ) (h : Proper maps) (hlen : maps.length≤2^31) :
    (∀ (i : ℕ) m, maps[i]? = some m → m.contain addr → findMapIndexByAddr ⟨maps.map some, adlt⟩ addr=i) ∧
      ((∀ m∈maps, ¬m.contain addr) → findMapIndexByAddr ⟨maps.map some, adlt⟩ addr = -1) := by
  refine ⟨fun i m hi hm => ?_, fun hn => findFrom_of_none h hn (by simp)⟩
  have hlt := (List.getElem?_eq_some_iff.mp hi).1
  rw [findMapIndexByAddr_of_contain h hi hm, asInt_of_lt (by omega)]

def byteMap (i : ℕ) : DfxMap := {begin := i, endAddr := i+1}

def byteMaps (n : ℕ) : List DfxMap := (List.range n).map byteMap

theorem byteMaps_proper (n : ℕ) : Proper (byteMaps n) := by
  refine ⟨?_, ?_, ?_, ?_⟩
  · exact pairwise_map.mpr (pairwise_lt_range.imp fun hlt => hlt.le)
  · refine pairwise_map.mpr (pairwise_lt_range.imp fun hlt pc => ?_)
    simp only [DfxMap.contain, byteMap]
    omega
  · simp [byteMaps, byteMap]
  · simp only [byteMaps, mem_map, forall_exists_index, and_imp]
    rintro _ i-rfl
    rfl

theorem byteMaps_found : findMapIndexByAddr ⟨(byteMaps 3).map some, 2^32-1⟩ 2 = 2 ∧
    findMapIndexByAddr ⟨(byteMaps 3).map some, 2^32-1⟩ 3 = -1 :=
  ⟨(findMapIndexByAddr_finds (byteMaps 3) _ 2 (byteMaps_proper 3) (by decide)).1 2 _ rfl (by decide),
    (findMapIndexByAddr_finds (byteMaps 3) _ 3 (byteMaps_proper 3) (by decide)).2 (by decide)⟩

theorem findMapIndexByAddr_byteMaps (n : ℕ) : (byteMaps (n+1))[n]?=some (byteMap n) ∧ (byteMap n).contain n ∧
    findMapIndexByAddr ⟨(byteMaps (n+1)).map some, 2^32-1⟩ n=asInt n := by
  have hg : (byteMaps (n+1))[n]? = some (byteMap n) := by simp [byteMaps]
  have hc : (byteMap n).contain n := by simp [DfxMap.contain, byteMap]
  exact ⟨hg, hc, findMapIndexByAddr_of_contain (byteMaps_proper _) hg hc⟩

/-- The index 2 ^ 31 is returned as a negative number. -/
theorem byteMaps_negative : Proper (byteMaps (2^31+1)) ∧
    (byteMaps (2^31+1))[2^31]? = some (byteMap (2^31)) ∧ (byteMap (2^31)).contain (2^31) ∧
    findMapIndexByAddr ⟨(byteMaps (2^31+1)).map some, 2^32-1⟩ (2^31) = -2^31 := by
  obtain ⟨hg, hc, hf⟩ := findMapIndexByAddr_byteMaps (2^31)
  refine ⟨byteMaps_proper _, hg, hc, hf.trans ?_⟩
  decide

end Faultloggerd.Maps
