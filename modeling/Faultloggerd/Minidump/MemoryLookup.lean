import Faultloggerd.Minidump.MemoryList

/-! # Which region an address is looked up in

For a list of pairwise disjoint regions the lookup should return the region that contains the
address, and nothing where none does. Regions are registered with their end as an address of the
range, so two things go wrong. An address just past a registered region is answered with that
region, and a region can be dropped because the closed range of an earlier one reaches its first
address.

`Registered` says which regions the index keeps: up to 64 regions, those touching no earlier kept
one; beyond, those whose start is new. `Served` is the exact condition, for one list and one
address, under which the lookup is right (`getMemoryRegionForAddress_law_iff`).
-/
namespace Faultloggerd.Minidump
open List Nat AdaptiveAddressIndex MinidumpMemoryList

namespace MDMemoryDescriptor

/-- A region does not contain its end. -/
def Contains (d : MDMemoryDescriptor) (address : ℕ) : Prop :=
  d.startOfMemoryRange ≤ address ∧ address < d.limit

def Disjoint (d e : MDMemoryDescriptor) : Prop := ∀ address, ¬(d.Contains address ∧ e.Contains address)

/-- The regions share an address once both ends are included. -/
def Touches (d e : MDMemoryDescriptor) : Prop :=
  d.startOfMemoryRange ≤ e.limit ∧ e.startOfMemoryRange ≤ d.limit

end MDMemoryDescriptor

/-- The lookup law at one address: region `i` is returned exactly when it contains the address, and
nothing is returned when none does. -/
structure LookupLaw (ds : List MDMemoryDescriptor) (address : ℕ) (result : Option ℕ) : Prop where
  found : ∀ i, result = some i ↔ ∃ d, ds[i]? = some d ∧ d.Contains address
  null : (∀ d∈ds, ¬d.Contains address) → result = none

/-- The linear scan keeps region `i` when it touches no earlier region that was kept. -/
def KeptApart (ds : List MDMemoryDescriptor) (i : ℕ) : Prop :=
  ∀ j, (_ : j< i) → KeptApart ds j → ∀ d e, ds[j]? = some d → ds[i]? = some e → ¬e.Touches d
termination_by i

def FirstStart (ds : List MDMemoryDescriptor) (i : ℕ) : Prop :=
  ∀ j < i, ∀ d e, ds[j]? = some d → ds[i]? = some e → d.startOfMemoryRange ≠ e.startOfMemoryRange

def Registered (ds : List MDMemoryDescriptor) (i : ℕ) : Prop :=
  if ds.length ≤ linearThreshold then KeptApart ds i else FirstStart ds i

/-- A region containing the address is registered and, in the tree, met before every registered
region that ends there; an address in no region is the end of no registered region. -/
structure Served (ds : List MDMemoryDescriptor) (address : ℕ) : Prop where
  covered : ∀ k d, ds[k]? = some d → d.Contains address → Registered ds k ∧
    (linearThreshold<ds.length → ∀ j e, ds[j]? = some e → Registered ds j → e.limit=address →
      IntervalNode.Precedes d.startOfMemoryRange e.startOfMemoryRange (treeOf (logOf ds)).root)
  uncovered : (∀ d∈ds, ¬d.Contains address) → ∀ j e, ds[j]? = some e → Registered ds j → e.limit ≠ address

variable (ds : List MDMemoryDescriptor)

@[simp] theorem logOf_length : (logOf ds).length=ds.length := by
  simp [logOf]

theorem logOf_append (d : MDMemoryDescriptor) : logOf (ds++[d])=logOf ds++[entryOf (d, ds.length)] := by
  simp [logOf, zipIdx_append]

theorem logOf_getElem? (i : ℕ) : (logOf ds)[i]?=ds[i]?.map fun d => entryOf (d, i) := by
  simp [logOf, Function.comp_def]

theorem logOf_ranges : ∀ e∈logOf ds, e.start≤e.stop := by
  intro e he
  obtain ⟨d, -, rfl⟩ := mem_map.mp he
  exact le_add_right _ _

theorem keptApart_append (d : MDMemoryDescriptor) (i : ℕ) (hi : i<ds.length)
    : KeptApart (ds++[d]) i ↔ KeptApart ds i := by
  induction i using Nat.strong_induction_on with
  | _ i ih =>
    rw [KeptApart, KeptApart]
    have hg : ∀ j, j≤ i → (ds++[d])[j]? = ds[j]? := fun j hj => getElem?_append_left (lt_of_le_of_lt hj hi)
    constructor
    · intro h j hj hk a b ha hb
      exact h j hj ((ih j hj (hj.trans hi)).mpr hk) a b (by rwa [hg j hj.le])
        (by rwa [hg i le_rfl])
    · intro h j hj hk a b ha hb
      exact h j hj ((ih j hj (hj.trans hi)).mp hk) a b (by rwa [hg j hj.le] at ha)
        (by rwa [hg i le_rfl] at hb)

theorem mem_linearOf_logOf (e : IndexEntry ℕ ℕ) : e∈(linearOf (logOf ds)).entries ↔
      ∃ i d, ds[i]?=some d ∧ KeptApart ds i ∧ e=entryOf (d, i) := by
  induction ds using reverseRecOn generalizing e with
  | nil => simp [logOf, linearOf]
  | append_singleton ds d ih =>
    rw [logOf_append, mem_linearOf_append (le_add_right _ _), ih]
    constructor
    · intro h
      obtain ⟨i, c, hc, hk, rfl⟩ | ⟨rfl, ha1⟩ := h
      · have hi : i<ds.length := (List.getElem?_eq_some_iff.mp hc).1
        exact ⟨i, c, by rwa [getElem?_append_left hi], (keptApart_append ds d i hi).mpr hk, rfl⟩
      · refine ⟨ds.length, d, by simp, ?_, rfl⟩
        rw [KeptApart]
        intro j hj hk a b ha hb ht
        rw [getElem?_append_left hj] at ha
        rw [getElem?_concat_length] at hb
        cases hb
        exact ha1 _ ((ih _).mpr ⟨j, a, ha, (keptApart_append ds d j hj).mp hk, rfl⟩) ht
    · intro h
      obtain ⟨i, c, hc, hk, rfl⟩ := h
      obtain hi | hi := lt_or_ge i ds.length
      · rw [getElem?_append_left hi] at hc
        exact .inl ⟨i, c, hc, (keptApart_append ds d i hi).mp hk, rfl⟩
      · have hl := (List.getElem?_eq_some_iff.mp hc).1
        have hi' : i=ds.length := by simp at hl; omega
        subst hi'
        rw [getElem?_concat_length] at hc
        cases hc
        refine .inr ⟨rfl, fun f hf hm => ?_⟩
        obtain ⟨j, a, ha, hkj, rfl⟩ := (ih f).mp hf
        have hj : j<ds.length := (List.getElem?_eq_some_iff.mp ha).1
        rw [KeptApart] at hk
        exact hk j hj ((keptApart_append ds d j hj).mpr hkj) a d
          (by rwa [getElem?_append_left hj]) getElem?_concat_length hm

theorem mem_treeOf_logOf (e : IndexEntry ℕ ℕ) : e∈(treeOf (logOf ds)).root.toList ↔
      ∃ i d, ds[i]?=some d ∧ FirstStart ds i ∧ e=entryOf (d, i) := by
  rw [mem_treeOf (logOf_ranges ds), List.find?_eq_some_iff_getElem]
  constructor
  · intro h
    obtain ⟨-, i, hi, hie, hf⟩ := h
    have hg : (logOf ds)[i]? = some e := by rw [List.getElem?_eq_getElem hi, hie]
    rw [logOf_getElem?, Option.map_eq_some_iff] at hg
    obtain ⟨d, hd, rfl⟩ := hg
    refine ⟨i, d, hd, fun j hj a b ha hb hs => ?_, rfl⟩
    rw [hd] at hb
    cases hb
    have hja : (logOf ds)[j]? = some (entryOf (a, j)) := by rw [logOf_getElem?, ha]; rfl
    obtain ⟨hj', hja⟩ := List.getElem?_eq_some_iff.mp hja
    have hne := hf j hj
    rw [hja] at hne
    simp [entryOf, hs] at hne
  · intro h
    obtain ⟨i, d, hd, hf, rfl⟩ := h
    have hid : (logOf ds)[i]? = some (entryOf (d, i)) := by rw [logOf_getElem?, hd]; rfl
    obtain ⟨hi, hid⟩ := List.getElem?_eq_some_iff.mp hid
    refine ⟨by simp, i, hi, hid, fun j hj => ?_⟩
    have hj' : j<ds.length := by rw [logOf_length] at hi; omega
    have hja : (logOf ds)[j]? = some (entryOf (ds[j], j)) := by
      rw [logOf_getElem?, List.getElem?_eq_getElem hj']; rfl
    obtain ⟨_, hv⟩ := List.getElem?_eq_some_iff.mp hja
    rw [hv, Bool.not_eq_true']
    exact decide_eq_false (hf j hj _ _ (List.getElem?_eq_getElem hj') hd)

def Hit (ds : List MDMemoryDescriptor) (address i : ℕ) (d : MDMemoryDescriptor) : Prop :=
  ds[i]? = some d ∧ Registered ds i ∧ (entryOf (d, i)).Contains address

section Loaded
variable {range gran address : ℕ} {opt : PerformanceOptimizer} {l : MinidumpMemoryList}

theorem lookup_eq_some_iff (h : Loaded range gran opt l) (ha : address≤ range) (i : ℕ) :
    opt.adaptiveMemoryIndex.lookup address=some i ↔ ∃ d, Hit l.descriptors address i d ∧
        (linearThreshold<l.descriptors.length → ∀ j e, Hit l.descriptors address j e → j≠i →
          IntervalNode.Precedes d.startOfMemoryRange e.startOfMemoryRange (treeOf (logOf l.descriptors)).root) := by
  have hl : opt.adaptiveMemoryIndex.masterList.length=l.descriptors.length := by
    rw [h.log, logOf_length]
  obtain hn | hn := lt_or_ge linearThreshold l.descriptors.length
  · have hr1 : ∀ j, Registered l.descriptors j=FirstStart l.descriptors j := fun j =>
      if_neg (not_le.mpr hn)
    rw [lookup_tree h.built (hl ▸ hn) ha, h.log, IntervalTree.search,
      IntervalNode.searchNode_iff _ _ (treeOf_ordered _) (treeOf_wellMax _)]
    simp only [Hit, hr1]
    constructor
    · intro hx
      obtain ⟨e, he, rfl, hc, hf1⟩ := hx
      obtain ⟨i, d, hd, hr, rfl⟩ := (mem_treeOf_logOf _ e).mp he
      refine ⟨d, ⟨hd, hr, hc⟩, fun _ j e ⟨he, hrj, hcj⟩ hne => ?_⟩
      refine hf1 (entryOf (e, j)) ((mem_treeOf_logOf _ _).mpr ⟨j, e, he, hrj, rfl⟩) hcj ?_
      obtain hji | hij := lt_or_gt_of_ne hne
      · exact hr j hji e d he hd
      · exact (hrj i hij d e hd he).symm
    · intro hx
      obtain ⟨d, ⟨hd, hr, hc⟩, hf1⟩ := hx
      refine ⟨entryOf (d, i), (mem_treeOf_logOf _ _).mpr ⟨i, d, hd, hr, rfl⟩, rfl, hc, ?_⟩
      intro f hf hcf hne
      obtain ⟨j, e, he, hrj, rfl⟩ := (mem_treeOf_logOf _ f).mp hf
      refine hf1 hn j e ⟨he, hrj, hcf⟩ ?_
      rintro rfl
      rw [hd] at he
      cases he
      exact hne rfl
  · have hr1 : ∀ j, Registered l.descriptors j=KeptApart l.descriptors j := fun j => if_pos hn
    rw [lookup_linear h.built (hl ▸ hn), h.log, linearOf_lookup_iff (logOf_ranges _)]
    simp only [Hit, hr1]
    constructor
    · intro hx
      obtain ⟨e, he, rfl, hc⟩ := hx
      obtain ⟨i, d, hd, hr, rfl⟩ := (mem_linearOf_logOf _ e).mp he
      exact ⟨d, ⟨hd, hr, hc⟩, fun hlt => absurd hlt (not_lt.mpr hn)⟩
    · intro hx
      obtain ⟨d, ⟨hd, hr, hc⟩, -⟩ := hx
      exact ⟨entryOf (d, i), (mem_linearOf_logOf _ _).mpr ⟨i, d, hd, hr, rfl⟩, rfl, hc⟩

theorem lookup_ne_none (h : Loaded range gran opt l) (ha : address≤ range)
    {i : ℕ} {d : MDMemoryDescriptor} (hh : Hit l.descriptors address i d) :
    opt.adaptiveMemoryIndex.lookup address≠none := by
  obtain ⟨hd, hr, hc⟩ := hh
  have hl : opt.adaptiveMemoryIndex.masterList.length=l.descriptors.length := by
    rw [h.log, logOf_length]
  obtain hn | hn := lt_or_ge linearThreshold l.descriptors.length
  · rw [Registered, if_neg (not_le.mpr hn)] at hr
    rw [lookup_tree h.built (hl ▸ hn) ha, h.log]
    rcases IntervalNode.searchNode_spec address (treeOf_ordered (logOf l.descriptors))
      (treeOf_wellMax _) with ⟨-, hno⟩ | ⟨e, -, hs, -⟩
    · exact absurd hc (hno _ ((mem_treeOf_logOf _ _).mpr ⟨i, d, hd, hr, rfl⟩))
    · rw [IntervalTree.search, hs]
      simp
  · rw [Registered, if_pos hn] at hr
    rw [lookup_linear h.built (hl ▸ hn), h.log, (linearOf_lookup_iff (logOf_ranges _) address i).mpr
        ⟨entryOf (d, i), (mem_linearOf_logOf _ _).mpr ⟨i, d, hd, hr, rfl⟩, rfl, hc⟩]
    simp

end Loaded

theorem hit_iff {ds : List MDMemoryDescriptor} {address i : ℕ} {d : MDMemoryDescriptor} : Hit ds address i d ↔
      ds[i]?=some d ∧ Registered ds i ∧ (d.Contains address ∨ d.limit=address) := by
  have hc : (entryOf (d, i)).Contains address ↔ d.Contains address ∨ d.limit=address := by
    simp only [entryOf, IndexEntry.Contains, MDMemoryDescriptor.Contains, MDMemoryDescriptor.limit]
    omega
  rw [Hit, hc]

theorem eq_of_contains {ds : List MDMemoryDescriptor}
    (hd1 : ds.Pairwise MDMemoryDescriptor.Disjoint) {address i j : ℕ} {d e : MDMemoryDescriptor}
    (hd : ds[i]?=some d) (he : ds[j]?=some e) (hcd : d.Contains address) (hce : e.Contains address) : i=j := by
  by_contra hne
  obtain ⟨hi, rfl⟩ := List.getElem?_eq_some_iff.mp hd
  obtain ⟨hj, rfl⟩ := List.getElem?_eq_some_iff.mp he
  rw [pairwise_iff_getElem] at hd1
  obtain hlt | hlt := lt_or_gt_of_ne hne
  · exact hd1 i j hi hj hlt address ⟨hcd, hce⟩
  · exact hd1 j i hj hi hlt address ⟨hce, hcd⟩

theorem lookupLaw_iff {range gran address : ℕ} {opt : PerformanceOptimizer}
    {l : MinidumpMemoryList} (h : Loaded range gran opt l)
    (ha : address≤ range) (hd1 : l.descriptors.Pairwise MDMemoryDescriptor.Disjoint) :
    LookupLaw l.descriptors address (opt.adaptiveMemoryIndex.lookup address) ↔ Served l.descriptors address := by
  constructor
  · intro hl1
    constructor
    · intro k d hd hc
      have hk := (hl1.found k).mpr ⟨d, hd, hc⟩
      obtain ⟨d', ⟨hd', hr, -⟩, hf⟩ := (lookup_eq_some_iff h ha k).mp hk
      rw [hd] at hd'
      cases hd'
      refine ⟨hr, fun hn j e he hrj he1 => ?_⟩
      refine hf hn j e (hit_iff.mpr ⟨he, hrj, .inr he1⟩) ?_
      rintro rfl
      rw [hd] at he
      cases he
      exact absurd hc.2 (by omega)
    · intro hno j e he hr he1
      exact lookup_ne_none h ha (hit_iff.mpr ⟨he, hr, .inr he1⟩) (hl1.null hno)
  · intro hs
    by_cases hc1 : ∃ (k : ℕ) (d : MDMemoryDescriptor), l.descriptors[k]? = some d ∧ d.Contains address
    · obtain ⟨k, d, hd, hc⟩ := hc1
      obtain ⟨hr, hf⟩ := hs.covered k d hd hc
      -- every other hit ends at the address
      have hl : opt.adaptiveMemoryIndex.lookup address=some k := by
        refine (lookup_eq_some_iff h ha k).mpr ⟨d, hit_iff.mpr ⟨hd, hr, .inl hc⟩, ?_⟩
        intro hn j e hh hne
        obtain ⟨he, hrj, hce | he1⟩ := hit_iff.mp hh
        · exact absurd (eq_of_contains hd1 he hd hce hc) hne
        · exact hf hn j e he hrj he1
      constructor
      · intro i
        rw [hl]
        constructor
        · intro hik
          cases hik
          exact ⟨d, hd, hc⟩
        · intro hx
          obtain ⟨e, he, hce⟩ := hx
          rw [eq_of_contains hd1 hd he hc hce]
      · intro hno
        exact absurd hc (hno d (mem_of_getElem? hd))
    · have hno : ∀ d∈l.descriptors, ¬d.Contains address := by
        intro d hd hc
        obtain ⟨k, hk⟩ := getElem?_of_mem hd
        exact hc1 ⟨k, d, hk, hc⟩
      have hl : opt.adaptiveMemoryIndex.lookup address=none := by
        by_contra hne
        obtain ⟨i, hi⟩ := Option.ne_none_iff_exists'.mp hne
        obtain ⟨d, hh, -⟩ := (lookup_eq_some_iff h ha i).mp hi
        obtain ⟨hd, hr, hc | he1⟩ := hit_iff.mp hh
        · exact hc1 ⟨i, d, hd, hc⟩
        · exact hs.uncovered hno i d hd hr he1
      rw [hl]
      refine ⟨fun i => ⟨nofun, ?_⟩, fun _ => rfl⟩
      intro hx
      obtain ⟨d, hd, hc⟩ := hx
      exact absurd hc (hno d (mem_of_getElem? hd))

/-- The lookup law after a successful read through an empty index, for any earlier lookups. -/
theorem getMemoryRegionForAddress_law_iff (config : MinidumpConfig) (opt : PerformanceOptimizer)
    (reader : Option MinidumpMemoryReader) (expectedSize : ℕ) (opt' : PerformanceOptimizer) (l : MinidumpMemoryList)
    (hreach : Reachable defaultAddressRange defaultBitmapGranularity opt.adaptiveMemoryIndex)
    (hempty : opt.adaptiveMemoryIndex.masterList=[])
    (hread : (MinidumpMemoryList.new config reader true).read config expectedSize opt=(true, opt', l))
    (hfits : ∀ d∈l.descriptors, d.Fits) (hdisj : l.descriptors.Pairwise MDMemoryDescriptor.Disjoint)
    (earlier : List ℕ) (address : ℕ) (ha : address<2^47) : LookupLaw l.descriptors address
        ((l.lookups config opt' earlier).getMemoryRegionForAddress config opt' address).1 ↔
      Served l.descriptors address := by
  have hl := read_loaded (built_of_reachable hreach) hempty hread hfits
  rw [getMemoryRegionForAddress_eq hl]
  exact lookupLaw_iff hl (by exact ha.le) hdisj

/-- A memory list with the regions `[0x1000, 0x1010)` and `[0x2000, 0x2010)`. -/
def twoRegionFile : List UInt8 :=
  [2, 0, 0, 0, 0, 0x10, 0, 0, 0, 0, 0, 0, 0x10, 0, 0, 0, 0, 0, 0, 0,
    0, 0x20, 0, 0, 0, 0, 0, 0, 0x10, 0, 0, 0, 0, 0, 0, 0]

def twoRegionRead : Bool × PerformanceOptimizer × MinidumpMemoryList :=
  (MinidumpMemoryList.new {} (some ⟨twoRegionFile, 0⟩) true).read {} 36 (PerformanceOptimizer.new {})

theorem twoRegionRead_descriptors : twoRegionRead.2.2.descriptors = [⟨0x1000, 0x10, 0⟩, ⟨0x2000, 0x10, 0⟩] := by decide

theorem twoRegionRead_disjoint : twoRegionRead.2.2.descriptors.Pairwise MDMemoryDescriptor.Disjoint := by
  rw [twoRegionRead_descriptors, pairwise_pair]
  intro address
  simp only [MDMemoryDescriptor.Contains, MDMemoryDescriptor.limit]
  omega

/-- The address just past the first region is answered with the region. -/
theorem getMemoryRegionForAddress_past_end : twoRegionRead.1 = true ∧ (∀ d ∈ twoRegionRead.2.2.descriptors, d.Fits) ∧
      twoRegionRead.2.2.descriptors.Pairwise MDMemoryDescriptor.Disjoint ∧
      (twoRegionRead.2.2.getMemoryRegionForAddress {} twoRegionRead.2.1 0x1010).1 = some 0 ∧
      (∀ d ∈ twoRegionRead.2.2.descriptors, ¬d.Contains 0x1010) := by
  refine ⟨by decide, by decide, twoRegionRead_disjoint, by decide, ?_⟩
  rw [twoRegionRead_descriptors]
  simp [MDMemoryDescriptor.Contains, MDMemoryDescriptor.limit]

/-- An address inside the second region, after lookups at the end of the first one and between the two. -/
theorem getMemoryRegionForAddress_inside : LookupLaw twoRegionRead.2.2.descriptors 0x2008
      ((twoRegionRead.2.2.lookups {} twoRegionRead.2.1 [0x1010, 0x1800]).getMemoryRegionForAddress {}
        twoRegionRead.2.1 0x2008).1 := by
  refine (getMemoryRegionForAddress_law_iff {} (PerformanceOptimizer.new {})
    (some ⟨twoRegionFile, 0⟩) 36 twoRegionRead.2.1 twoRegionRead.2.2 .new rfl rfl (by decide) twoRegionRead_disjoint
    [0x1010, 0x1800] 0x2008 (by decide)).mpr ?_
  rw [twoRegionRead_descriptors]
  refine ⟨fun k d hd hc => ⟨?_, fun hn => absurd hn (by decide)⟩, fun hno => ?_⟩
  · obtain rfl | rfl | ⟨k, rfl⟩ : k = 0 ∨ k = 1 ∨ ∃ n, k = n + 2 := by
      obtain _ | _ | n := k <;> simp
    · cases hd
      exact absurd hc (by simp [MDMemoryDescriptor.Contains, MDMemoryDescriptor.limit])
    · rw [Registered, if_pos (by decide), KeptApart]
      intro j hj _ d e hd he
      obtain rfl : j = 0 := by omega
      cases hd
      cases he
      simp [MDMemoryDescriptor.Touches, MDMemoryDescriptor.limit]
    · cases hd
  · exact absurd (by simp [MDMemoryDescriptor.Contains, MDMemoryDescriptor.limit]) (hno ⟨0x2000, 0x10, 0⟩ (by simp))

end Faultloggerd.Minidump
