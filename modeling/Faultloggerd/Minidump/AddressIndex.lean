import Faultloggerd.Minidump.BitmapIndex
import Faultloggerd.Minidump.IntervalTree
import Mathlib.Data.List.Induction

/-! # Address indexes (`minidump_index.cpp`)

`AdaptiveAddressIndex` logs every range it is given and keeps it in one of three indexes: a linear
scan up to 64 ranges, an interval tree up to 256, beyond that the same tree behind a bitmap. It
migrates by clearing the new index and replaying the log into it. The three treat overlap
differently. The linear scan drops a range that meets a stored one; the tree drops a range only when
its start is taken.

`Built` is what every run keeps (`built_of_reachable`): the index in use is what replaying the log
into an empty one gives, however the index got there. A lookup is then a function of the log alone
(`lookup_linear`, `lookup_tree`); the bitmap only ever answers early where the tree has nothing.
-/
namespace Faultloggerd.Minidump
open BitmapIndex List IntervalNode Nat

variable {ε : Type}

/-! ## The linear scan -/

structure LinearScanIndex (ε : Type) where
  entries : List (IndexEntry ℕ ε)

namespace LinearScanIndex

def insert (x : LinearScanIndex ε) (start stop : ℕ) (value : ε) : Bool × LinearScanIndex ε :=
  if start > stop then (false, x)
  else if x.entries.any fun e => start ≤ e.stop ∧ stop ≥ e.start then (false, x)
  else (true, ⟨x.entries++[⟨start, stop, value⟩]⟩)

def lookup (x : LinearScanIndex ε) (address : ℕ) : Option ε :=
  (x.entries.find? fun e => e.Contains address).map IndexEntry.value

def clear (_ : LinearScanIndex ε) : LinearScanIndex ε := ⟨[]⟩

end LinearScanIndex

/-! ## The adaptive index -/

inductive Strategy where
  | linear | tree | bitmap
deriving DecidableEq

structure AdaptiveAddressIndex (ε : Type) where
  addressRange : ℕ
  granularity : ℕ
  migrationCount : ℕ
  masterList : List (IndexEntry ℕ ε)
  current : Strategy
  linearIndex : LinearScanIndex ε
  treeIndex : Option (IntervalTree ℕ ε)
  bitmapIndex : Option BitmapIndex
  /-- The precise index of `bitmapIndex_` when it was created without a `treeIndex_` to share. -/
  ownTree : Option (IntervalTree ℕ ε)

namespace AdaptiveAddressIndex

def linearThreshold : ℕ := 64
def bitmapThreshold : ℕ := 256
def defaultAddressRange : ℕ := 0x800000000000
def defaultBitmapGranularity : ℕ := 134217728

def new (addressRange granularity : ℕ) : AdaptiveAddressIndex ε where
  addressRange := addressRange
  granularity := granularity
  migrationCount := 0
  masterList := []
  current := .linear
  linearIndex := ⟨[]⟩
  treeIndex := none
  bitmapIndex := none
  ownTree := none

def preciseIndex (x : AdaptiveAddressIndex ε) : Option (IntervalTree ℕ ε) :=
  match x.ownTree with
  | some t => some t
  | none => x.treeIndex

def setPreciseIndex (x : AdaptiveAddressIndex ε) (t : IntervalTree ℕ ε) : AdaptiveAddressIndex ε :=
  match x.ownTree with
  | some _ => {x with ownTree := some t}
  | none => {x with treeIndex := some t}

def insertCurrent (x : AdaptiveAddressIndex ε) (start stop : ℕ) (value : ε) :
    Bool × AdaptiveAddressIndex ε :=
  match x.current with
  | .linear =>
    let (ok, l) := x.linearIndex.insert start stop value
    (ok, {x with linearIndex := l})
  | .tree =>
    match x.treeIndex with
    | some t =>
      let (ok, t) := t.insert start stop value
      (ok, {x with treeIndex := some t})
    | none => (true, x)
  | .bitmap =>
    let x : AdaptiveAddressIndex ε :=
      {x with bitmapIndex := x.bitmapIndex.map fun b => b.markRange start stop}
    match x.preciseIndex with
    | some t =>
      let (ok, t) := t.insert start stop value
      (ok, x.setPreciseIndex t)
    | none => (true, x)

def clearCurrent (x : AdaptiveAddressIndex ε) : AdaptiveAddressIndex ε :=
  match x.current with
  | .linear => {x with linearIndex := x.linearIndex.clear}
  | .tree => {x with treeIndex := x.treeIndex.map fun _ => IntervalTree.empty}
  | .bitmap =>
    let x := {x with bitmapIndex := x.bitmapIndex.map BitmapIndex.clear}
    match x.preciseIndex with
    | some _ => x.setPreciseIndex IntervalTree.empty
    | none => x

def rebuildCurrentIndex (x : AdaptiveAddressIndex ε) : AdaptiveAddressIndex ε :=
  x.masterList.foldl (fun x e => (x.insertCurrent e.start e.stop e.value).2) x.clearCurrent

def strategyFor (entryCount : ℕ) : Strategy :=
  if entryCount ≤ linearThreshold then .linear
  else if entryCount ≤ bitmapThreshold then .tree
  else .bitmap

def allocate (x : AdaptiveAddressIndex ε) : Strategy → AdaptiveAddressIndex ε
  | .linear => x
  | .tree => if x.treeIndex.isNone then {x with treeIndex := some IntervalTree.empty} else x
  | .bitmap =>
    if x.bitmapIndex.isNone then
      {x with
        bitmapIndex := some (BitmapIndex.new x.addressRange x.granularity)
        ownTree := if x.treeIndex.isSome then none else some IntervalTree.empty}
    else x

def ensureStrategy (x : AdaptiveAddressIndex ε) : AdaptiveAddressIndex ε :=
  let target := strategyFor x.masterList.length
  let x := x.allocate target
  if target ≠ x.current then
    let x := rebuildCurrentIndex {x with current := target}
    {x with migrationCount := x.migrationCount+1}
  else x

def insert (x : AdaptiveAddressIndex ε) (start stop : ℕ) (value : ε) :
    Bool × AdaptiveAddressIndex ε :=
  if start > stop then (false, x)
  else
    let x : AdaptiveAddressIndex ε :=
      {x with masterList := x.masterList++[⟨start, stop, value⟩]}
    let (inserted, x) := x.insertCurrent start stop value
    (inserted, x.ensureStrategy)

def lookup (x : AdaptiveAddressIndex ε) (address : ℕ) : Option ε :=
  match x.current with
  | .linear => x.linearIndex.lookup address
  | .tree => x.treeIndex.bind fun t => t.search address
  | .bitmap =>
    match x.bitmapIndex with
    | none => none
    | some b =>
      if b.size ≠ 0 ∧ ¬b.isInRange address then none
      else x.preciseIndex.bind fun t => t.search address

def clear (x : AdaptiveAddressIndex ε) : AdaptiveAddressIndex ε where
  addressRange := x.addressRange
  granularity := x.granularity
  migrationCount := 0
  masterList := []
  current := .linear
  linearIndex := x.linearIndex.clear
  treeIndex := x.treeIndex.map fun _ => IntervalTree.empty
  bitmapIndex := x.bitmapIndex.map BitmapIndex.clear
  -- clearing the filter clears the tree behind it
  ownTree := if x.bitmapIndex.isSome then x.ownTree.map fun _ => IntervalTree.empty else x.ownTree

/-- The states an index can be in: constructed, then any sequence of `Insert` and `Clear`. -/
inductive Reachable (addressRange granularity : ℕ) : AdaptiveAddressIndex ε → Prop
  | new : Reachable addressRange granularity (new addressRange granularity)
  | insert {x} (start stop : ℕ) (value : ε) : Reachable addressRange granularity x →
      Reachable addressRange granularity (x.insert start stop value).2
  | clear {x} : Reachable addressRange granularity x → Reachable addressRange granularity x.clear

end AdaptiveAddressIndex

/-! ## Replaying a log into an empty index -/

def linearOf (log : List (IndexEntry ℕ ε)) : LinearScanIndex ε :=
  log.foldl (fun x e => (x.insert e.start e.stop e.value).2) ⟨[]⟩

def treeOf (log : List (IndexEntry ℕ ε)) : IntervalTree ℕ ε :=
  log.foldl (fun t e => (t.insert e.start e.stop e.value).2) IntervalTree.empty

def bitmapOf (b : BitmapIndex) (log : List (IndexEntry ℕ ε)) : BitmapIndex :=
  log.foldl (fun b e => b.markRange e.start e.stop) b

variable (log : List (IndexEntry ℕ ε))

@[simp] theorem linearOf_append (e : IndexEntry ℕ ε) :
    linearOf (log++[e])=((linearOf log).insert e.start e.stop e.value).2 := by
  rw [linearOf, foldl_concat, linearOf]

@[simp] theorem treeOf_append (e : IndexEntry ℕ ε) :
    treeOf (log++[e])=((treeOf log).insert e.start e.stop e.value).2 := by
  rw [treeOf, foldl_concat, treeOf]

variable (b : BitmapIndex)

@[simp] theorem bitmapOf_append (log : List (IndexEntry ℕ ε)) (e : IndexEntry ℕ ε) :
    bitmapOf b (log++[e])=(bitmapOf b log).markRange e.start e.stop := by
  rw [bitmapOf, foldl_concat, bitmapOf]

@[elab_as_elim] theorem bitmapOf_induction {P : BitmapIndex → Prop} (hb : P b)
    (hm : ∀ b start stop, P b → P (b.markRange start stop)) : P (bitmapOf b log) :=
  foldlRecOn log _ hb fun b hb e _ => hm b e.start e.stop hb

namespace AdaptiveAddressIndex

/-! ## What every run keeps -/

/-- The index in use is the replay of the log, whichever migrations and `Clear`s led here; the other
indexes may be stale, but their shape lets a later migration start from an empty one. -/
structure Built (addressRange granularity : ℕ) (x : AdaptiveAddressIndex ε) : Prop where
  range : x.addressRange = addressRange
  gran : x.granularity = granularity
  ranges : ∀ e ∈ x.masterList, e.start ≤ e.stop
  current : x.current = strategyFor x.masterList.length
  linear : x.masterList.length ≤ linearThreshold → x.linearIndex = linearOf x.masterList
  tree : linearThreshold < x.masterList.length → x.treeIndex = some (treeOf x.masterList)
  bitmap : bitmapThreshold < x.masterList.length →
    x.bitmapIndex = some (bitmapOf (BitmapIndex.new addressRange granularity) x.masterList)
  shared : x.ownTree = none
  sharing : x.bitmapIndex.isSome → x.treeIndex.isSome
  cleared : ∀ b, x.bitmapIndex = some b → b.clear = BitmapIndex.new addressRange granularity

variable {range gran : ℕ} {x : AdaptiveAddressIndex ε}

theorem built_new : Built (ε := ε) range gran (new range gran) where
  range := rfl
  gran := rfl
  ranges := by simp [new]
  current := rfl
  linear := fun _ => rfl
  tree := by simp [new]
  bitmap := by simp [new]
  shared := rfl
  sharing := by simp [new]
  cleared := by simp [new]

theorem Built.clear (h : Built range gran x) : Built range gran x.clear where
  range := h.range
  gran := h.gran
  ranges := by simp [AdaptiveAddressIndex.clear]
  current := rfl
  linear := fun _ => rfl
  tree := by simp [AdaptiveAddressIndex.clear]
  bitmap := by simp [AdaptiveAddressIndex.clear]
  shared := by simp [AdaptiveAddressIndex.clear, h.shared]
  sharing := by simpa [AdaptiveAddressIndex.clear] using h.sharing
  cleared := by
    intro b hb
    obtain ⟨b', hb', rfl⟩ := Option.map_eq_some_iff.mp hb
    rw [←h.cleared b' hb', clear_clear]

theorem strategyFor_linear {n : ℕ} (h : n≤linearThreshold) : strategyFor n=.linear := if_pos h

theorem strategyFor_tree {n : ℕ} (h : linearThreshold<n) (h' : n≤bitmapThreshold) : strategyFor n=.tree := by
  rw [strategyFor, if_neg (not_le.mpr h), if_pos h']

theorem strategyFor_bitmap {n : ℕ} (h : bitmapThreshold<n) : strategyFor n=.bitmap := by
  have : linearThreshold<n := lt_of_le_of_lt (by decide) h
  rw [strategyFor, if_neg (not_le.mpr this), if_neg (not_le.mpr h)]

theorem rebuild_tree {t : IntervalTree ℕ ε} (hc : x.current=.tree) (ht : x.treeIndex=some t) :
    x.rebuildCurrentIndex={x with treeIndex := some (treeOf x.masterList)} := by
  have hc1 : x.clearCurrent={x with treeIndex := some IntervalTree.empty} := by
    simp [clearCurrent, hc, ht]
  rw [rebuildCurrentIndex, hc1]
  refine foldl_hom (fun t => {x with treeIndex := some t}) fun t e => ?_
  simp [insertCurrent, hc]

theorem rebuild_bitmap {t : IntervalTree ℕ ε} {b : BitmapIndex} (hc : x.current=.bitmap)
    (ht : x.treeIndex=some t) (hb : x.bitmapIndex=some b) (ho : x.ownTree=none) : x.rebuildCurrentIndex={x with
        treeIndex := some (treeOf x.masterList)
        bitmapIndex := some (bitmapOf b.clear x.masterList)} := by
  have hc1 : x.clearCurrent = {x with treeIndex := some IntervalTree.empty, bitmapIndex := some b.clear} := by
    simp [clearCurrent, hc, ht, hb, ho, preciseIndex, setPreciseIndex]
  rw [rebuildCurrentIndex, hc1]
  refine foldl_hom₂ _ (fun t b => {x with treeIndex := some t, bitmapIndex := some b}) _ _ _ _ _ ?_
  simp [insertCurrent, hc, ho, preciseIndex, setPreciseIndex]

/-- From the 65th range on the tree holds the log, from the 257th on the bitmap does too. -/
theorem insert_eq (h : Built range gran x) (e : IndexEntry ℕ ε) (he : e.start≤e.stop) :
    (x.insert e.start e.stop e.value).2={x with
      masterList := x.masterList++[e]
      current := strategyFor (x.masterList.length+1)
      linearIndex := if x.masterList.length≤linearThreshold then linearOf (x.masterList++[e]) else x.linearIndex
      treeIndex := if linearThreshold≤x.masterList.length then some (treeOf (x.masterList++[e])) else x.treeIndex
      bitmapIndex := if bitmapThreshold≤x.masterList.length then
          some (bitmapOf (BitmapIndex.new range gran) (x.masterList++[e])) else x.bitmapIndex
      migrationCount := if strategyFor (x.masterList.length+1)=x.current then x.migrationCount
        else x.migrationCount+1} := by
  have hl : (x.masterList++[e]).length=x.masterList.length+1 := length_append
  have ht : linearThreshold<bitmapThreshold := by decide
  rw [insert, if_neg (not_lt.mpr he)]
  obtain hn | hn | hn := lt_trichotomy x.masterList.length linearThreshold
  · have hc := h.current.trans (strategyFor_linear hn.le)
    simp [insertCurrent, ensureStrategy, hc, strategyFor_linear hn, allocate, if_pos hn.le, if_neg hn.not_ge,
      if_neg (hn.trans ht).not_ge, h.linear hn.le]
  · have hc := h.current.trans (strategyFor_linear hn.le)
    have hn1 := strategyFor_tree (n := x.masterList.length+1) (by omega) (by omega)
    simp only [insertCurrent, ensureStrategy, hc, hl, hn1, allocate, if_pos hn.le, if_pos hn.ge,
      if_neg (hn ▸ ht.not_ge), h.linear hn.le]
    cases x.treeIndex <;> simp [rebuild_tree]
  obtain hm | hm | hm := lt_trichotomy x.masterList.length bitmapThreshold
  · have hc := h.current.trans (strategyFor_tree hn hm.le)
    have hn1 := strategyFor_tree (n := x.masterList.length+1) (by omega) hm
    simp [insertCurrent, ensureStrategy, hc, hn1, allocate, if_pos hn.le, if_neg hn.not_ge, if_neg hm.not_ge, h.tree hn]
  · have hc := h.current.trans (strategyFor_tree hn hm.le)
    have hn1 := strategyFor_bitmap (n := x.masterList.length+1) (by omega)
    simp only [insertCurrent, ensureStrategy, hc, hl, hn1, allocate, if_pos hn.le, if_neg hn.not_ge, if_pos hm.ge,
      h.tree hn]
    cases hb : x.bitmapIndex with
    | none => simp [rebuild_bitmap, h.range, h.gran, h.shared]
    | some b => simp [rebuild_bitmap, h.shared, h.cleared b hb]
  · have hc := h.current.trans (strategyFor_bitmap hm)
    have hn1 := strategyFor_bitmap (n := x.masterList.length+1) (by omega)
    simp [insertCurrent, ensureStrategy, hc, hn1, allocate, if_pos hn.le, if_neg hn.not_ge, if_pos hm.le,
      h.tree hn, h.bitmap hm, h.shared, preciseIndex, setPreciseIndex]

theorem insert_masterList (h : Built range gran x) (e : IndexEntry ℕ ε) (he : e.start≤e.stop) :
    (x.insert e.start e.stop e.value).2.masterList=x.masterList++[e] := by
  rw [insert_eq h e he]

theorem clear_bitmapOf (b : BitmapIndex) (log : List (IndexEntry ℕ ε)) : (bitmapOf b log).clear=b.clear :=
  bitmapOf_induction log b rfl fun b start stop h => (clear_markRange b start stop).trans h

theorem Built.insert (h : Built range gran x) (start stop : ℕ) (value : ε) :
    Built range gran (x.insert start stop value).2 := by
  by_cases hle : start≤ stop
  swap
  · rwa [AdaptiveAddressIndex.insert, if_pos (not_le.mp hle)]
  have hl : (x.masterList++[(⟨start, stop, value⟩ : IndexEntry ℕ ε)]).length=x.masterList.length+1 := length_append
  rw [insert_eq h ⟨start, stop, value⟩ hle]
  refine ⟨h.range, h.gran, ?_, congrArg strategyFor hl.symm, fun hlt => if_pos ?_, fun hlt => if_pos ?_,
    fun hlt => if_pos ?_,
    h.shared, ?_, ?_⟩
  · exact forall_mem_append.mpr ⟨h.ranges, forall_mem_singleton.mpr hle⟩
  · exact le_of_succ_le (hl.symm.trans_le hlt)
  · exact le_of_lt_succ (hlt.trans_eq hl)
  · exact le_of_lt_succ (hlt.trans_eq hl)
  · dsimp only
    split_ifs with hb1 ht ht
    · exact fun _ => rfl
    · exact absurd (le_trans (by decide) hb1) ht
    · exact fun _ => rfl
    · exact h.sharing
  · intro b hb
    dsimp only at hb
    split_ifs at hb
    · rw [←Option.some.inj hb, clear_bitmapOf, BitmapIndex.clear_new]
    · exact h.cleared b hb

theorem built_of_reachable (h : Reachable range gran x) : Built range gran x := by
  induction h with
  | new => exact built_new
  | insert start stop value _ ih => exact ih.insert start stop value
  | clear _ ih => exact ih.clear

/-! ## Lookups as functions of the log -/

theorem lookup_linear (h : Built range gran x) (hn : x.masterList.length≤linearThreshold) (addr : ℕ) :
    x.lookup addr=(linearOf x.masterList).lookup addr := by
  have hc : x.current=.linear := by rw [h.current, strategyFor_linear hn]
  simp [lookup, hc, h.linear hn]

end AdaptiveAddressIndex

theorem exists_treeOf_holds : ∃ accepted, (treeOf log).Holds accepted :=
  foldlRecOn log _ (motive := fun t => ∃ accepted, IntervalTree.Holds t accepted) ⟨[], .nil, trivial, .nil⟩
    fun _ ⟨_, h⟩ e _ => ⟨_, h.insert e⟩

theorem treeOf_ordered : (treeOf log).root.Ordered := (exists_treeOf_holds log).elim fun _ h => h.ordered

theorem treeOf_wellMax : (treeOf log).root.WellMax := (exists_treeOf_holds log).elim fun _ h => h.avl.wellMax

theorem mem_treeOf {log : List (IndexEntry ℕ ε)} (hr : ∀ e∈log, e.start≤e.stop) (m : IndexEntry ℕ ε) :
    m∈(treeOf log).root.toList ↔ log.find? (fun f => f.start=m.start)=some m := by
  induction log using reverseRecOn generalizing m with
  | nil => simp [treeOf, IntervalTree.empty]
  | append_singleton log e ih =>
    have ih := ih fun f hf => hr f (by simp [hf])
    -- the start of the new range is free in the tree exactly when it is free in the log
    have hf2 : (∀ f∈(treeOf log).root.toList, f.start≠e.start) ↔ log.find? (fun f => f.start=e.start)=none := by
      constructor
      · intro h
        by_contra hne
        obtain ⟨g, hg⟩ := Option.ne_none_iff_exists'.mp hne
        have hge : g.start=e.start := by simpa using find?_some hg
        exact h g ((ih g).mpr (by rw [hge]; exact hg)) hge
      · intro h f hf hfe
        have hf1 := (ih f).mp hf
        rw [hfe, h] at hf1
        cases hf1
    rw [treeOf_append, IntervalTree.insert, if_neg (not_lt.mpr (hr e (by simp)))]
    rw [toList_insertNode _ _ _ _ _ (treeOf_ordered log), mem_insertEntry (treeOf_ordered log), ih, hf2, find?_append]
    constructor
    · intro hx
      obtain h | ⟨rfl, h⟩ := hx
      · simp [h]
      · simp [h]
    · intro h
      cases hf : log.find? (fun f => f.start=m.start) with
      | some g =>
        rw [hf] at h
        exact .inl h
      | none =>
        rw [hf, Option.none_or, find?_singleton] at h
        split_ifs at h with he
        · cases h
          exact .inr ⟨rfl, hf⟩

theorem mem_log_of_mem_treeOf {log : List (IndexEntry ℕ ε)} (hr : ∀ e∈log, e.start≤e.stop)
    {m : IndexEntry ℕ ε} (h : m∈(treeOf log).root.toList) : m∈log := mem_of_find?_eq_some ((mem_treeOf hr m).mp h)

/-! ## The bitmap in front of the tree -/

theorem sized_bitmapOf {b : BitmapIndex} (h : b.Sized) (log : List (IndexEntry ℕ ε)) : (bitmapOf b log).Sized :=
  bitmapOf_induction log b h fun _ start stop h => sized_markRange h start stop

@[simp] theorem bitmapOf_granularity (log : List (IndexEntry ℕ ε)) : (bitmapOf b log).granularity=b.granularity :=
  bitmapOf_induction log b rfl fun b start stop h => (markRange_granularity b start stop).trans h

@[simp] theorem bitmapOf_bitCount (log : List (IndexEntry ℕ ε)) : (bitmapOf b log).bitCount=b.bitCount :=
  bitmapOf_induction log b rfl fun b start stop h => (markRange_bitCount b start stop).trans h

variable {addr : ℕ}

theorem bitmapOf_covers {b : BitmapIndex} (hs : b.Sized) (hg : b.granularity≠0) {log : List (IndexEntry ℕ ε)}
    {e : IndexEntry ℕ ε} (he : e∈log) (hc : e.Contains addr) (hi : addr/b.granularity<b.bitCount) :
    (bitmapOf b log).isInRange addr=true := by
  induction log using reverseRecOn with
  | nil => cases he
  | append_singleton log f ih =>
    rw [bitmapOf_append]
    obtain he | he := mem_append.mp he
    · exact isInRange_markRange (ih he) _ _
    · rw [mem_singleton.mp he] at hc
      exact isInRange_marked (sized_bitmapOf hs log) hc.1 hc.2 (by simpa using hg) (by simpa using hi)

theorem linearOf_subset {m : IndexEntry ℕ ε} (h : m∈(linearOf log).entries) : m∈log := by
  induction log using reverseRecOn with
  | nil => cases h
  | append_singleton log e ih =>
    rw [linearOf_append, LinearScanIndex.insert] at h
    split_ifs at h
    · exact mem_append_left _ (ih h)
    · exact mem_append_left _ (ih h)
    · exact mem_append.mpr ((mem_append.mp h).imp_left ih)

namespace AdaptiveAddressIndex
variable {range gran : ℕ} {x : AdaptiveAddressIndex ε}

section

variable (h : Built range gran x)
include h

theorem lookup_bitmap (hn : bitmapThreshold<x.masterList.length) (a : ℕ) :
    x.lookup a=if (BitmapIndex.new range gran).bitCount≠0 ∧
        ¬(bitmapOf (BitmapIndex.new range gran) x.masterList).isInRange a then none
      else (treeOf x.masterList).search a := by
  have hl : linearThreshold<x.masterList.length := lt_trans (by decide) hn
  have hc : x.current=.bitmap := by rw [h.current, strategyFor_bitmap hn]
  simp [lookup, hc, h.bitmap hn, preciseIndex, h.shared, h.tree hl, BitmapIndex.size]

theorem search_of_lookup (hn : linearThreshold<x.masterList.length) {a : ℕ}
    {v : ε} (hv : x.lookup a=some v) : (treeOf x.masterList).search a=some v := by
  obtain hm | hm := lt_or_ge bitmapThreshold x.masterList.length
  · rw [lookup_bitmap h hm] at hv
    split_ifs at hv
    exact hv
  · have hc : x.current=.tree := by rw [h.current, strategyFor_tree hn hm]
    simpa only [lookup, hc, h.tree hn, Option.bind_some] using hv

theorem lookup_tree (hn : linearThreshold<x.masterList.length) (ha : addr≤range) :
    x.lookup addr=(treeOf x.masterList).search addr := by
  obtain hm | hm := lt_or_ge bitmapThreshold x.masterList.length
  swap
  · have hc : x.current=.tree := by rw [h.current, strategyFor_tree hn hm]
    simp [lookup, hc, h.tree hn]
  rw [lookup_bitmap h hm]
  split_ifs with hs1
  · -- the bit is not set, so nothing in the tree contains the address
    obtain ⟨hg, hi⟩ := new_lt_bitCount ha hs1.1
    rcases searchNode_spec addr (treeOf_ordered x.masterList)
      (treeOf_wellMax x.masterList) with ⟨hs, -⟩ | ⟨e, he, -, hc1, -⟩
    · exact hs.symm
    · exact absurd (bitmapOf_covers (sized_new _ _) hg (mem_log_of_mem_treeOf h.ranges he) hc1 hi) hs1.2
  · rfl

theorem lookup_mem {v : ε} (hv : x.lookup addr=some v) : ∃ e∈x.masterList, e.value=v ∧ e.Contains addr := by
  obtain hn | hn := lt_or_ge linearThreshold x.masterList.length
  · obtain ⟨e, he, hev, hc, -⟩ := (searchNode_iff addr v (treeOf_ordered _) (treeOf_wellMax _)).mp
      (search_of_lookup h hn hv)
    exact ⟨e, mem_log_of_mem_treeOf h.ranges he, hev, hc⟩
  · rw [lookup_linear h hn, LinearScanIndex.lookup, Option.map_eq_some_iff] at hv
    obtain ⟨e, he, rfl⟩ := hv
    exact ⟨e, linearOf_subset _ (mem_of_find?_eq_some he), rfl, by simpa using find?_some he⟩

end

end AdaptiveAddressIndex

/-! ## The linear scan keeps ranges apart -/

def IndexEntry.Meets (e f : IndexEntry ℕ ε) : Prop := e.start ≤ f.stop ∧ e.stop ≥ f.start

theorem mem_linearOf_append {log : List (IndexEntry ℕ ε)} {e : IndexEntry ℕ ε}
    (he : e.start≤e.stop) (m : IndexEntry ℕ ε) : m∈(linearOf (log++[e])).entries ↔ m∈(linearOf log).entries ∨
      (m=e ∧ ∀ f∈(linearOf log).entries, ¬e.Meets f) := by
  rw [linearOf_append, LinearScanIndex.insert, if_neg (not_lt.mpr he)]
  simp only [any_eq_true, decide_eq_true_eq]
  split_ifs with hm1
  · obtain ⟨f, hf, hm⟩ := hm1
    constructor
    · exact .inl
    · intro hx
      obtain h | ⟨-, h⟩ := hx
      · exact h
      · exact absurd hm (h f hf)
  · rw [mem_append, mem_singleton]
    constructor
    · intro hx
      obtain h | rfl := hx
      · exact .inl h
      · exact .inr ⟨rfl, fun f hf hm => hm1 ⟨f, hf, hm⟩⟩
    · intro hx
      obtain h | ⟨rfl, -⟩ := hx
      · exact .inl h
      · exact .inr rfl

theorem linearOf_apart {log : List (IndexEntry ℕ ε)} (hr : ∀ e∈log, e.start≤e.stop) {e f : IndexEntry ℕ ε}
    (he : e∈(linearOf log).entries) (hf : f∈(linearOf log).entries) (hce : e.Contains addr)
    (hcf : f.Contains addr) : e=f := by
  induction log using reverseRecOn with
  | nil => cases he
  | append_singleton log g ih =>
    have hg : g.start≤g.stop := hr g (by simp)
    obtain he' | ⟨rfl, ha⟩ := (mem_linearOf_append hg e).mp he
    · obtain hf' | ⟨rfl, ha⟩ := (mem_linearOf_append hg f).mp hf
      · exact ih (fun e he => hr e (by simp [he])) he' hf'
      · exact absurd ⟨le_trans hcf.1 hce.2, le_trans hce.1 hcf.2⟩ (ha e he')
    · obtain hf' | ⟨rfl, -⟩ := (mem_linearOf_append hg f).mp hf
      · exact absurd ⟨le_trans hce.1 hcf.2, le_trans hcf.1 hce.2⟩ (ha f hf')
      · rfl

theorem linearOf_lookup_iff {log : List (IndexEntry ℕ ε)} (hr : ∀ e∈log, e.start≤e.stop) (addr : ℕ) (v : ε) :
    (linearOf log).lookup addr=some v ↔ ∃ e∈(linearOf log).entries, e.value=v ∧ e.Contains addr := by
  rw [LinearScanIndex.lookup, Option.map_eq_some_iff]
  constructor
  · intro h
    obtain ⟨e, he, rfl⟩ := h
    exact ⟨e, mem_of_find?_eq_some he, rfl, by simpa using find?_some he⟩
  · intro h
    obtain ⟨e, he, rfl, hc⟩ := h
    cases hf : (linearOf log).entries.find? fun e => e.Contains addr with
    | none => exact absurd hc (by simpa using find?_eq_none.mp hf e he)
    | some f =>
      have hcf : f.Contains addr := by simpa using find?_some hf
      rw [linearOf_apart hr he (mem_of_find?_eq_some hf) hc hcf]
      exact ⟨f, rfl, rfl⟩

end Faultloggerd.Minidump
