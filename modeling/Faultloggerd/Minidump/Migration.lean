import Faultloggerd.Foundations.EventRuns
import Faultloggerd.Minidump.AddressIndex

/-! # Migrations of the adaptive index

A migration replays the log of all requested ranges, also of those that the index of the time refused. The linear scan
refuses a range that meets a stored one, the tree only one whose start is taken, and the bitmap hides what lies behind
its end. `Separate` asks for what a replay needs, at the insertions where it matters; then the index stores the accepted
ranges and no others, and a lookup answers from them (`Tracks.lookup_iff`): a migration cannot be seen.
-/
namespace Faultloggerd.Minidump
open List BitmapIndex IntervalNode Foundations.EventRuns

variable {ε : Type} {log : List (IndexEntry ℕ ε)} {e f : IndexEntry ℕ ε}

/-- Of the requested ranges with one start the linear scan accepted the first. -/
def Replayable (log : List (IndexEntry ℕ ε)) : Prop :=
  ∀ f ∈ log, log.find? (fun g => g.start = f.start) = some f → f ∈ (linearOf log).entries

/-- The tree that is built from such a log stores what the linear scan stored. -/
theorem Replayable.mem_iff (hr : ∀ e ∈ log, e.start ≤ e.stop) (h : Replayable log) :
    e ∈ toList (treeOf log).root ↔ e ∈ (linearOf log).entries := by
  rw [mem_treeOf hr]
  constructor
  · intro he
    exact h e (mem_of_find?_eq_some he) he
  · intro he
    have hl := linearOf_subset _ he
    obtain ⟨f, hf⟩ := Option.isSome_iff_exists.mp (find?_isSome (p := fun g => g.start = e.start).mpr ⟨e, hl, by simp⟩)
    have hs : f.start = e.start := by simpa using find?_some hf
    have hm := mem_of_find?_eq_some hf
    -- both are stored by the scan and contain their common start
    have hfe : f = e := linearOf_apart hr (h f hm (hs ▸ hf)) he ⟨le_rfl, hr f hm⟩ ⟨hs.ge, hs.le.trans (hr e hl)⟩
    rwa [hfe] at hf

namespace AdaptiveAddressIndex
variable {rg g : ℕ} {x : AdaptiveAddressIndex ε} {acc : List (IndexEntry ℕ ε)}

/-- What the structure in use stores: the linear scan up to 64 requested ranges, the tree from then on. -/
def stored (log : List (IndexEntry ℕ ε)) : List (IndexEntry ℕ ε) :=
  if log.length ≤ linearThreshold then (linearOf log).entries else toList (treeOf log).root

theorem mem_of_stored (hr : ∀ e ∈ log, e.start ≤ e.stop) (h : e ∈ stored log) : e ∈ log := by
  rw [stored] at h
  split_ifs at h
  · exact linearOf_subset _ h
  · exact mem_log_of_mem_treeOf hr h

def step (e : IndexEntry ℕ ε) (x : AdaptiveAddressIndex ε) : AdaptiveAddressIndex ε :=
  (x.insert e.start e.stop e.value).2

/-- The ranges of a run whose insertion returned true. -/
def accepted : List (IndexEntry ℕ ε) → AdaptiveAddressIndex ε → List (IndexEntry ℕ ε)
  | [], _ => []
  | e :: es, x =>
    if (x.insert e.start e.stop e.value).1 then e :: accepted es (step e x) else accepted es (step e x)

/-- The end of the range has a bit, if there is a bitmap. -/
def HasBit (addressRange granularity : ℕ) (e : IndexEntry ℕ ε) : Prop :=
  (BitmapIndex.new addressRange granularity).bitCount ≠ 0 →
    e.stop/(BitmapIndex.new addressRange granularity).granularity < (BitmapIndex.new addressRange granularity).bitCount

/-- The 65th range is inserted when the first one with each start was accepted, later ones are accepted only where they
meet no stored range, and the 257th is inserted when the stored ranges lie within the bitmap. -/
def Separate (x : AdaptiveAddressIndex ε) (e : IndexEntry ℕ ε) : Prop :=
  e.start ≤ e.stop →
    (x.masterList.length = linearThreshold → Replayable (x.masterList ++ [e])) ∧
    (linearThreshold < x.masterList.length → (x.insert e.start e.stop e.value).1 = true →
      ∀ f ∈ stored x.masterList, ¬e.Meets f) ∧
    (x.masterList.length = bitmapThreshold → ∀ f ∈ stored x.masterList, HasBit x.addressRange x.granularity f)

/-- The index stores the accepted ranges, and no two of them share an address. -/
structure Tracks (addressRange granularity : ℕ) (acc : List (IndexEntry ℕ ε)) (x : AdaptiveAddressIndex ε) : Prop where
  built : Built addressRange granularity x
  mem : ∀ e, e ∈ stored x.masterList ↔ e ∈ acc
  apart : ∀ e ∈ acc, ∀ f ∈ acc, ∀ a, e.Contains a → f.Contains a → e = f

section

theorem step_inverted (he : ¬e.start ≤ e.stop) : (x.insert e.start e.stop e.value).1 = false ∧ step e x = x := by
  rw [step, insert, if_pos (not_le.mp he)]
  exact ⟨rfl, rfl⟩

variable (h : Built rg g x)
include h

theorem insert_fst (he : e.start ≤ e.stop) : (x.insert e.start e.stop e.value).1 =
    if x.masterList.length ≤ linearThreshold then ((linearOf x.masterList).insert e.start e.stop e.value).1
    else ((treeOf x.masterList).insert e.start e.stop e.value).1 := by
  rw [insert, if_neg (not_lt.mpr he)]
  split_ifs with hn
  · have hc : x.current = .linear := by rw [h.current, strategyFor_linear hn]
    simp [insertCurrent, hc, h.linear hn]
  have hn := not_le.mp hn
  obtain hm | hm := lt_or_ge bitmapThreshold x.masterList.length
  · have hc : x.current = .bitmap := by rw [h.current, strategyFor_bitmap hm]
    simp [insertCurrent, hc, preciseIndex, h.shared, h.tree hn]
  · have hc : x.current = .tree := by rw [h.current, strategyFor_tree hn hm]
    simp [insertCurrent, hc, h.tree hn]

/-- One insertion adds the range if it is accepted; an accepted range meets none that is stored. -/
theorem stored_step (hs : Separate x e) (he : e.start ≤ e.stop) :
    (∀ f, f ∈ stored (x.masterList ++ [e]) ↔
      f ∈ stored x.masterList ∨ (f = e ∧ (x.insert e.start e.stop e.value).1 = true)) ∧
    ((x.insert e.start e.stop e.value).1 = true → ∀ f ∈ stored x.masterList, ¬e.Meets f) := by
  have hl : (x.masterList ++ [e]).length = x.masterList.length + 1 := length_append
  have hr : ∀ f ∈ x.masterList ++ [e], f.start ≤ f.stop := forall_mem_append.mpr ⟨h.ranges, forall_mem_singleton.mpr he⟩
  obtain ⟨h1, h2, -⟩ := hs he
  obtain hn | hn := lt_or_ge linearThreshold x.masterList.length
  · refine ⟨fun f => ?_, h2 hn⟩
    rw [insert_fst h he, stored, stored, if_neg (by omega), if_neg (by omega), if_neg (by omega), treeOf_append]
    obtain ⟨ho, hs, -⟩ | ⟨ho, hp⟩ := IntervalTree.insert_cases (treeOf_ordered x.masterList) e
    · simp [ho, hs]
    · rw [hp.mem_iff, mem_cons, ho]
      tauto
  · have hf : (x.insert e.start e.stop e.value).1 = true ↔ ∀ f ∈ (linearOf x.masterList).entries, ¬e.Meets f := by
      rw [insert_fst h he, if_pos hn, LinearScanIndex.insert, if_neg (not_lt.mpr he)]
      split_ifs with hm
      · simpa [IndexEntry.Meets] using hm
      · simpa [IndexEntry.Meets] using hm
    -- at the 65th range the tree replays the log, and stores what the scan would store
    have hm : ∀ f, f ∈ stored (x.masterList ++ [e]) ↔ f ∈ (linearOf (x.masterList ++ [e])).entries := by
      intro f
      rw [stored]
      split_ifs with hk
      · rfl
      · exact (h1 (by omega)).mem_iff hr
    simp only [hm, mem_linearOf_append he, hf]
    rw [stored, if_pos hn]
    exact ⟨fun f => Iff.rfl, id⟩

end

section

variable (h : Tracks rg g acc x)
include h

theorem tracks_step (hs : Separate x e) :
    Tracks rg g (if (x.insert e.start e.stop e.value).1 then e :: acc else acc) (step e x) := by
  by_cases he : e.start ≤ e.stop
  swap
  · obtain ⟨hf, hx⟩ := step_inverted he
    rwa [hf, hx]
  obtain ⟨hm, hno⟩ := stored_step h.built hs he
  refine ⟨h.built.insert _ _ _, fun f => ?_, ?_⟩
  · rw [step, insert_masterList h.built e he, hm, h.mem]
    split_ifs with ho
    · simp [ho, or_comm]
    · simp [ho]
  · split_ifs with ho
    · have hno : ∀ f ∈ acc, ∀ a, e.Contains a → ¬f.Contains a := fun f hf a ha hb =>
        hno ho f ((h.mem f).mpr hf) ⟨ha.1.trans hb.2, hb.1.trans ha.2⟩
      rintro f hf k hk a hfa hka
      obtain rfl | hf' := mem_cons.mp hf
      · obtain rfl | hk' := mem_cons.mp hk
        · rfl
        · exact absurd hka (hno k hk' a hfa)
      · obtain rfl | hk' := mem_cons.mp hk
        · exact absurd hfa (hno f hf' a hka)
        · exact h.apart f hf' k hk' a hfa hka
    · exact h.apart

/-- Above 256 ranges the address has to have its bit; otherwise a lookup answers from the accepted ranges. -/
def Shown (addressRange granularity : ℕ) (x : AdaptiveAddressIndex ε) (a : ℕ) : Prop :=
  bitmapThreshold < x.masterList.length → (BitmapIndex.new addressRange granularity).bitCount ≠ 0 →
    (bitmapOf (BitmapIndex.new addressRange granularity) x.masterList).isInRange a = true

theorem Tracks.search_iff (hn : linearThreshold < x.masterList.length) (a : ℕ) (v : ε) :
    (treeOf x.masterList).search a = some v ↔ ∃ e ∈ acc, e.value = v ∧ e.Contains a := by
  have hm (e) : e ∈ toList (treeOf x.masterList).root ↔ e ∈ acc := by
    rw [← h.mem, stored, if_neg (not_le.mpr hn)]
  rw [IntervalTree.search, searchNode_iff a v (treeOf_ordered _) (treeOf_wellMax _)]
  simp only [hm]
  constructor
  · rintro ⟨e, he, hv, ha, -⟩
    exact ⟨e, he, hv, ha⟩
  · rintro ⟨e, he, hv, ha⟩
    refine ⟨e, he, hv, ha, fun f hf hfa hne => ?_⟩
    exact absurd (congrArg IndexEntry.start (h.apart f hf e he a hfa ha)) hne

theorem Tracks.lookup_iff (a : ℕ) (v : ε) :
    x.lookup a = some v ↔ (∃ e ∈ acc, e.value = v ∧ e.Contains a) ∧ Shown rg g x a := by
  obtain hn | hn := lt_or_ge linearThreshold x.masterList.length
  swap
  · have hm (e) : e ∈ (linearOf x.masterList).entries ↔ e ∈ acc := by rw [← h.mem, stored, if_pos hn]
    have ht : ¬bitmapThreshold < x.masterList.length := not_lt.mpr (hn.trans (by decide))
    simp [lookup_linear h.built hn, linearOf_lookup_iff h.built.ranges, hm, Shown, ht]
  obtain hm | hm := lt_or_ge bitmapThreshold x.masterList.length
  · rw [lookup_bitmap h.built hm, ← h.search_iff hn, Shown]
    split_ifs with hs
    · simp [hm, hs]
    · rw [not_and, not_not] at hs
      exact ⟨fun hv => ⟨hv, fun _ => hs⟩, And.left⟩
  · have hc : x.current = .tree := by rw [h.built.current, strategyFor_tree hn hm]
    simp [lookup, hc, h.built.tree hn, h.search_iff hn, Shown, hm]

/-- An address of an accepted range keeps its bit, and has one when the bitmap is built. -/
theorem shown_step (hs : Separate x e) (hf : f ∈ acc) {a : ℕ} (ha : f.Contains a) (hx : Shown rg g x a) :
    Shown rg g (step e x) a := by
  by_cases he : e.start ≤ e.stop
  swap
  · rwa [(step_inverted he).2]
  rw [Shown, step, insert_masterList h.built e he]
  intro hl hb
  rw [length_append, length_singleton] at hl
  rw [bitmapOf_append]
  apply isInRange_markRange
  obtain hn | hn := lt_or_eq_of_le (Nat.lt_succ_iff.mp hl)
  · exact hx hn hb
  · have hst := (h.mem f).mpr hf
    have hbit := (hs he).2.2 hn.symm f hst
    rw [h.built.range, h.built.gran] at hbit
    exact bitmapOf_covers (sized_new _ _) (new_lt_bitCount (Nat.zero_le _) hb).1 (mem_of_stored h.built.ranges hst) ha
      ((Nat.div_le_div_right ha.2).trans_lt (hbit hb))

end

theorem tracks_run {es : List (IndexEntry ℕ ε)} (h : Tracks rg g acc x) (hr : Every step Separate es x) :
    ∃ acc', (∀ e, e ∈ acc' ↔ e ∈ accepted es x ∨ e ∈ acc) ∧ Tracks rg g acc' (run step es x) ∧
      ∀ f ∈ acc, ∀ a, f.Contains a → Shown rg g x a → Shown rg g (run step es x) a := by
  induction es generalizing acc x with
  | nil => exact ⟨acc, by simp [accepted], h, fun _ _ _ _ hx => hx⟩
  | cons e es ih =>
    obtain ⟨acc', hm, ht, hs⟩ := ih (tracks_step h hr.1) hr.2
    refine ⟨acc', fun f => ?_, ht, fun f hf a ha hx => hs f ?_ a ha (shown_step h hr.1 hf ha hx)⟩
    · rw [hm, accepted]
      split_ifs
      · rw [mem_cons, mem_cons, or_left_comm, or_assoc]
      · rfl
    · split_ifs
      · exact mem_cons_of_mem _ hf
      · exact hf

/-- In a run of separate insertions what a lookup finds is the value of an accepted range, and it is found again after
all further insertions. -/
theorem migration_invisible (addressRange granularity : ℕ) {before after : List (IndexEntry ℕ ε)}
    (hrun : Every step Separate (before ++ after) (new addressRange granularity)) (a : ℕ) (v : ε)
    (hv : (run step before (new addressRange granularity)).lookup a = some v) :
    (∃ e ∈ accepted before (new addressRange granularity), e.value = v ∧ e.Contains a) ∧
      (run step (before ++ after) (new addressRange granularity)).lookup a = some v := by
  obtain ⟨hb, ha⟩ := (every_append before after).mp hrun
  have hn : Tracks addressRange granularity [] (new addressRange granularity : AdaptiveAddressIndex ε) :=
    ⟨built_new, by simp [stored, new, linearOf], nofun⟩
  obtain ⟨acc, hm, ht, -⟩ := tracks_run hn hb
  obtain ⟨acc', hm', ht', hs⟩ := tracks_run ht ha
  obtain ⟨⟨e, he, hev, hea⟩, hx⟩ := (ht.lookup_iff a v).mp hv
  refine ⟨⟨e, by simpa using (hm e).mp he, hev, hea⟩, ?_⟩
  rw [run_append, ht'.lookup_iff]
  exact ⟨⟨e, (hm' e).mpr (.inr he), hev, hea⟩, hs e he a hea hx⟩

instance [DecidableEq ε] : Decidable (Replayable log) := inferInstanceAs (Decidable (∀ f ∈ log, _ → _))

instance : Decidable (e.Meets f) := inferInstanceAs (Decidable (_ ∧ _))

instance : Decidable (HasBit rg g e) := inferInstanceAs (Decidable (_ → _))

instance [DecidableEq ε] : Decidable (Separate x e) := inferInstanceAs (Decidable (_ → _ ∧ _ ∧ _))

/-- A refused range whose start is taken, and 63 ranges apart: the index has migrated. -/
def manyRanges : List (IndexEntry ℕ ℕ) :=
  ⟨0, 3, 2⟩ :: (range 63).map fun i => ⟨100 + 10 * i, 101 + 10 * i, 3⟩

theorem migration_invisible_one :
    ((run step [⟨0, 5, 1⟩] (new 100 10)).insert 0 3 2).1 = false ∧
    (run step (⟨0, 5, 1⟩ :: manyRanges) (new 100 10)).current = .tree ∧
    (run step (⟨0, 5, 1⟩ :: manyRanges) (new 100 10)).lookup 2 = some 1 := by
  have hrun : Every step Separate ([⟨0, 5, 1⟩] ++ manyRanges) (new 100 10) := by decide +kernel
  exact ⟨by decide +kernel, by decide +kernel, (migration_invisible 100 10 hrun 2 1 (by decide +kernel)).2⟩

/-- The second range is refused and is found once there are more than 64. -/
theorem migration_shows_refused : ((run step [⟨0, 5, 1⟩] (new 100 10)).insert 5 9 2).1 = false ∧
    (run step (⟨0, 5, 1⟩ :: ⟨5, 9, 2⟩ :: (range 63).map fun i => ⟨100 + 10 * i, 101 + 10 * i, 3⟩) (new 100 10)).lookup
      8 = some 2 := by
  decide +kernel

end AdaptiveAddressIndex
end Faultloggerd.Minidump
