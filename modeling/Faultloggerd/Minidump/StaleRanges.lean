import Faultloggerd.Minidump.Registration

/-! # What a list sees of ranges that were there before it

A list of `k` members looks an address up in an index and drops positions from `k` on. If the index held ranges before
the list registered its own, some list of at most two members gets an answer it would not get alone
(`exists_telling`): a start that is taken answers with the older range, whatever is registered there later, and a list
that registers nothing is answered from the older ranges only.
-/
namespace Faultloggerd.Minidump
open List Option

variable {ε : Type}

theorem exists_root {log : List (IndexEntry ℕ ε)} (hr : ∀ e∈log, e.start≤e.stop) (hne : log≠[]) :
    ∃ e∈log, (treeOf log).search e.start=some e.value ∧
      ∀ stop value, treeOf (log++[⟨e.start, stop, value⟩])=treeOf log := by
  obtain ⟨first, rest, rfl⟩ := exists_cons_of_ne_nil hne
  have hf : first∈(treeOf (first::rest)).root.toList := by
    rw [mem_treeOf hr, find?_cons_of_pos (by simp)]
  generalize ht : treeOf (first::rest)=tree at *
  obtain ⟨root, size⟩ := tree
  cases root with
  | nil => cases hf
  | node low high m v he l r =>
    have hr1 : (⟨low, high, v⟩ : IndexEntry ℕ ε)∈(treeOf (first::rest)).root.toList := by
      rw [ht]
      exact IntervalNode.mem_node.mpr (.inr (.inl rfl))
    have hm := mem_log_of_mem_treeOf hr hr1
    refine ⟨_, hm, ?_, fun stop value => ?_⟩
    · have hle : low≤high := hr _ hm
      rw [IntervalTree.search, IntervalNode.searchNode.eq_def]
      exact if_pos ⟨le_rfl, hle⟩
    · rw [treeOf_append, ht, IntervalTree.insert]
      split_ifs
      · rfl
      · rw [IntervalNode.insertNode, if_neg (lt_irrefl low), if_neg (lt_irrefl low)]

theorem first_mem_linearOf (first : IndexEntry ℕ ε) (rest : List (IndexEntry ℕ ε))
    (hr : ∀ e∈first::rest, e.start≤e.stop) : first∈(linearOf (first::rest)).entries := by
  induction rest using reverseRecOn with
  | nil =>
    have hn : ∀ f∈(linearOf ([] : List (IndexEntry ℕ ε))).entries, ¬first.Meets f := nofun
    exact (mem_linearOf_append (hr first mem_cons_self) first).mpr (.inr ⟨rfl, hn⟩)
  | append_singleton rest e ih =>
    have he : e.start≤e.stop := hr e (by simp)
    refine (mem_linearOf_append he first).mpr (.inl (ih fun f hf => hr f ?_))
    exact mem_append_left _ hf

theorem isInRange_beyond {b : BitmapIndex} {a : ℕ} (h : b.bitCount≤a/b.granularity) : b.isInRange a=false := by
  rw [BitmapIndex.isInRange]
  split_ifs
  · rfl
  · exact if_pos h

namespace AdaptiveAddressIndex
variable {range gran : ℕ} {x : AdaptiveAddressIndex ε}

section

variable (h : Built range gran x)
include h

theorem exists_shadowed (hne : x.masterList≠[]) :
    ∃ e∈x.masterList, ∀ v w, (x.insert e.start e.start v).2.lookup e.start=some w → w=e.value := by
  have hl : ∀ e v, (x.insert e e v).2.masterList=x.masterList++[⟨e, e, v⟩] := fun e v =>
    insert_masterList h ⟨e, e, v⟩ le_rfl
  by_cases hn : x.masterList.length+1≤linearThreshold
  · -- the first range is in the linear scan and keeps others from its start
    obtain ⟨first, rest, hc⟩ := exists_cons_of_ne_nil hne
    have hr := h.ranges
    rw [hc] at hr
    have hf1 := hr first mem_cons_self
    refine ⟨first, by rw [hc]; exact mem_cons_self, fun v w hw => ?_⟩
    have hb := h.insert first.start first.start v
    rw [lookup_linear hb (by rw [hl, length_append]; exact hn), hl,
      linearOf_lookup_iff (by rw [←hl]; exact hb.ranges)] at hw
    obtain ⟨e, he, rfl, hc1⟩ := hw
    have hm : first∈(linearOf (x.masterList++[⟨first.start, first.start, v⟩])).entries := by
      rw [hc, cons_append]
      apply first_mem_linearOf
      rw [←cons_append, ←hc, ←hl]
      exact hb.ranges
    rw [linearOf_apart (by rw [←hl]; exact hb.ranges) he hm hc1 ⟨le_rfl, hf1⟩]
  · obtain ⟨e, he, hs, ht⟩ := exists_root h.ranges hne
    refine ⟨e, he, fun v w hw => ?_⟩
    have hb := h.insert e.start e.start v
    have hf := search_of_lookup hb (by grind) hw
    rw [hl, ht, hs] at hf
    exact (some.inj hf).symm

theorem exists_answered (hne : x.masterList≠[]) : ∃ e∈x.masterList, x.lookup e.start=some e.value ∨
      ∀ v, (x.insert e.start e.start v).2.lookup e.start=none := by
  by_cases hn : x.masterList.length≤linearThreshold
  · obtain ⟨first, rest, hc1⟩ := exists_cons_of_ne_nil hne
    have hr := h.ranges
    refine ⟨first, by rw [hc1]; exact mem_cons_self, .inl ?_⟩
    rw [lookup_linear h hn, linearOf_lookup_iff hr]
    rw [hc1] at hr ⊢
    exact ⟨first, first_mem_linearOf first rest hr, rfl, le_rfl, hr first mem_cons_self⟩
  obtain ⟨e, he, hs, -⟩ := exists_root h.ranges hne
  refine ⟨e, he, ?_⟩
  by_cases hm : x.masterList.length≤bitmapThreshold
  · have hc : x.current=.tree := by rw [h.current, strategyFor_tree (by omega) hm]
    apply Or.inl
    simpa only [lookup, hc, h.tree (by omega), bind_some] using hs
  · -- beyond the bitmap nothing is ever found
    by_cases hb1 : (BitmapIndex.new range gran).bitCount≠0 ∧ (BitmapIndex.new range gran).bitCount ≤
          e.start/(BitmapIndex.new range gran).granularity
    · apply Or.inr
      intro v
      have hb := h.insert e.start e.start v
      have hl := insert_masterList h ⟨e.start, e.start, v⟩ le_rfl
      rw [lookup_bitmap hb (by grind), if_pos]
      refine ⟨hb1.1, ?_⟩
      rw [isInRange_beyond (by rw [bitmapOf_bitCount, bitmapOf_granularity]; exact hb1.2)]
      exact Bool.false_ne_true
    · apply Or.inl
      rw [lookup_bitmap h (by omega), if_neg, hs]
      rintro ⟨hs1, ho⟩
      refine ho (bitmapOf_covers (BitmapIndex.sized_new _ _) ?_ he ⟨le_rfl, h.ranges e he⟩ ?_)
      · exact (BitmapIndex.new_lt_bitCount (Nat.zero_le range) hs1).1
      · omega

end

end AdaptiveAddressIndex

/-- The members of a list: one that does not fit the address space, or an empty one at a start. -/
abbrev Probe := List (Option ℕ)

namespace Probe

def entriesFrom (k : ℕ) (probe : Probe) : List (IndexEntry ℕ ℕ) :=
  (probe.zipIdx k).filterMap fun m => m.1.map fun start => ⟨start, start, m.2⟩

def entries (probe : Probe) : List (IndexEntry ℕ ℕ) := entriesFrom 0 probe

theorem entriesFrom_none (k : ℕ) (probe : Probe) : entriesFrom k (none::probe)=entriesFrom (k+1) probe := rfl

theorem entriesFrom_some (k start : ℕ) (probe : Probe) :
    entriesFrom k (some start::probe)=⟨start, start, k⟩::entriesFrom (k+1) probe := rfl

def answer (probe : Probe) (x : AdaptiveAddressIndex ℕ) (address : ℕ) : Option ℕ :=
  ((x.insertAll probe.entries).lookup address).filter (· < probe.length)

end Probe

namespace AdaptiveAddressIndex
variable {range gran : ℕ} {x : AdaptiveAddressIndex ℕ}

theorem lookup_new_insert (start value : ℕ) :
    ((new range gran).insert start start value).2.lookup start=some value := by
  have hn : Built range gran (new range gran : AdaptiveAddressIndex ℕ) := built_new
  have hb := hn.insert start start value
  have hl1 := insert_masterList hn ⟨start, start, value⟩ le_rfl
  have hl : ((new range gran).insert start start value).2.masterList.length≤linearThreshold := by
    rw [hl1, length_append]
    exact Nat.le_of_ble_eq_true rfl
  rw [lookup_linear hb hl, linearOf_lookup_iff hb.ranges, hl1]
  refine ⟨⟨start, start, value⟩, ?_, rfl, le_rfl, le_rfl⟩
  exact first_mem_linearOf _ [] fun e he => by rw [mem_singleton.mp he]

theorem answer_new (start : ℕ) : Probe.answer [some start] (new range gran) start=some 0 := by
  change (((new range gran).insert start start 0).2.lookup start).filter _=_
  rw [lookup_new_insert]
  rfl

theorem exists_telling (h : Built range gran x) (hne : x.masterList≠[]) {limit : ℕ}
    (hv : ∀ e∈x.masterList, e.value<limit) :
    ∃ (probe : Probe) (addr : ℕ), probe≠[] ∧ probe.length≤2 ∧ probe.length≤limit ∧
      (∀ start, some start∈probe → ∃ e∈x.masterList, e.start=start) ∧
      probe.answer x addr≠probe.answer (new range gran) addr := by
  have hs1 : ∀ e∈x.masterList, ∀ start, some start=some e.start → ∃ e∈x.masterList, e.start=start :=
    fun e he start hs => ⟨e, he, (some.inj hs).symm⟩
  by_cases hl : 2≤limit
  · obtain ⟨e, he, hs2⟩ := exists_shadowed h hne
    by_cases ho : e.value=1
    · refine ⟨[some e.start], e.start, by simp, by simp, by simp; omega,
        fun start hs => hs1 e he start (by simpa using hs), ?_⟩
      rw [answer_new]
      intro hs3
      have := hs2 0 0 (filter_eq_some_iff.mp hs3).1
      omega
    · refine ⟨[none, some e.start], e.start, by simp, le_rfl, hl,
        fun start hs => hs1 e he start (by simpa using hs), ?_⟩
      have ha1 : Probe.answer [none, some e.start] (new range gran) e.start=some 1 := by
        change (((new range gran).insert e.start e.start 1).2.lookup e.start).filter _=_
        rw [lookup_new_insert]
        rfl
      rw [ha1]
      intro hs3
      exact ho (hs2 1 1 (filter_eq_some_iff.mp hs3).1).symm
  · -- every position is 0
    obtain ⟨e, he, ha⟩ := exists_answered h hne
    have hlt := hv e he
    have hz : e.value=0 := by omega
    rw [hz] at ha
    obtain hf | hn := ha
    · refine ⟨[none], e.start, by simp, by simp, by simp; omega, by simp, ?_⟩
      have hh : Probe.answer [none] x e.start=some 0 := by
        change (x.lookup e.start).filter _=_
        rw [hf]
        rfl
      rw [hh]
      nofun
    · refine ⟨[some e.start], e.start, by simp, by simp, by simp; omega,
        fun start hs => hs1 e he start (by simpa using hs), ?_⟩
      have hh : Probe.answer [some e.start] x e.start=none := by
        change ((x.insert e.start e.start 0).2.lookup e.start).filter _=_
        rw [hn]
        rfl
      rw [answer_new, hh]
      nofun

end AdaptiveAddressIndex
end Faultloggerd.Minidump
