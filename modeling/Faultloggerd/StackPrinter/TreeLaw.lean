import Faultloggerd.StackPrinter.Roots
import Mathlib.Data.BitVec
import Mathlib.Data.List.Sort

/-! # The law of the sampled stack tree

As long as no item of the pc 0 is taken for an empty one (`ClearFrom`), the frames of a thread list the prefix tree of
its stacks exactly where the outermost pc that was inserted first is never overtaken by another one, and no outermost
pc has more samples than a count can hold (`treeLaw_iff`).
-/
namespace Faultloggerd.StackPrinter
open List Option Nat Foundations PrefixForest StackTable

/-! ## Which stacks are lost -/

section Lead

variable {words : Words} {path : Path} {pc : BitVec 64} {n : ℕ}

def lead (words : Words) : Option (BitVec 64) :=
  words.head?.bind fun word => word.1.head?

/-- At no time has another outermost pc more samples than the first one. -/
def Leads (words : Words) : Prop :=
  ∀ first ∈ lead words, ∀ earlier, earlier <+: words →
    ∀ pc, weight (startingWith [pc] earlier) ≤ weight (startingWith [first] earlier)

theorem lead_append (hne : words≠[]) (word : Path × ℕ) : lead (words++[word])=lead words := by
  rw [lead, head?_append_of_ne_nil _ hne]
  rfl

theorem leads_append (hne : words≠[]) (word : Path × ℕ) :
    Leads (words++[word]) ↔ Leads words ∧ ∀ first∈lead words, ∀ pc,
      weight (startingWith [pc] (words++[word]))≤weight (startingWith [first] (words++[word])) := by
  unfold Leads
  rw [lead_append hne]
  constructor
  · intro h
    exact ⟨fun first hf old he => h first hf old (he.trans (prefix_append _ _)),
      fun first hf => h first hf _ (prefix_refl _)⟩
  · rintro ⟨he1, hl⟩ first hf old he
    rcases prefix_concat_iff.mp he with rfl | he
    · exact hl first hf
    · exact he1 first hf old he

theorem leads_singleton (pc : BitVec 64) (path : Path) (n : ℕ) : Leads [(pc::path, n)] := by
  intro first hf old he pc'
  obtain rfl : pc=first := some.inj hf
  rcases prefix_concat_iff.mp (nil_append [(pc::path, n)] ▸ he) with rfl | he
  · rw [nil_append, weight_startingWith_word, ←weight_behind, behind_cons_word]
    split
    · exact le_refl n
    · exact zero_le n
  · rw [prefix_nil.mp he]
    exact le_refl _

/-- Nothing was lost: the tree is the forest of the stacks, and starts with the first outermost pc. -/
structure Tracks (words : Words) (ts : List Tree) : Prop where
  forest : IsForest words ts
  total : (ts.map PrefixTree.count).sum = weight words
  first : ts.head?.map PrefixTree.label = lead words

theorem weight_word (words : Words) (path : Path) (n : ℕ) :
    weight (words++[(path, n)])=weight words+n := by
  rw [weight_append]
  rfl

theorem overtaken_iff {root : Tree} {rest : List Tree}
    (ht : Tracks words (root::rest)) (hl : Leads words) (hne : words≠[]) :
    root.label≠pc ∧ (locate pc n (root::rest)).before=[] ↔ ¬Leads (words++[(pc::path, n)]) := by
  have hl1 : lead words=some root.label := ht.first.symm
  have hr : root.count=weight (startingWith [root.label] words) := by
    rw [←weight_behind]
    exact ht.forest.counts root mem_cons_self
  have ho : ∀ pc', pc'≠pc → weight (startingWith [pc'] (words++[(pc::path, n)])) =
      weight (startingWith [pc'] words) := by
    intro pc' hpc
    rw [weight_startingWith_append, ←weight_behind pc' [_], behind_cons_word, if_neg hpc.symm]
    rfl
  have ho1 : weight (startingWith [pc] (words++[(pc::path, n)]))=weight (startingWith [pc] words)+n := by
    rw [weight_startingWith_append, weight_startingWith_word]
  have he : ∀ pc', weight (startingWith [pc'] words)≤weight (startingWith [root.label] words) :=
    hl root.label hl1 words (prefix_refl words)
  rw [leads_append hne, hl1]
  constructor
  · rintro ⟨hpc, hb⟩ ⟨-, hl2⟩
    have hg := (locate_before_eq_nil hpc).mp hb
    have hle := hl2 root.label rfl pc
    rw [ho root.label hpc] at hle
    rw [ht.forest.locate_count] at hg
    omega
  · intro hl3
    by_contra hkept
    refine hl3 ⟨hl, fun first hf pc' => ?_⟩
    obtain rfl : root.label=first := some.inj hf
    by_cases hpc : root.label=pc
    · -- its own stack
      by_cases hpc' : pc'=pc
      · rw [hpc', hpc]
      · grind
    · have hg : ¬root.count<(locate pc n (root::rest)).tree.count := fun hlt =>
        hkept ⟨hpc, (locate_before_eq_nil hpc).mpr hlt⟩
      rw [ht.forest.locate_count] at hg
      rw [ho root.label hpc, ←hr]
      by_cases hpc' : pc'=pc
      · grind
      · rw [ho pc' hpc', hr]
        exact he pc'

theorem sum_insertRoots_le (pc : BitVec 64) (path : Path) (n : ℕ) (ts : List Tree) :
    ((insertRoots n (pc::path) ts).map PrefixTree.count).sum≤(ts.map PrefixTree.count).sum+n := by
  rw [←sum_insertPath pc path n ts]
  cases ts with
  | nil => exact le_refl _
  | cons root rest =>
    unfold insertRoots
    dsimp only
    split
    · unfold insertPath
      grind
    · exact le_refl _

theorem sum_overtaken {root : Tree} {rest : List Tree} (path : Path)
    (hpc : root.label≠pc) (hb : (locate pc n (root::rest)).before=[]) :
    ((insertRoots n (pc::path) (root::rest)).map PrefixTree.count).sum<((root::rest).map PrefixTree.count).sum+n := by
  have hg := (locate_before_eq_nil hpc).mp hb
  rw [insertRoots_overtaken path hpc hb, ←sum_insertPath pc path n (root::rest)]
  unfold insertPath
  rw [map_append, List.sum_append, map_cons, sum_cons]
  change _<_+((locate pc n (root::rest)).tree.count+_)
  omega

theorem Tracks.insertPath {ts : List Tree} (ht : Tracks words ts) (pc : BitVec 64)
    (path : Path)
    (n : ℕ) (hf : (insertPath n (pc::path) ts).head?.map PrefixTree.label=lead (words++[(pc::path, n)])) :
    Tracks (words++[(pc::path, n)]) (insertPath n (pc::path) ts) :=
  ⟨ht.forest.insertPath (pc::path) n, by rw [sum_insertPath, ht.total, weight_word], hf⟩

theorem rootsOf_tracks (hw : ∀ word∈words, word.1≠[]) : (Leads words → Tracks words (rootsOf words)) ∧
      (¬Leads words → ((rootsOf words).map PrefixTree.count).sum<weight words) := by
  induction words using reverseRecOn with
  | nil => exact ⟨fun _ => ⟨.empty, rfl, rfl⟩, fun h => absurd (fun first hf => nomatch hf) h⟩
  | append_singleton words word ih =>
    obtain ⟨path, n⟩ := word
    obtain ⟨ihkept, ihlost⟩ := ih fun word hw1 => hw word (mem_append_left _ hw1)
    have hw1 : path≠[] := hw (path, n) (by simp)
    obtain ⟨pc, path, rfl⟩ := exists_cons_of_ne_nil hw1
    rw [rootsOf_append]
    by_cases hne : words=[]
    · -- the first stack
      subst hne
      have he : Tracks [] [] := ⟨.empty, rfl, rfl⟩
      exact ⟨fun _ => he.insertPath pc path n rfl, fun h => absurd (leads_singleton pc path n) h⟩
    · by_cases hl : Leads words
      · have ht := ihkept hl
        cases hts : rootsOf words with
        | nil =>
          obtain ⟨first, words, rfl⟩ := exists_cons_of_ne_nil hne
          have hf := ht.first
          rw [hts] at hf
          exact absurd (head?_eq_none_iff.mp hf.symm) (hw first (by simp))
        | cons root rest =>
          rw [hts] at ht
          by_cases hg : root.label≠pc ∧ (locate pc n (root::rest)).before=[]
          · refine ⟨fun h => absurd h ((overtaken_iff ht hl hne).mp hg), fun _ => ?_⟩
            rw [weight_word, ←ht.total]
            exact sum_overtaken path hg.1 hg.2
          · have hk : root.label=pc ∨ (locate pc n (root::rest)).before≠[] := by grind
            refine ⟨fun _ => ?_, fun h => absurd ((overtaken_iff ht hl hne).mpr h) hg⟩
            rw [insertRoots_kept path hk]
            refine ht.insertPath pc path n ?_
            rw [head_insertPath path hk, lead_append hne]
            exact ht.first
      · refine ⟨fun h => absurd ((leads_append hne _).mp h).1 hl, fun _ => ?_⟩
        have hle := sum_insertRoots_le pc path n (rootsOf words)
        have hlt := ihlost hl
        rw [weight_word]
        omega

end Lead

/-! ## The frames of a thread -/

/-- The frames are the preorder listing of a forest in which each prefix of the reversed stacks occurs once. -/
def TreeLaw (samples : Words) (frames : List SampledFrame) : Prop :=
  ∃ ts, frames.map view = (listing 0 ts).map castCount ∧ PrefixLaw samples ts

theorem castCount_injective : Function.Injective castCount := by
  rintro ⟨level, pc, n⟩ ⟨level', pc', n'⟩ heq
  obtain ⟨rfl, rfl, rfl⟩ := heq
  rfl

theorem exists_frame_of_law {samples : Words} {fs : List SampledFrame}
    (hl : TreeLaw samples fs) {path : Path} (hp : path≠[]) (hs2 : startingWith path samples≠[]) :
    ∃ frame∈fs, frame.count.toInt=weight (startingWith path samples) := by
  obtain ⟨ts, hv, hl⟩ := hl
  obtain ⟨word, hw⟩ := exists_mem_of_ne_nil _ hs2
  obtain ⟨hm, hs⟩ := mem_filter.mp hw
  have he1 : (path, weight (startingWith path samples))∈entries [] ts :=
    (hl.counts _ _).mpr ⟨hp, ⟨word, hm, isPrefixOf_iff_prefix.mp hs⟩, rfl⟩
  have hc := mem_map_of_mem (f := Prod.snd) he1
  rw [map_entries 0 []] at hc
  obtain ⟨e, he, heq⟩ := mem_map.mp hc
  have hc1 := mem_map_of_mem (f := castCount) he
  rw [←hv] at hc1
  obtain ⟨frame, hf, hs1⟩ := mem_map.mp hc1
  have hi : frame.count.toInt=(e.2.2 : ℤ) := congrArg (fun e => e.2.2) hs1
  exact ⟨frame, hf, by rw [hi, heq]⟩

theorem weight_lt_of_law {samples : Words} {fs : List SampledFrame}
    (hl : TreeLaw samples fs) (pc : BitVec 64) : weight (startingWith [pc] samples)<2^31 := by
  by_cases hn : startingWith [pc] samples=[]
  · rw [hn]
    decide
  · obtain ⟨frame, -, hc⟩ := exists_frame_of_law hl (cons_ne_nil pc []) hn
    have hlt := BitVec.toInt_lt (x := frame.count)
    omega

section Frames

variable {p : Printer} {table : UniqueStackTable} {tid : ℤ} {start fin : ℕ}

/-- The samples of a thread: its stacks from the outermost pc on, each with the number of its samples. -/
def Printer.samples (p : Printer) (table : UniqueStackTable) (tid : ℤ) (beginTime endTime : ℕ) :
    Words :=
  (p.records tid beginTime endTime).map (wordOf table)

def Printer.inserted (p : Printer) (sort : SampleSort) (table : UniqueStackTable) (tid : ℤ) (beginTime endTime : ℕ) :
    Words :=
  (sort.sort (p.records tid beginTime endTime)).map (wordOf table)

theorem Printer.inserted_perm (p : Printer) (sort : SampleSort) (table : UniqueStackTable) (tid : ℤ) (start fin : ℕ) :
    (p.inserted sort table tid start fin).Perm (p.samples table tid start fin) := (sort.perm _).map _

theorem getSampledFramesByTid_spec (sort : SampleSort) (ht1 : p.impl.uniqueStackTable=some table)
    (hs : ∀ record∈p.records tid start fin, Stored table record)
    (hz : ClearFrom (rootsOf []) (p.inserted sort table tid start fin))
    (hf : ∀ pc, weight (startingWith [pc] (p.samples table tid start fin))<2^31) :
    ∃ fs s, p.impl.getSampledFramesByTid sort tid start fin=some (fs, s) ∧
      fs.map view=(listing 0 (rootsOf (p.inserted sort table tid start fin))).map castCount := by
  have hp := p.inserted_perm sort table tid start fin
  have hm : ∀ record∈sort.sort (p.records tid start fin), record∈p.records tid start fin :=
    fun record hr => (sort.perm _).mem_iff.mp hr
  have hf' : ∀ pc, weight (startingWith [pc] (p.inserted sort table tid start fin))<2^31 := by
    intro pc
    have hw : weight (startingWith [pc] (p.inserted sort table tid start fin)) =
        weight (startingWith [pc] (p.samples table tid start fin)) := weight_perm (hp.filter _)
    rw [hw]
    exact hf pc
  have hs1 : Rooted p.impl.heap none (rootsOf []) := rooted_none p.impl.heap
  obtain ⟨h, root, hb1, hr1⟩ := buildLoop_spec (fun record hr => hs record (hm record hr)) hz hs1 hf'
  obtain ⟨used, hl1, hn, hb⟩ := hr1.linked
  have hc := counted_rootsOf (p.inserted sort table tid start fin)
  have hc1 : Capped (2^31-1) (rootsOf (p.inserted sort table tid start fin)) := by
    refine .intro (fun t ht => ?_) fun t ht => (hc t ht).2
    have := (hc t ht).1
    have := hf' t.label
    omega
  obtain ⟨fs, hv, hl2⟩ := hl1.framesLoop hc1 (by decide) (sort.sort (p.records tid start fin))
  have hl := length_le_of_bound hn hb
  have hf1 : h.framesLoop (sort.sort (p.records tid start fin)) h.next root.toList []=some fs := by
    have := hl2 (h.next-used.length) [] []
    rw [append_nil, Nat.add_sub_cancel' hl] at this
    rw [this]
    cases h.next-used.length <;> rfl
  refine ⟨fs, {p.impl with heap := h, root := none}, ?_, hv⟩
  have hb2 : p.impl.buildStackTree sort (p.records tid start fin) =
      some ({p.impl with heap := h, root := root}, sort.sort (p.records tid start fin)) := by
    unfold Impl.buildStackTree
    dsimp only
    rw [ht1, p.idle, hb1]
    rfl
  change (p.impl.buildStackTree sort (p.records tid start fin)).bind _=_
  rw [hb2, bind_some]
  unfold Impl.generateTreeStackFrames
  dsimp only
  rw [hf1]
  rfl

/-- Where no item of the pc 0 is looked at, the law of the sampled stack tree holds exactly where the pc of `root_`
leads throughout and the counts fit. -/
theorem treeLaw_iff (sort : SampleSort) (p : Printer) (htable : p.impl.uniqueStackTable=some table) (tid : ℤ)
    (beginTime endTime : ℕ) (hstored : ∀ record∈p.records tid beginTime endTime, Stored table record)
    (hzero : ClearFrom [] (p.inserted sort table tid beginTime endTime)) :
    (∃ frames s, p.impl.getSampledFramesByTid sort tid beginTime endTime=some (frames, s) ∧
        TreeLaw (p.samples table tid beginTime endTime) frames) ↔ Leads (p.inserted sort table tid beginTime endTime) ∧
        ∀ pc, weight (startingWith [pc] (p.samples table tid beginTime endTime)) < 2^31 := by
  have hp := p.inserted_perm sort table tid beginTime endTime
  have hw : ∀ word∈p.inserted sort table tid beginTime endTime, word.1≠[] := by
    intro word hw1
    obtain ⟨record, hr, rfl⟩ := mem_map.mp (hp.mem_iff.mp hw1)
    exact fun hn => (hstored record hr).nonempty (reverse_eq_nil_iff.mp hn)
  obtain ⟨hk, hl3⟩ := rootsOf_tracks hw
  constructor
  · rintro ⟨frames, s, hf, hl1⟩
    have hf1 := weight_lt_of_law hl1
    obtain ⟨ts, hv, hl1⟩ := hl1
    obtain ⟨frames', s', hf', hv'⟩ := getSampledFramesByTid_spec sort htable hstored hzero hf1
    obtain rfl : frames'=frames := (Prod.mk.inj (some.inj (hf'.symm.trans hf))).1
    have hl2 := map_injective_iff.mpr castCount_injective (hv'.symm.trans hv)
    have hc : (rootsOf (p.inserted sort table tid beginTime endTime)).map PrefixTree.count =
        ts.map PrefixTree.count := by
      rw [←filter_listing 0, ←filter_listing 0, hl2]
    refine ⟨by_contra fun hl => ?_, hf1⟩
    have hlt := hl3 hl
    rw [hc, hl1.total, weight_perm hp] at hlt
    exact hlt.false
  · rintro ⟨hl, hf1⟩
    obtain ⟨frames, s, hf, hv⟩ := getSampledFramesByTid_spec sort htable hstored hzero hf1
    have ht := hk hl
    exact ⟨frames, s, hf, _, hv, (ht.forest.prefixLaw ht.total).perm hp⟩

end Frames

/-! ## Some threads -/

def insertionSort : SampleSort where
  sort := List.insertionSort fun a b => b.snapshotTimes.length ≤ a.snapshotTimes.length
  perm := List.perm_insertionSort _
  sorted records := by
    have : Std.Total fun a b : StackRecord => b.snapshotTimes.length ≤ a.snapshotTimes.length :=
      ⟨fun a b => Nat.le_total _ _⟩
    have : IsTrans StackRecord fun a b => b.snapshotTimes.length ≤ a.snapshotTimes.length :=
      ⟨fun a b c hab hbc => hbc.trans hab⟩
    exact List.pairwise_insertionSort _ records

theorem SampleSort.sort_eq (sort sort' : SampleSort) {recs : List StackRecord}
    (hne : ∀ a∈recs, ∀ b∈recs, a.snapshotTimes.length=b.snapshotTimes.length → a=b) :
    sort.sort recs=sort'.sort recs := by
  refine List.Perm.eq_of_pairwise (fun a b ha hb hab hba => ?_) (sort.sorted recs) (sort'.sorted recs)
    ((sort.perm recs).trans (sort'.perm recs).symm)
  exact hne a ((sort.perm recs).mem_iff.mp ha) b ((sort'.perm recs).mem_iff.mp hb) (le_antisymm hba hab)

theorem getSampledFramesByTid_congr {sort sort' : SampleSort} (p : Printer) {tid : ℤ} {start fin : ℕ}
    (hs : sort.sort (p.records tid start fin)=sort'.sort (p.records tid start fin)) :
    p.impl.getSampledFramesByTid sort tid start fin = p.impl.getSampledFramesByTid sort' tid start fin := by
  have hb : p.impl.buildStackTree sort (p.records tid start fin) =
      p.impl.buildStackTree sort' (p.records tid start fin) := by
    unfold Impl.buildStackTree
    rw [hs]
  exact congrArg (fun built => built.bind fun b => b.1.generateTreeStackFrames b.2) hb

def sampledPrinter (samples : Words) : Printer :=
  samples.foldl (fun p stack => (List.range stack.2).foldl (fun p time => (p.putPcsInTable stack.1 7 time).2) p)
    (Printer.new.initUniqueTable initialTableSize true).2

def Printer.table (p : Printer) : UniqueStackTable :=
  p.impl.uniqueStackTable.getD {}

theorem Printer.table_of_isSome {p : Printer} (h : p.impl.uniqueStackTable.isSome=true) :
    p.impl.uniqueStackTable=some p.table := by
  obtain ⟨table, ht⟩ := isSome_iff_exists.mp h
  rw [Printer.table, ht]
  rfl

/-- The table keeps the pc `2 ^ 39` as 0. Its item stays the first child of the pc 16. -/
def zeroFirstPrinter : Printer :=
  sampledPrinter [([2^39, 16], 3), ([48, 16], 2)]

theorem leads_zero_first : Leads [([16, 0], 3), ([16, 48], 2)] := by
  refine (leads_append (cons_ne_nil ([16, 0], 3) []) ([16, 48], 2)).mpr ⟨leads_singleton 16 [0] 3, ?_⟩
  intro first hf pc
  obtain rfl : 16 = first := some.inj hf
  by_cases hpc : pc = 16
  · rw [hpc]
  · rw [← weight_behind, behind_append, behind_cons_word, behind_cons_word, if_neg (Ne.symm hpc),
      if_neg (Ne.symm hpc)]
    exact zero_le _

theorem treeLaw_zero_first :
    zeroFirstPrinter.samples zeroFirstPrinter.table 7 0 0 = [([16, 0], 3), ([16, 48], 2)] ∧
    ∃ frames s, zeroFirstPrinter.impl.getSampledFramesByTid insertionSort 7 0 0 = some (frames, s) ∧
      TreeLaw (zeroFirstPrinter.samples zeroFirstPrinter.table 7 0 0) frames := by
  have ht : zeroFirstPrinter.impl.uniqueStackTable.isSome = true := by decide +kernel
  have hs : zeroFirstPrinter.samples zeroFirstPrinter.table 7 0 0 = [([16, 0], 3), ([16, 48], 2)] := by
    decide +kernel
  have hi : zeroFirstPrinter.inserted insertionSort zeroFirstPrinter.table 7 0 0 = [([16, 0], 3), ([16, 48], 2)] := by
    decide +kernel
  have hf : ∀ record ∈ zeroFirstPrinter.records 7 0 0,
      (zeroFirstPrinter.table.getPcsByStackId record.stackId).1 = true ∧
        (zeroFirstPrinter.table.getPcsByStackId record.stackId).2 ≠ [] := by
    decide +kernel
  refine ⟨hs, (treeLaw_iff insertionSort zeroFirstPrinter (Printer.table_of_isSome ht) 7 0 0
    (fun record hr => ⟨(hf record hr).1, (hf record hr).2⟩) ?_).mpr ⟨hi ▸ leads_zero_first, fun pc => ?_⟩⟩
  · rw [hi]
    exact ⟨⟨by decide, by decide, by decide, by decide, trivial⟩, ⟨by decide, by decide, by decide, by decide, trivial⟩,
      trivial⟩
  · rw [hs]
    have hw : weight (startingWith [16] [(([16, 0] : List (BitVec 64)), 3), ([16, 48], 2)]) = 5 := by decide +kernel
    have hle := leads_zero_first 16 rfl _ (prefix_refl _) pc
    omega

theorem not_treeLaw_of_view {p : Printer} {views : List (ℕ×BitVec 64×ℤ)} {path : Path} (hp : path≠[])
    (hne : ∀ a∈p.records 7 0 0, ∀ b∈p.records 7 0 0, a.snapshotTimes.length=b.snapshotTimes.length → a=b)
    (hrun : (p.impl.getSampledFramesByTid insertionSort 7 0 0).map (fun res => res.1.map view)=some views)
    (hs : startingWith path (p.samples p.table 7 0 0)≠[])
    (hm : ∀ v∈views, v.2.2≠weight (startingWith path (p.samples p.table 7 0 0))) (sort : SampleSort) :
    ∃ fs s, p.impl.getSampledFramesByTid sort 7 0 0=some (fs, s) ∧ fs.map view=views ∧
      ¬TreeLaw (p.samples p.table 7 0 0) fs := by
  rw [getSampledFramesByTid_congr p (sort.sort_eq insertionSort hne)]
  obtain ⟨⟨fs, s⟩, hr, rfl⟩ := map_eq_some_iff.mp hrun
  refine ⟨fs, s, hr, rfl, fun hl => ?_⟩
  obtain ⟨frame, hf, hc⟩ := exists_frame_of_law hl hp hs
  exact hm (view frame) (mem_map_of_mem hf) hc

/-- The pc 32 overtakes `root_` with its second stack. -/
def overtakingPrinter : Printer :=
  sampledPrinter [([16], 4), ([48, 32], 3), ([64, 32], 2)]

/-- Here the item of the pc 0 is the second child, which the third stack goes past. -/
def zeroPcPrinter : Printer :=
  sampledPrinter [([48, 16], 3), ([2^39, 16], 2), ([32, 16], 1)]

/-- Two threads that break the law: in the first one five of the nine samples are lost; in the second one the item of
the pc 0 is taken for an empty one by the next stack. -/
theorem treeLaw_broken :
    (overtakingPrinter.samples overtakingPrinter.table 7 0 0=[([16], 4), ([32, 48], 3), ([32, 64], 2)] ∧
      ∀ sort, ∃ frames s, overtakingPrinter.impl.getSampledFramesByTid sort 7 0 0=some (frames, s) ∧
        frames.map view=[(0, 16, 4)] ∧ ¬TreeLaw (overtakingPrinter.samples overtakingPrinter.table 7 0 0) frames) ∧
    (zeroPcPrinter.samples zeroPcPrinter.table 7 0 0=[([16, 48], 3), ([16, 0], 2), ([16, 32], 1)] ∧
      ∀ sort, ∃ frames s, zeroPcPrinter.impl.getSampledFramesByTid sort 7 0 0=some (frames, s) ∧
        frames.map view=[(0, 16, 6), (1, 48, 3), (1, 32, 3)] ∧
        ¬TreeLaw (zeroPcPrinter.samples zeroPcPrinter.table 7 0 0) frames) := by
  refine ⟨⟨by decide +kernel, ?_⟩, by decide +kernel, ?_⟩
  · exact not_treeLaw_of_view (cons_ne_nil 32 []) (by decide +kernel) (by decide +kernel) (by decide +kernel)
      (by decide +kernel)
  · exact not_treeLaw_of_view (cons_ne_nil 16 [32]) (by decide +kernel) (by decide +kernel) (by decide +kernel)
      (by decide +kernel)

end Faultloggerd.StackPrinter
