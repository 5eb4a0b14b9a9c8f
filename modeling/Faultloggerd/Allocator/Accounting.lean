import Faultloggerd.Allocator.Separation

/-! # The accounts of the pools

Between calls the list of a pool holds exactly its pages with a free block, the counter of a page and its free list
agree with the blocks the program does not hold, and a page without a held block is not kept.
-/
namespace Faultloggerd.Allocator
open Foundations List PageInfo
open Foundations.FreeRuns (RunsAt)

def Process.IsPage (s : Process) (i p : ℕ) : Prop :=
  s.mappings p ≠ none ∧ tagType s.mem p = i+dfxMempoolMinType

def World.liveIn (w : World) (p : ℕ) : List ℕ := (w.live.map Prod.fst).filter fun b => pageStart b = p

/-- The page lists and the counters of the pools agree with the blocks that the program holds; when it holds none,
nothing is mapped. -/
structure Accounts (w : World) : Prop where
  pageList : ∀ i < dfxMempoolsNum, DoublyLinked.Listed PageInfo.prev PageInfo.next w.process.mem
    (w.process.dfxMempoolBuf i).pageList fun p => w.process.IsPage i p ∧ w.process.mem (freeBlocksCnt p) ≠ 0
  freeBlocksCnt : ∀ i < dfxMempoolsNum, ∀ p, w.process.IsPage i p →
    w.process.mem (freeBlocksCnt p) = (w.process.dfxMempoolBuf i).blocksPerPage-(w.liveIn p).length ∧
      (w.liveIn p).length ≤ (w.process.dfxMempoolBuf i).blocksPerPage ∧
      ∃ runs, RunsAt w.process.mem (w.process.mem (freeBlockList p)) runs ∧
        w.process.mem (PageInfo.freeBlocksCnt p) = (runs.map Prod.snd).sum
  freePagesCnt : ∀ i < dfxMempoolsNum, ∃ pages : List ℕ, pages.Nodup ∧
    (∀ p, p∈pages ↔ w.process.IsPage i p ∧ w.liveIn p=[]) ∧ (w.process.dfxMempoolBuf i).freePagesCnt = pages.length
  unmapped : w.live = [] → ∀ p, w.process.mappings p = none

variable {i p : ℕ} {g : ℕ → Option Region} {s : Process} {w : World} {rs : List (ℕ×ℕ)}

theorem Consistent.isPage_iff (h : Consistent s g) (hi : i<7) : s.IsPage i p ↔ ∃ rs, g p=some (.pool i rs) := by
  rw [Process.IsPage, h.mapped]
  cases hp : g p with
  | none => simp
  | some r =>
    rw [(tag_read (h.regions.ok hp)).2]
    cases r with
    | pool j rs => simp [Region.type, dfxMempoolMinType]
    | big size =>
      simp only [Region.type, dfxMempoolMinType, Option.some.injEq, reduceCtorEq, exists_false, iff_false]
      omega

theorem Tracks.liveIn_perm (h : Consistent w.process g) (ht : Tracks g w.live) (hp : g p=some (.pool i rs)) :
    w.liveIn p++FreeRuns.blocks (blockBytes i) rs ~
      FreeRuns.blocks (blockBytes i) [(p+firstOffset i, blockCount i)] := by
  obtain ⟨-, hi, -, -, hnd, hb2⟩ := h.regions.ok hp
  have hd := (h.regions.place hp).2.1
  have hl : ∀ b, b∈w.liveIn p ↔ Owns p (.pool i rs) b := by
    intro b
    rw [World.liveIn, mem_filter, ht.exact, decide_eq_true_eq]
    constructor
    · rintro ⟨⟨k, q, r, hq, ho, -⟩, hp1⟩
      have hb1 := h.handed_bounds hq ho
      rw [pageStart_eq (h.regions.place hq).2.1 (by omega) hb1.2.2] at hp1
      subst hp1
      cases hp.symm.trans hq
      exact ho
    · intro ho
      have hb1 := h.handed_bounds hp ho
      exact ⟨⟨_, p, _, hp, ho, rfl⟩, pageStart_eq hd (by omega) hb1.2.2⟩
  refine (perm_ext_iff_of_nodup ?_ (firstRun_nodup hi)).mpr fun b => ?_
  · refine nodup_append.mpr ⟨ht.nodup.filter _, hnd, fun b hb c hc => ?_⟩
    rintro rfl
    exact ((hl b).mp hb).2 hc
  · rw [mem_append, hl, mem_firstRun, Owns]
    by_cases hb : b∈FreeRuns.blocks (blockBytes i) rs
    · simp [hb, hb2 b hb]
    · simp [hb]

theorem Tracks.freeBlocksCnt (h : Consistent w.process g) (ht : Tracks g w.live) (hp : g p=some (.pool i rs)) :
    (w.liveIn p).length+w.process.mem (p+40)=blockCount i := by
  rw [(h.regions.ok hp).2.2.2.1, ←length_append, (ht.liveIn_perm h hp).length_eq]
  simp [FreeRuns.blocks]

theorem Good.accounts (h : Good w) : Accounts w := by
  obtain hs1 | ⟨g, hc, hs, ht⟩ := h
  · rw [hs1]
    refine ⟨fun i _ => ⟨[], nodup_nil, fun p => ?_, DoublyLinked.linked_nil.mpr rfl⟩, fun i _ p hp => absurd rfl hp.1,
      fun i _ => ⟨[], nodup_nil, fun p => ?_, rfl⟩, fun _ _ => rfl⟩
    all_goals simp [World.start, Process.start, Process.IsPage]
  have hl : ∀ {i p rs}, g p=some (.pool i rs) → w.liveIn p≠[] := by
    intro i p rs hp hn
    have hc1 := ht.freeBlocksCnt hc hp
    have hu := hs.used hp
    rw [hn, (hc.regions.ok hp).2.2.2.1, length_nil] at hc1
    omega
  refine ⟨fun i hi => ?_, fun i hi p hp => ?_, fun i hi => ⟨[], nodup_nil, fun p => ?_, hs.freePagesCnt i hi⟩,
    fun hn p => ?_⟩
  · rw [←heads_pool hi]
    refine (hc.lists i).of_iff fun p => ?_
    rw [hc.isPage_iff hi, onList]
    cases hp : g p with
    | none => simp
    | some r =>
      have hok := hc.regions.ok hp
      cases r with
      | pool j rs =>
        have hn : w.process.mem (PageInfo.freeBlocksCnt p)=0 ↔ rs=[] := by
          rw [←FreeRuns.blocks_eq_nil_iff (blockBytes j) hok.2.2.1, ←length_eq_zero_iff]
          exact hok.2.2.2.1.congr_left
        cases rs <;> simp [hn, Region.listed]
      | big size =>
        have hne : 7≠i := Nat.ne_of_gt hi
        simp [Region.listed, hne]
  · obtain ⟨rs, hp⟩ := (hc.isPage_iff hi).mp hp
    have hc1 := ht.freeBlocksCnt hc hp
    obtain ⟨-, -, hr, hl1, -⟩ := hc.regions.ok hp
    rw [(hc.pools i hi).blocksPerPage]
    refine ⟨?_, by omega, rs, hr, ?_⟩
    · exact Nat.eq_sub_of_add_eq' hc1
    · exact hl1.trans (by simp [FreeRuns.blocks])
  · rw [hc.isPage_iff hi]
    simp only [not_mem_nil, false_iff, not_and]
    rintro ⟨rs, hp⟩
    exact hl hp
  · rw [hc.mapped]
    cases hp : g p with
    | none => rfl
    | some r =>
      cases r with
      | pool i rs => exact absurd (by rw [World.liveIn, hn]; rfl) (hl hp)
      | big size =>
        have hm := (ht.exact (p+48)).mpr ⟨_, p, _, hp, rfl, rfl⟩
        rw [hn] at hm
        cases hm

/-- The accounts are right after every valid run from the start of the process. -/
theorem pool_accounts (mem : ℕ → ℕ) (calls : List Call) (h : ValidRun (World.start mem) calls) :
    Accounts ((World.start mem).run calls) := (run_good (good_start mem) h).accounts

theorem pool_accounts_two : ((World.start fun _ => 0).run twoBlocks).liveIn 0x10000 = [0x10040, 0x10030] ∧
    Accounts ((World.start fun _ => 0).run twoBlocks) := ⟨by decide +kernel, pool_accounts _ _ twoBlocks_valid⟩

end Faultloggerd.Allocator
