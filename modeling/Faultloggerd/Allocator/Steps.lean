import Mathlib.Data.List.Perm.Subperm
import Faultloggerd.Allocator.Invariant

/-! # The entry points keep the invariant

Between calls each region is on the list its free blocks put it on (`Consistent`) and nothing is kept
for later (`Settled`). `Handed g b k` says that block `b` of `k` bytes is handed out. Every entry point
keeps the invariant, and adds or removes at most the block it returns or gets.
-/
namespace Faultloggerd.Allocator
open Foundations Function Region List PageInfo Option
open Foundations.FreeRuns (RunsAt blocks popRun)

variable {i p a b c k n : ℕ} {g g' : ℕ → Option Region} {r r' : Region} {s : Process}
  {rs : List (ℕ×ℕ)} {os : ℕ → Option ℕ}

/-! ## States between calls -/

def Region.listed : Region → Option ℕ
  | .pool _ [] => none
  | .pool i (_ :: _) => some i
  | .big _ => some 7

def onList (g : ℕ → Option Region) (p : ℕ) : Option ℕ := (g p).bind Region.listed

theorem onList_update (v : Option Region) : onList (update g p v)=update (onList g) p (v.bind listed) := by
  funext x
  by_cases hx : x=p
  · subst hx
    simp [onList]
  · simp [onList, update_of_ne hx]

def Consistent (s : Process) (g : ℕ → Option Region) : Prop := Shaped s g (onList g)

theorem consistent_update {v : Option Region} (h : Shaped s (update g p v) (update (onList g) p (v.bind listed))) :
    Consistent s (update g p v) := by
  rwa [Consistent, onList_update]

structure Settled (s : Process) (g : ℕ → Option Region) : Prop where
  freePagesCnt : ∀ i < 7, (s.dfxMempoolBuf i).freePagesCnt = 0
  used : ∀ {p i rs}, g p = some (.pool i rs) → (blocks (blockBytes i) rs).length < blockCount i

/-! ## Blocks handed out -/

def Handed (g : ℕ → Option Region) (b k : ℕ) : Prop :=
  ∃ p r, g p = some r ∧ Owns p r b ∧ r.room = k

theorem handed_split (b k : ℕ) : Handed g b k ↔ (∃ r, g p=some r ∧ Owns p r b ∧ r.room=k) ∨
      ∃ q r', q≠p ∧ g q=some r' ∧ Owns q r' b ∧ r'.room=k := by
  constructor
  · intro h
    obtain ⟨q, r', hq, ho⟩ := h
    by_cases hqp : q=p
    · subst hqp
      exact .inl ⟨r', hq, ho⟩
    · exact .inr ⟨q, r', hqp, hq, ho⟩
  · intro h
    obtain ⟨r, hr, ho⟩ | ⟨q, r', -, hq, ho⟩ := h
    · exact ⟨p, r, hr, ho⟩
    · exact ⟨q, r', hq, ho⟩

theorem handed_update (v : Option Region) (b k : ℕ) : Handed (update g p v) b k ↔
    (∃ r, v=some r ∧ Owns p r b ∧ r.room=k) ∨ ∃ q r', q≠p ∧ g q=some r' ∧ Owns q r' b ∧ r'.room=k := by
  rw [handed_split (p := p), update_self]
  refine or_congr_right (exists_congr fun q => exists_congr fun r' => and_congr_right fun hqp => ?_)
  rw [update_of_ne hqp]

structure HandsOut (g g' : ℕ → Option Region) (a k : ℕ) : Prop where
  fresh : ∀ n, ¬Handed g a n
  iff : ∀ b n, Handed g' b n ↔ Handed g b n ∨ (b=a ∧ k=n)

def TakesBack (g g' : ℕ → Option Region) (a : ℕ) : Prop :=
  ∀ b n, Handed g' b n ↔ Handed g b n ∧ b ≠ a

theorem Consistent.handed_bounds (h : Consistent s g) (hp : g p=some r) (hb : Owns p r b) :
    p+48≤b ∧ b+r.room≤p+r.size ∧ b<p+4096 :=
  (h.regions.ok hp).inside hb

theorem Consistent.owner_unique (h : Consistent s g) {q : ℕ} (hp : g p=some r) (hb : Owns p r b)
    (hq : g q=some r') (hb' : Owns q r' b) : p=q := by
  by_contra hne
  have ha := h.regions.apart hp hq hne
  have hp' := h.handed_bounds hp hb
  have hq' := h.handed_bounds hq hb'
  omega

/-! ## Pool pages -/

theorem owns_popRun (h : RegionOk s.mem p (.pool i ((a, c)::rs))) (b : ℕ) :
    Owns p (.pool i (popRun (blockBytes i) ((a, c)::rs))) b ↔ Owns p (.pool i ((a, c)::rs)) b ∨ b=a := by
  obtain ⟨-, -, ⟨-, -, hc, -⟩, -, hnd, hb1⟩ := h
  have hp : blocks (blockBytes i) ((a, c)::rs) =
      a::blocks (blockBytes i) (popRun (blockBytes i) ((a, c)::rs)) := FreeRuns.blocks_popRun hc
  rw [hp] at hnd hb1
  have ha := (nodup_cons.mp hnd).1
  simp only [Owns]
  rw [hp, mem_cons, not_or]
  constructor
  · intro hx
    obtain ⟨hb, hf⟩ := hx
    by_cases hba : b=a
    · exact .inr hba
    · exact .inl ⟨hb, hba, hf⟩
  · intro hx
    obtain ⟨hb, -, hf⟩ | rfl := hx
    · exact ⟨hb, hf⟩
    · exact ⟨hb1 b (by simp), ha⟩

theorem owns_give (b x : ℕ) : Owns p (.pool i ((b, 1)::rs)) x ↔ Owns p (.pool i rs) x ∧ x≠b := by
  simp only [Owns, FreeRuns.blocks_give, mem_cons, not_or]
  constructor
  · intro h
    obtain ⟨hx, hne, hf⟩ := h
    exact ⟨⟨hx, hf⟩, hne⟩
  · intro h
    obtain ⟨⟨hx, hf⟩, hne⟩ := h
    exact ⟨hx, hne, hf⟩

theorem freePagesCnt_setPool (j : ℕ) (mempool : DfxMempool) : ((s.setPool i mempool).dfxMempoolBuf j).freePagesCnt =
      if j=i then mempool.freePagesCnt else (s.dfxMempoolBuf j).freePagesCnt := by
  by_cases hj : j=i
  · subst hj
    simp [Process.setPool]
  · simp [Process.setPool, hj]

theorem freePagesCnt_mempoolRemovePage (j : ℕ) :
    ((mempoolRemovePage s i p).dfxMempoolBuf j).freePagesCnt=(s.dfxMempoolBuf j).freePagesCnt := by
  unfold mempoolRemovePage
  rw [freePagesCnt_setPool]
  split_ifs with hj
  · rw [hj]
  · rfl

theorem freePagesCnt_mempoolAddPage (j : ℕ) :
    ((mempoolAddPage s i p).dfxMempoolBuf j).freePagesCnt=(s.dfxMempoolBuf j).freePagesCnt := by
  unfold mempoolAddPage
  rw [freePagesCnt_setPool]
  split_ifs with hj
  · rw [hj]
  · rfl

theorem carveBlock_eq (hp : PoolOk i (s.dfxMempoolBuf i)) (hok : RegionOk s.mem p (.pool i ((a, c)::rs))) :
    carveBlock s i p =
      let s' := {s with mem := carvedMem s.mem i p}.setPool i
        (if (blocks (blockBytes i) ((a, c)::rs)).length=blockCount i then
          addFreePages (s.dfxMempoolBuf i) sizeMax else s.dfxMempoolBuf i)
      (if popRun (blockBytes i) ((a, c)::rs)=[] then mempoolRemovePage s' i p else s', a) := by
  have hc1 : takeBlock s.mem (blockBytes i) p (freeBlocksCnt p) =
      (blocks (blockBytes i) ((a, c)::rs)).length := takeBlock_count hok
  have hl : carvedMem s.mem i p (freeBlocksCnt p)=0 ↔
      popRun (blockBytes i) ((a, c)::rs)=[] := by
    obtain ⟨-, -, hr, hc, -⟩ := carvedMem_ok hok
    rw [←FreeRuns.blocks_eq_nil_iff (blockBytes i) hr, ←length_eq_zero_iff, ←hc]
    rfl
  have hh : s.mem (freeBlockList p)=a := hok.2.2.1.1
  have hm : memsetZero (countDown (takeBlock s.mem (blockBytes i) p) p) a (blockBytes i) =
      carvedMem s.mem i p := by
    rw [←hh]
    rfl
  simp [carveBlock, hp.blockSize, hp.blocksPerPage, hc1, hh, hm, hl]

theorem carveBlock_spec (h : Consistent s g) (hg : g p=some (.pool i ((a, c)::rs))) : (carveBlock s i p).2=a ∧
      Consistent (carveBlock s i p).1 (update g p (some (.pool i (popRun (blockBytes i) ((a, c)::rs))))) ∧
      ∀ j, ((carveBlock s i p).1.dfxMempoolBuf j).freePagesCnt =
        if j=i ∧ (blocks (blockBytes i) ((a, c)::rs)).length=blockCount i then
          ((s.dfxMempoolBuf i).freePagesCnt+sizeMax) % 2^64 else (s.dfxMempoolBuf j).freePagesCnt := by
  have hok := h.regions.ok hg
  have hi : i<7 := hok.2.1
  have hp := h.pools i hi
  -- the page and its pool change, the list aside
  have hw : Shaped {s with mem := carvedMem s.mem i p}
      (update g p (some (.pool i (popRun (blockBytes i) ((a, c)::rs))))) (onList g) := by
    refine h.write hg rfl (carvedMem_ok hok) (fun x hx => ?_) ⟨?_, ?_⟩
    · rw [size_pool] at hx
      exact carvedMem_frame hok (by omega)
    · exact carvedMem_frame hok (by omega)
    · exact carvedMem_frame hok (by omega)
  rw [carveBlock_eq hp hok]
  set mempool := if (blocks (blockBytes i) ((a, c)::rs)).length=blockCount i then
    addFreePages (s.dfxMempoolBuf i) sizeMax else s.dfxMempoolBuf i with hm
  have hp' : PoolOk i mempool ∧ mempool.pageList=(s.dfxMempoolBuf i).pageList := by
    rw [hm]
    split_ifs
    · exact ⟨hp.addFreePages _, pageList_addFreePages _ _⟩
    · exact ⟨hp, rfl⟩
  have hs := hw.setPool hi hp'.1 hp'.2
  have hl1 : onList g p=some i := by simp [onList, hg, listed]
  refine ⟨rfl, ?_, fun j => ?_⟩
  · apply consistent_update
    cases hp1 : popRun (blockBytes i) ((a, c)::rs) with
    | nil =>
      rw [hp1] at hs
      exact hs.mempoolRemovePage hi hl1
    | cons r rest =>
      rw [hp1] at hs
      have hs1 : update (onList g) p ((some (pool i (r::rest))).bind listed) =
          onList g := by
        rw [update_eq_self_iff, hl1]
        rfl
      rw [hs1]
      exact hs
  · trans (({s with mem := carvedMem s.mem i p}.setPool i mempool).dfxMempoolBuf j).freePagesCnt
    · split_ifs
      · exact freePagesCnt_mempoolRemovePage j
      · rfl
    rw [freePagesCnt_setPool, hm]
    by_cases hj : j=i
    · subst hj
      by_cases hl : (blocks (blockBytes j) ((a, c)::rs)).length=blockCount j
      · rw [if_pos rfl, if_pos hl, if_pos ⟨rfl, hl⟩]
        rfl
      · rw [if_pos rfl, if_neg hl, if_neg fun h => hl h.2]
    · rw [if_neg hj, if_neg fun h => hj h.1]

theorem Consistent.not_handed (h : Consistent s g) (hp : g p=some (.pool i rs))
    (ha : a∈blocks (blockBytes i) rs) (n : ℕ) : ¬Handed g a n := by
  intro hx
  obtain ⟨q, r, hq, ho, -⟩ := hx
  obtain ⟨-, hi, -, -, -, hb⟩ := h.regions.ok hp
  by_cases hqp : q=p
  · subst hqp
    rw [hp] at hq
    cases hq
    exact ho.2 ha
  · have ha1 := h.regions.apart hp hq fun he => hqp he.symm
    have hb1 := (hb a ha).bounds hi
    have hbounds' := h.handed_bounds hq ho
    rw [size_pool] at ha1
    omega

theorem handsOut_popRun (h : Consistent s g) (hg : g p=some (.pool i ((a, c)::rs))) :
    HandsOut g (update g p (some (.pool i (popRun (blockBytes i) ((a, c)::rs))))) a (blockBytes i) := by
  have hok := h.regions.ok hg
  have hc : 0<c := hok.2.2.1.2.2.1
  refine ⟨h.not_handed hg (by rw [FreeRuns.blocks_popRun hc]; simp), fun b n => ?_⟩
  rw [handed_update, handed_split (p := p)]
  simp only [hg, some.injEq, exists_eq_left', room_pool, owns_popRun hok]
  rw [or_and_right, or_right_comm]

theorem handed_freshPage (hn : g p=none) (b n : ℕ) :
    Handed (update g p (some (.pool i [(p+firstOffset i, blockCount i)]))) b n ↔ Handed g b n := by
  rw [handed_update, handed_split (p := p)]
  simp only [some.injEq, exists_eq_left', hn, Owns, mem_firstRun]
  tauto

theorem mempoolAllocPage_spec (h : Consistent s g) (hi : i<7) (hos : os 4096=some p) (hf : Fresh s p 4096) :
    Consistent (mempoolAllocPage s i os) (update g p (some (.pool i [(p+firstOffset i, blockCount i)]))) ∧
      ((mempoolAllocPage s i os).dfxMempoolBuf i).pageList=p ∧
      ∀ j, ((mempoolAllocPage s i os).dfxMempoolBuf j).freePagesCnt =
        if j=i then ((s.dfxMempoolBuf i).freePagesCnt+1) % 2^64 else (s.dfxMempoolBuf j).freePagesCnt := by
  have hp := h.pools i hi
  have hn : g p=none := h.unmapped_of_fresh (by decide) hf
  have hm : Shaped { s.mmap p 4096 with
        mem := fillPage (memsetZero s.mem p 4096) (s.dfxMempoolBuf i) p}
      (update g p (some (.pool i [(p+firstOffset i, blockCount i)]))) (onList g) := by
    refine Shaped.map h hf (fillPage_ok hi hf.2.1 hf.2.2.1 hp.type hp.blockSize
      hp.blocksPerPage) fun x hx => ?_
    rw [size_pool] at hx
    rw [fillPage_frame hi hf.2.1 hf.2.2.1 hp.blockSize hx, memsetZero_out hx]
  have ha := hm.mempoolAddPage hi (update_self _ _ _)
    (show onList g p=none by simp [onList, hn])
  have hp0 : p≠0 := hf.1
  unfold mempoolAllocPage
  rw [show dfxPageSize=4096 from rfl, hos]
  refine ⟨?_, ?_, fun j => ?_⟩
  · apply consistent_update
    exact ha.setPool hi ((ha.pools i hi).addFreePages 1) (pageList_addFreePages _ _)
  · simp [Process.setPool, addFreePages, mempoolAddPage, addPage, hp0]
  · rw [freePagesCnt_setPool]
    split_ifs with hj
    · simp only [addFreePages, freePagesCnt_mempoolAddPage]
      rfl
    · rw [freePagesCnt_mempoolAddPage]
      rfl

/-- What an allocation can do: fail with nothing changed, or hand out a block with room for `n`. -/
def Allocates (g : ℕ → Option Region) (n : ℕ) (result : Process×ℕ) : Prop :=
  (result.2=0 ∧ Consistent result.1 g ∧ Settled result.1 g) ∨
    ∃ g' k, result.2 ≠ 0 ∧ Consistent result.1 g' ∧ Settled result.1 g' ∧ HandsOut g g' result.2 k ∧ n ≤ k

theorem used_update {v : Option Region} (ho : ∀ {q j rs'}, q≠p → g q=some (.pool j rs') →
      (blocks (blockBytes j) rs').length<blockCount j)
    (hv : ∀ {j rs'}, v=some (.pool j rs') → (blocks (blockBytes j) rs').length<blockCount j)
    {q j : ℕ} {rs' : List (ℕ×ℕ)} (hq : update g p v q=some (.pool j rs')) :
    (blocks (blockBytes j) rs').length<blockCount j := by
  by_cases hqp : q=p
  · subst hqp
    rw [update_self] at hq
    exact hv hq
  · rw [update_of_ne hqp] at hq
    exact ho hqp hq

theorem HandsOut.of_iff {g0 : ℕ → Option Region} (h : HandsOut g g' a k)
    (hs : ∀ b n, Handed g b n ↔ Handed g0 b n) : HandsOut g0 g' a k where
  fresh := fun n hn => h.fresh n ((hs a n).mpr hn)
  iff := fun b n => (h.iff b n).trans (or_congr_left (hs b n))

theorem carveBlock_allocates {g0 : ℕ → Option Region} (h : Consistent s g) (hg : g p=some (.pool i ((a, c)::rs)))
    (hu : ∀ {q j rs'}, q≠p → g q=some (.pool j rs') → (blocks (blockBytes j) rs').length<blockCount j)
    (hle : (blocks (blockBytes i) ((a, c)::rs)).length≤blockCount i) (hc1 : ∀ j<7, (s.dfxMempoolBuf j).freePagesCnt =
      if j=i ∧ (blocks (blockBytes i) ((a, c)::rs)).length=blockCount i then 1 else 0)
    (hs : ∀ b n, Handed g b n ↔ Handed g0 b n) : Allocates g0 (blockBytes i) (carveBlock s i p) := by
  have hok := h.regions.ok hg
  have hi : i<7 := hok.2.1
  obtain ⟨-, ha, hc, -⟩ := hok.2.2.1
  obtain ⟨hr, h', hc1'⟩ := carveBlock_spec h hg
  refine .inr ⟨_, blockBytes i, by rw [hr]; exact ha, h',
    ⟨fun j hj => ?_, used_update hu fun {j rs'} hv => ?_⟩, ?_, le_rfl⟩
  · rw [hc1']
    split_ifs with hf
    · rw [hc1 i hi, if_pos ⟨rfl, hf.2⟩]
      rfl
    · rw [hc1 j hj, if_neg hf]
  · cases hv
    have hl : (blocks (blockBytes i) (popRun (blockBytes i) ((a, c)::rs))).length+1 =
        (blocks (blockBytes i) ((a, c)::rs)).length := by
      rw [FreeRuns.blocks_popRun hc, length_cons]
    omega
  · rw [hr]
    exact (handsOut_popRun h hg).of_iff hs

theorem mempoolAlloc_allocates (h : Consistent s g) (hs : Settled s g) (hi : i<7)
    (hos : ∀ p, os 4096=some p → Fresh s p 4096) : Allocates g (blockBytes i) (mempoolAlloc s i os) := by
  have hp := h.pools i hi
  obtain ⟨h16, -, -, -, hf1, -, hc1⟩ := pool_geometry hi
  have hbs : (s.dfxMempoolBuf i).blockSize≠0 := by
    rw [hp.blockSize]
    omega
  unfold mempoolAlloc
  rw [if_neg hbs]
  by_cases he : (s.dfxMempoolBuf i).pageList=0
  · rw [if_pos he]
    cases hm : os 4096 with
    | none =>
      have hs1 : mempoolAllocPage s i os=s := by
        unfold mempoolAllocPage
        rw [show dfxPageSize=4096 from rfl, hm]
      rw [hs1]
      rw [if_pos (.inl he)]
      exact .inl ⟨rfl, h, hs⟩
    | some p =>
      have hf := hos p hm
      have hn : g p=none := h.unmapped_of_fresh (by decide) hf
      obtain ⟨h1, hl2, hc⟩ := mempoolAllocPage_spec h hi hm hf
      have hh := (h1.regions.ok (update_self _ _ _)).2.2.1.1
      have hf2 : (blocks (blockBytes i) [(p+firstOffset i, blockCount i)]).length = blockCount i := by simp [blocks]
      dsimp only
      rw [hl2, if_neg (by rw [freeBlockList]; have := hf.1; omega)]
      refine carveBlock_allocates h1 (update_self _ _ _) (fun hq hg => ?_) hf2.le
        (fun j hj => ?_) (handed_freshPage hn)
      · rw [update_of_ne hq] at hg
        exact hs.used hg
      · rw [hc, hs.freePagesCnt i hi, hs.freePagesCnt j hj]
        simp only [hf2, and_true]
        rfl
  · rw [if_neg he]
    -- the head of the list is a page with a free block
    have hh := (h.lists i).head_mem (by rwa [heads_pool hi])
    rw [heads_pool hi] at hh
    obtain ⟨r, hr, hl⟩ := bind_eq_some_iff.mp hh
    obtain ⟨a, c, rs, rfl⟩ : ∃ a c rs, r=.pool i ((a, c)::rs) := by
      cases r with
      | pool j free =>
        cases free with
        | nil => cases hl
        | cons x rs =>
          cases hl
          exact ⟨x.1, x.2, rs, rfl⟩
      | big size =>
        cases hl
        omega
    obtain ⟨hf1, ha, -⟩ := (h.regions.ok hr).2.2.1
    have hl1 := hs.used hr
    rw [if_neg (by rw [freeBlockList, hf1]; exact fun hor => hor.elim he ha)]
    refine carveBlock_allocates h hr (fun _ hg => hs.used hg) hl1.le (fun j hj => ?_)
      fun _ _ => Iff.rfl
    rw [if_neg fun hor => hl1.ne hor.2]
    exact hs.freePagesCnt j hj

/-! ## Freeing a block of a pool -/

theorem owns_none_of_full {m : ℕ → ℕ} (h : RegionOk m p (.pool i rs))
    (hf1 : (blocks (blockBytes i) rs).length=blockCount i) (b : ℕ) : ¬Owns p (.pool i rs) b := by
  intro hyp
  obtain ⟨hb, hf⟩ := hyp
  obtain ⟨-, -, -, -, hnd, hb1⟩ := h
  have hs : blocks (blockBytes i) rs ⊆ blocks (blockBytes i) [(p+firstOffset i, blockCount i)] :=
    fun x hx => mem_firstRun.mpr (hb1 x hx)
  have hl : (blocks (blockBytes i) [(p+firstOffset i, blockCount i)]).length ≤
      (blocks (blockBytes i) rs).length := by simp [blocks, ←hf1]
  have hp := (hnd.subperm hs).perm_of_length_le hl
  exact hf (hp.mem_iff.mpr (mem_firstRun.mpr hb))

theorem Consistent.handed_elsewhere (h : Consistent s g) (hp : g p=some r) (hb : Owns p r b) {x : ℕ} :
    (∃ q r', q≠p ∧ g q=some r' ∧ Owns q r' x ∧ r'.room=n) → x≠b := by
  rintro ⟨q, r', hqp, hq, ho, -⟩ rfl
  exact hqp (h.owner_unique hq ho hp hb)

theorem takesBack_give (h : Consistent s g) (hp : g p=some (.pool i rs)) (hb : Owns p (.pool i rs) b) :
    TakesBack g (update g p (some (.pool i ((b, 1)::rs)))) b := by
  intro x n
  have he := h.handed_elsewhere (n := n) (x := x) hp hb
  rw [handed_update, handed_split (p := p)]
  simp only [hp, some.injEq, exists_eq_left', owns_give]
  constructor
  · intro hx
    obtain ⟨⟨ho, hne⟩, hk⟩ | ho1 := hx
    · exact ⟨.inl ⟨ho, hk⟩, hne⟩
    · exact ⟨.inr ho1, he ho1⟩
  · intro hx
    obtain ⟨⟨ho, hk⟩ | ho1, hne⟩ := hx
    · exact .inl ⟨⟨ho, hne⟩, hk⟩
    · exact .inr ho1

theorem takesBack_erase (h : Consistent s g) (hp : g p=some r) (hb : Owns p r b)
    (ho2 : ∀ x, Owns p r x → x=b) : TakesBack g (update g p none) b := by
  intro x n
  have he := h.handed_elsewhere (n := n) (x := x) hp hb
  rw [handed_update, handed_split (p := p)]
  simp only [hp, some.injEq, exists_eq_left', reduceCtorEq, false_and, exists_false, false_or]
  constructor
  · intro ho1
    exact ⟨.inr ho1, he ho1⟩
  · intro hx
    obtain ⟨⟨ho, -⟩ | ho1, hne⟩ := hx
    · exact absurd (ho2 x ho) hne
    · exact ho1

theorem freePagesCnt_munmap (n j : ℕ) :
    ((s.munmap p n).dfxMempoolBuf j).freePagesCnt=(s.dfxMempoolBuf j).freePagesCnt := by
  unfold Process.munmap
  split_ifs <;> rfl

theorem mempoolFreePage_spec {L : ℕ → Option ℕ} (h : Shaped s g L) (hp : g p=some (.pool i rs))
    (hL : L p=some i) (hf : (blocks (blockBytes i) rs).length=blockCount i) :
    Shaped (mempoolFreePage s i p) (update g p none) (update L p none) ∧
      ∀ j, ((mempoolFreePage s i p).dfxMempoolBuf j).freePagesCnt =
        if j=i then ((s.dfxMempoolBuf i).freePagesCnt+sizeMax) % 2^64 else (s.dfxMempoolBuf j).freePagesCnt := by
  have hok := h.regions.ok hp
  have hi : i<7 := hok.2.1
  have hc : s.mem (freeBlocksCnt p)=(s.dfxMempoolBuf i).blocksPerPage := by
    rw [(h.pools i hi).blocksPerPage, ←hf]
    exact hok.2.2.2.1
  have hg := (h.mempoolRemovePage hi hL).munmap hp (update_self _ _ _)
  unfold mempoolFreePage
  rw [if_neg (not_not.mpr hc)]
  refine ⟨?_, fun j => ?_⟩
  · exact hg.setPool hi ((hg.pools i hi).addFreePages sizeMax) (pageList_addFreePages _ _)
  · rw [freePagesCnt_setPool]
    split_ifs
    · simp [addFreePages, freePagesCnt_munmap, freePagesCnt_mempoolRemovePage]
    · rw [freePagesCnt_munmap, freePagesCnt_mempoolRemovePage]

theorem mempoolFree_spec (h : Consistent s g) (hs : Settled s g) (hp : g p=some (.pool i rs))
    (hb : Owns p (.pool i rs) b) :
    ∃ g', Consistent (mempoolFree s i b) g' ∧ Settled (mempoolFree s i b) g' ∧ TakesBack g g' b := by
  have hok := h.regions.ok hp
  have hi : i<7 := hok.2.1
  have hp1 := h.pools i hi
  have hp2 := h.regions.place hp
  have hb1 := hb.1.bounds hi
  obtain ⟨h16, -, -, -, -, -, hc1⟩ := pool_geometry hi
  have hl : (blocks (blockBytes i) ((b, 1)::rs)).length =
      (blocks (blockBytes i) rs).length+1 := by rw [FreeRuns.blocks_give, length_cons]
  have hu := hs.used hp
  have hok' := giveBlock_ok hok hb
  have hw : Shaped {s with mem := giveBlock s.mem (blockBytes i) p b}
      (update g p (some (.pool i ((b, 1)::rs)))) (onList g) := by
    refine h.write hp rfl hok' (fun x hx => ?_) ⟨?_, ?_⟩
    · rw [size_pool] at hx
      exact giveBlock_frame hi hb.1 (by omega)
    · exact giveBlock_frame hi hb.1 (by omega)
    · exact giveBlock_frame hi hb.1 (by omega)
  have hc : giveBlock s.mem (blockBytes i) p b (freeBlocksCnt p) =
      (blocks (blockBytes i) rs).length+1 := hok'.2.2.2.1.trans hl
  have hp3 : pageStart b=p := pageStart_eq hp2.2.1 (by omega) (by omega)
  have hv1 : ¬(b=0 ∨ blockBytes i=0 ∨ b % blockBytes i≠0) := by
    rw [Nat.mod_eq_zero_of_dvd (hb.1.dvd hi hp2.2.1)]
    omega
  unfold mempoolFree
  simp only [hp3, hp1.blockSize, hp1.blocksPerPage, hc, if_neg hv1]
  by_cases hf : (blocks (blockBytes i) rs).length+1=blockCount i
  · -- the last block of the page comes back: the page goes
    rw [if_pos hf]
    have hl1 : onList g p=some i := by
      cases rs with
      | nil =>
        have hn : (blocks (blockBytes i) []).length=0 := rfl
        omega
      | cons r rs => simp [onList, hp, listed]
    have hs2 := hw.setPool hi (hp1.addFreePages 1) (pageList_addFreePages _ _)
    have ho : (addFreePages (s.dfxMempoolBuf i) 1).freePagesCnt=1 := by
      simp [addFreePages, hs.freePagesCnt i hi]
    obtain ⟨hg, hc'⟩ := mempoolFreePage_spec hs2 (update_self _ _ _) hl1
      (hl.trans hf)
    rw [update_idem] at hg
    rw [if_pos (by rw [freePagesCnt_setPool, if_pos rfl, ho])]
    refine ⟨update g p none, ?_, ⟨fun j hj => ?_, used_update (fun _ hq => hs.used hq) fun hv => by cases hv⟩, ?_⟩
    · exact consistent_update hg
    · rw [hc', freePagesCnt_setPool, freePagesCnt_setPool, if_pos rfl, ho]
      split_ifs
      · rfl
      · exact hs.freePagesCnt j hj
    · apply takesBack_erase h hp hb
      intro x hx
      by_contra hne
      exact owns_none_of_full hok' (hl.trans hf) x ((owns_give b x).mpr ⟨hx, hne⟩)
  · rw [if_neg hf]
    have hs1 : ∀ s' : Process, (∀ j, (s'.dfxMempoolBuf j).freePagesCnt=(s.dfxMempoolBuf j).freePagesCnt) →
        Settled s' (update g p (some (.pool i ((b, 1)::rs)))) := by
      intro s' hs'
      refine ⟨fun j hj => (hs' j).trans (hs.freePagesCnt j hj), used_update (fun _ hq => hs.used hq) fun hv => ?_⟩
      cases hv
      omega
    refine ⟨_, ?_, ?_, takesBack_give h hp hb⟩
    · apply consistent_update
      cases rs with
      | nil =>
        exact hw.mempoolAddPage hi (update_self _ _ _)
          (show onList g p=none by simp [onList, hp, listed])
      | cons r rs =>
        have hs3 : update (onList g) p
            ((some (pool i ((b, 1)::r::rs))).bind listed)=onList g := by
          simp [onList, hp, listed]
        have hne : blocks (blockBytes i) (r::rs)≠[] := by
          rw [Ne, FreeRuns.blocks_eq_nil_iff _ hok.2.2.1]
          simp
        rw [hs3, if_neg (by simpa using hne)]
        exact hw
    · apply hs1 _
      intro j
      split_ifs
      · exact freePagesCnt_mempoolAddPage j
      · rfl

/-! ## Large blocks -/

theorem handsOut_big {size : ℕ} (h : Consistent s g) (hs : 48<size) (hf : Fresh s p size) :
    HandsOut g (update g p (some (.big size))) (p+48) (size-48) := by
  have hn : g p=none := h.unmapped_of_fresh (by omega) hf
  refine ⟨?_, fun b n => ?_⟩
  · rintro n ⟨q, r, hq, ho, -⟩
    have ha := hf.2.2.2 q r.size (by rw [h.mapped, hq]; rfl)
    have hb := h.handed_bounds hq ho
    omega
  · rw [handed_update, handed_split (p := p)]
    simp only [hn, some.injEq, exists_eq_left', reduceCtorEq, false_and, exists_false, false_or]
    exact or_comm

theorem allocMmap_allocates (h : Consistent s g) (hs : Settled s g) (hn : 1024<n)
    (hos : ∀ size p, 0<size → 4096∣size → os size=some p → Fresh s p size) :
    Allocates g n (allocMmap s alignSize n os) := by
  have hh : alignRoundUp pageInfoSize alignSize=48 := by decide
  unfold allocMmap
  simp only [hh]
  by_cases hb : 48+n ≥ 2^64 ∨ pageEnd (48+n)<48+n
  · rw [if_pos hb]
    exact .inl ⟨rfl, h, hs⟩
  rw [if_neg hb]
  have hge : 48+n≤pageEnd (48+n) := by omega
  have hd : 4096 ∣ pageEnd (48+n) := Nat.dvd_mul_left _ _
  generalize pageEnd (48+n)=size at hge hd
  cases hm : os size with
  | none => exact .inl ⟨rfl, h, hs⟩
  | some p =>
    have hf := hos size p (by omega) hd hm
    obtain ⟨hp0, hp1, hlt, -⟩ := id hf
    have hp : getPageUnchecked (p+48)=p := getPageUnchecked_eq hp1 le_rfl (by omega) (by omega)
    have hn1 : g p=none := h.unmapped_of_fresh (by omega) hf
    have hm1 : Shaped {s.mmap p size with mem := fillMmapPage (memsetZero s.mem p size) p size}
        (update g p (some (.big size))) (onList g) := by
      apply Shaped.map h hf (fillMmapPage_ok (by omega))
      intro x hx
      have hx' : x<p ∨ p+size≤x := hx
      rw [fillMmapPage_frame (by omega), memsetZero_out hx']
    have ha := hm1.addPage (update_self _ _ _)
      (show onList g p=none by simp [onList, hn1])
    dsimp only
    rw [hp]
    refine .inr ⟨_, size-48, by omega, consistent_update ha, ⟨fun j hj => hs.freePagesCnt j hj,
      used_update (fun _ hq => hs.used hq) fun hv => by cases hv⟩, handsOut_big h (by omega) hf,
      by omega⟩

end Faultloggerd.Allocator
