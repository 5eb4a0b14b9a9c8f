import Faultloggerd.Allocator.Layout

/-! # The invariant of the allocator

`Shaped s g L` relates a process to a division `g` of its mappings into regions and to the list `L`
that each region is on: 0 to 6 for the pools, 7 for the large blocks. Each primitive of the allocator
keeps it with `g` and `L` changed at one region. At rest a region is on the list of its pool exactly
if it has free blocks (`onList`), no page is without a block handed out, and the counters of free pages
are zero (`Settled`).
-/
namespace Faultloggerd.Allocator
open Foundations Function Option PageInfo Process Allocator
open Foundations.FreeRuns (RunsAt blocks popRun)
open Foundations.DoublyLinked (Family)

variable {i p q a b n : ℕ} {m m' : ℕ → ℕ} {g : ℕ → Option Region} {r r' : Region}

structure Regions (m : ℕ → ℕ) (g : ℕ → Option Region) : Prop where
  place : ∀ {p r}, g p = some r → p ≠ 0 ∧ 4096 ∣ p ∧ p+r.size ≤ 2^64
  apart : ∀ {p q r r'}, g p = some r → g q = some r' → p ≠ q → p+r.size ≤ q ∨ q+r'.size ≤ p
  ok : ∀ {p r}, g p = some r → RegionOk m p r

theorem RegionOk.size_gt (h : RegionOk m p r) : 1024+48< r.size := by
  cases r with
  | pool i free => simp [Region.size]
  | big size => exact h.2.2

theorem RegionOk.room_pos (h : RegionOk m p r) : 0< r.room := by
  cases r with
  | pool i free => exact Nat.two_pow_pos _
  | big size =>
    have hs : 1024+48<size := h.size_gt
    grind

theorem Regions.congr (h : Regions m g) (hm : ∀ {p r}, g p=some r → ∀ a, p≤a → a<p+r.size → a≠p+16 → a≠p+24 →
      (∀ b, Owns p r b → a<b ∨ b+r.room≤a) → m' a=m a) : Regions m' g where
  place := h.place
  apart := h.apart
  ok := fun hp => (h.ok hp).congr (hm hp)

theorem Regions.relink (h : Regions m g) (hm : ∀ a, (∀ x, g x≠none → a≠x+16 ∧ a≠x+24) → m' a=m a) : Regions m' g := by
  refine h.congr fun {p r} hp a h1 h2 h3 h4 _ => hm a fun x hx => ?_
  by_cases hxp : x=p
  · subst hxp
    exact ⟨h3, h4⟩
  · obtain ⟨rx, hrx⟩ := ne_none_iff_exists'.mp hx
    have ha := h.apart hp hrx fun he => hxp he.symm
    have hs := (h.ok hrx).size_gt
    omega

theorem update_eq_some {v : Option Region} (hq : update g p v q=some r) : q=p ∧ v=some r ∨ q≠p ∧ g q=some r := by
  rw [update_apply] at hq
  split_ifs at hq with hqp
  · exact .inl ⟨hqp, hq⟩
  · exact .inr ⟨hqp, hq⟩

theorem Regions.set (h : Regions m g) (hp : p≠0 ∧ 4096∣p ∧ p+r.size≤2^64)
    (hf : ∀ {q r'}, q≠p → g q=some r' → p+r.size≤q ∨ q+r'.size≤p)
    (hok : RegionOk m' p r) (hm : ∀ a, a<p ∨ p+r.size≤a → m' a=m a) : Regions m' (update g p (some r)) := by
  constructor
  · intro q r' hq
    obtain ⟨rfl, ⟨⟩⟩ | ⟨-, hq⟩ := update_eq_some hq
    · exact hp
    · exact h.place hq
  · intro x y rx ry hx hy hxy
    obtain ⟨rfl, ⟨⟩⟩ | ⟨hxp, hgx⟩ := update_eq_some hx
    · obtain ⟨rfl, -⟩ | ⟨hyp, hy⟩ := update_eq_some hy
      · exact absurd rfl hxy
      · exact hf hyp hy
    · obtain ⟨rfl, ⟨⟩⟩ | ⟨-, hy⟩ := update_eq_some hy
      · exact (hf hxp hgx).symm
      · exact h.apart hgx hy hxy
  · intro q r' hq
    obtain ⟨rfl, ⟨⟩⟩ | ⟨hqp, hq⟩ := update_eq_some hq
    · exact hok
    · refine (h.ok hq).congr fun a h1 h2 _ _ _ => hm a ?_
      have := hf hqp hq
      omega

theorem Regions.erase (h : Regions m g) : Regions m (update g p none) := by
  have hs : ∀ {q r'}, update g p none q=some r' → g q=some r' := by grind
  exact ⟨fun hq => h.place (hs hq), fun hx hy => h.apart (hs hx) (hs hy), fun hq => h.ok (hs hq)⟩

theorem Regions.links (h : Regions m g) (hf : ∀ {q r'}, q≠p → g q=some r' → p+n≤q ∨ q+r'.size≤p)
    (hm : ∀ a, a<p ∨ p+n≤a → m' a=m a) (ho : g p≠none → m' (p+16)=m (p+16) ∧ m' (p+24)=m (p+24)) :
    ∀ x, g x≠none → m' (prev x)=m (prev x) ∧ m' (next x)=m (next x) := by
  intro x hx
  by_cases hxp : x=p
  · subst hxp
    exact ho hx
  · obtain ⟨rx, hrx⟩ := ne_none_iff_exists'.mp hx
    have ha := hf hxp hrx
    have hs := (h.ok hrx).size_gt
    simp only [prev, next]
    exact ⟨hm _ (by omega), hm _ (by omega)⟩

def Process.heads (s : Process) (j : ℕ) : ℕ :=
  if j < 7 then (s.dfxMempoolBuf j).pageList else if j = 7 then s.pageList else 0

structure PoolOk (i : ℕ) (mempool : DfxMempool) : Prop where
  type : mempool.type = i+4
  blockSize : mempool.blockSize = blockBytes i
  blocksPerPage : mempool.blocksPerPage = blockCount i

structure Shaped (s : Process) (g : ℕ → Option Region) (L : ℕ → Option ℕ) : Prop where
  initFlag : s.initFlag = true
  pools : ∀ i < 7, PoolOk i (s.dfxMempoolBuf i)
  mapped : ∀ p, s.mappings p = (g p).map Region.size
  regions : Regions s.mem g
  lists : Family PageInfo.prev PageInfo.next s.mem s.heads L
  listed : ∀ x, L x ≠ none → g x ≠ none

variable {s : Process} {L : ℕ → Option ℕ}

theorem heads_setPool (hi : i<7) (mempool : DfxMempool) :
    (s.setPool i mempool).heads=update s.heads i mempool.pageList := by
  funext j
  by_cases hj : j=i
  · subst hj
    simp [heads, setPool, hi]
  · simp [heads, setPool, update_of_ne hj]

theorem Shaped.node (h : Shaped s g L) : ∀ x, L x≠none → 4096∣x := by
  intro x hx
  obtain ⟨r, hr⟩ := ne_none_iff_exists'.mp (h.listed x hx)
  exact (h.regions.place hr).2.1

theorem Shaped.setPool (h : Shaped s g L) (hi : i<7) {mempool : DfxMempool}
    (hok : PoolOk i mempool) (hl : mempool.pageList=(s.dfxMempoolBuf i).pageList) :
    Shaped (s.setPool i mempool) g L where
  initFlag := h.initFlag
  pools := (forall_update_iff s.dfxMempoolBuf fun j mempool => j<7 → PoolOk j mempool).mpr
    ⟨fun _ => hok, fun j _ => h.pools j⟩
  mapped := h.mapped
  regions := h.regions
  lists := by
    have hh : update s.heads i mempool.pageList=s.heads := by
      rw [hl]
      simp [heads, hi]
    rw [heads_setPool hi, hh]
    exact h.lists
  listed := h.listed

theorem pageList_addFreePages (mempool : DfxMempool) (d : ℕ) :
    (addFreePages mempool d).pageList=mempool.pageList := rfl

theorem PoolOk.addFreePages {mempool : DfxMempool} (h : PoolOk i mempool) (d : ℕ) :
    PoolOk i (addFreePages mempool d) := ⟨h.type, h.blockSize, h.blocksPerPage⟩

theorem Shaped.write (h : Shaped s g L) (hp : g p=some r) (hs : r'.size=r.size)
    (hok : RegionOk m' p r') (hm : ∀ a, a<p ∨ p+r.size≤a → m' a=s.mem a)
    (hl : m' (p+16)=s.mem (p+16) ∧ m' (p+24)=s.mem (p+24)) : Shaped {s with mem := m'} (update g p (some r')) L := by
  have hf : ∀ {q r''}, q≠p → g q=some r'' → p+r.size≤q ∨ q+r''.size≤p := fun hq hr => h.regions.apart hp hr hq.symm
  refine ⟨h.initFlag, h.pools, ?_, ?_, ?_, ?_⟩
  · refine (forall_update_iff g fun q r => s.mappings q=r.map Region.size).mpr ⟨?_, fun q _ => h.mapped q⟩
    simp [h.mapped, hp, hs]
  · exact h.regions.set (hs ▸ h.regions.place hp) (hs ▸ hf) hok (hs ▸ hm)
  · have hk := h.regions.links hf hm fun _ => hl
    exact h.lists.congr fun x hx => hk x (h.listed x hx)
  · exact (forall_update_iff g fun x r => L x≠none → r≠none).mpr ⟨by simp, fun x _ => h.listed x⟩

def Fresh (s : Process) (base size : ℕ) : Prop :=
  base ≠ 0 ∧ 4096 ∣ base ∧ base+size ≤ 2^64 ∧ ∀ q size', s.mappings q = some size' → base+size ≤ q ∨ q+size' ≤ base

theorem Shaped.unmapped_of_fresh (h : Shaped s g L) (hn : 0<n) (hf : Fresh s p n) : g p=none := by
  cases hp : g p with
  | none => rfl
  | some r =>
    have hs := (h.regions.ok hp).size_gt
    have := hf.2.2.2 p r.size (by rw [h.mapped, hp]; rfl)
    omega

theorem Shaped.map (h : Shaped s g L) (hf : Fresh s p r.size) (hok : RegionOk m' p r)
    (hm : ∀ a, a<p ∨ p+r.size≤a → m' a=s.mem a) : Shaped {s.mmap p r.size with mem := m'} (update g p (some r)) L := by
  have hn : g p=none := h.unmapped_of_fresh (by have := hok.size_gt; omega) hf
  have hf1 : ∀ {q r'}, q≠p → g q=some r' → p+r.size≤q ∨ q+r'.size≤p := fun _ hr =>
    hf.2.2.2 _ _ (by rw [h.mapped, hr]; rfl)
  refine ⟨h.initFlag, h.pools, fun q => ?_, ?_, ?_, fun x hx => ?_⟩
  · simp only [mmap, update_apply]
    split_ifs
    · rfl
    · exact h.mapped q
  · exact h.regions.set ⟨hf.1, hf.2.1, hf.2.2.1⟩ hf1 hok hm
  · have hk := h.regions.links hf1 hm fun hp => absurd hn hp
    exact h.lists.congr fun x hx => hk x (h.listed x hx)
  · have hxp : x≠p := fun he => h.listed x hx (he ▸ hn)
    rw [update_of_ne hxp]
    exact h.listed x hx

theorem Shaped.munmap (h : Shaped s g L) (hp : g p=some r) (hL : L p=none) :
    Shaped (s.munmap p r.size) (update g p none) L := by
  have hm : s.mappings p=some r.size := by rw [h.mapped, hp]; rfl
  rw [Process.munmap, if_pos hm]
  refine ⟨h.initFlag, h.pools, fun q => ?_, h.regions.erase, h.lists, fun x hx => ?_⟩
  · simp only [update_apply]
    split_ifs
    · rfl
    · exact h.mapped q
  · have hxp : x≠p := fun he => hx (he ▸ hL)
    rw [update_of_ne hxp]
    exact h.listed x hx

theorem Shaped.relist (h : Shaped s g L) {s' : Process} {L' : ℕ → Option ℕ} (hp : g p≠none)
    (hi : s'.initFlag=s.initFlag) (hp1 : ∀ i<7, PoolOk i (s'.dfxMempoolBuf i))
    (hm : s'.mappings=s.mappings) (hL : ∀ x, x≠p → L' x=L x) (hl : Family prev next s'.mem s'.heads L')
    (hf : ∀ a, (∀ y, L y≠none ∨ y=p → a≠prev y ∧ a≠next y) → s'.mem a=s.mem a) : Shaped s' g L' where
  initFlag := hi.trans h.initFlag
  pools := hp1
  mapped := by
    intro q
    rw [hm]
    exact h.mapped q
  regions := by
    refine h.regions.relink fun a ha => hf a ?_
    rintro y (hy | rfl)
    · exact ha y (h.listed y hy)
    · exact ha y hp
  lists := hl
  listed := by
    intro x hx
    by_cases hxp : x=p
    · rw [hxp]
      exact hp
    · rw [hL x hxp] at hx
      exact h.listed x hx

theorem heads_pool (hi : i<7) : s.heads i=(s.dfxMempoolBuf i).pageList := if_pos hi

theorem pools_setPageList (h : Shaped s g L) (j head : ℕ) : ∀ i<7,
    PoolOk i (update s.dfxMempoolBuf j {s.dfxMempoolBuf j with pageList := head} i) :=
  (forall_update_iff s.dfxMempoolBuf fun i mempool => i<7 → PoolOk i mempool).mpr
    ⟨fun hj => ⟨(h.pools j hj).type, (h.pools j hj).blockSize, (h.pools j hj).blocksPerPage⟩, fun i _ => h.pools i⟩

theorem Shaped.mempoolAddPage (h : Shaped s g L) (hi : i<7) (hp : g p=some r)
    (hL : L p=none) : Shaped (mempoolAddPage s i p) g (update L p (some i)) := by
  obtain ⟨hp0, hd, -⟩ := h.regions.place hp
  obtain ⟨hl, hf⟩ := h.lists.pushFront (j := i) page_cells h.node hd hp0 hL
  rw [heads_pool hi] at hl hf
  unfold Allocator.mempoolAddPage addPage
  rw [if_neg hp0]
  refine h.relist (p := p) (by rw [hp]; simp) rfl (pools_setPageList h i p) rfl
    (fun x hx => update_of_ne hx _ _) ?_ hf
  rw [heads_setPool hi]
  exact hl

theorem Shaped.mempoolRemovePage (h : Shaped s g L) (hi : i<7) (hL : L p=some i) :
    Shaped (mempoolRemovePage s i p) g (update L p none) := by
  have hp := h.listed p (by rw [hL]; simp)
  obtain ⟨r, hr⟩ := ne_none_iff_exists'.mp hp
  obtain ⟨hl, hf⟩ := h.lists.unlink page_cells h.node hL
  rw [heads_pool hi] at hl hf
  unfold Allocator.mempoolRemovePage removePage
  rw [if_neg (h.regions.place hr).1]
  refine h.relist hp rfl (pools_setPageList h i _) rfl (fun x hx => update_of_ne hx _ _) ?_
    fun a ha => hf a fun y hy => ha y (.inl hy)
  rw [heads_setPool hi]
  exact hl

theorem heads_setPageList (head : ℕ) : {s with mem := m, pageList := head}.heads=update s.heads 7 head := by
  funext j
  by_cases hj : j=7
  · subst hj
    rfl
  · simp [heads, hj]

theorem Shaped.addPage (h : Shaped s g L) (hp : g p=some r) (hL : L p=none) : Shaped {s with
        mem := (addPage s.mem s.pageList p).1
        pageList := (addPage s.mem s.pageList p).2} g (update L p (some 7)) := by
  obtain ⟨hp0, hd, -⟩ := h.regions.place hp
  obtain ⟨hl, hf⟩ := h.lists.pushFront (j := 7) page_cells h.node hd hp0 hL
  unfold Allocator.addPage
  rw [if_neg hp0]
  refine h.relist (p := p) (by rw [hp]; simp) rfl h.pools rfl
    (fun x hx => update_of_ne hx _ _) ?_ hf
  rw [heads_setPageList]
  exact hl

theorem Shaped.removePage (h : Shaped s g L) (hL : L p=some 7) : Shaped {s with
        mem := (removePage s.mem s.pageList p).1
        pageList := (removePage s.mem s.pageList p).2} g (update L p none) ∧
      (removePage s.mem s.pageList p).1 (p+8)=s.mem (p+8) := by
  have hp := h.listed p (by rw [hL]; simp)
  obtain ⟨r, hr⟩ := ne_none_iff_exists'.mp hp
  obtain ⟨hl, hf⟩ := h.lists.unlink page_cells h.node hL
  unfold Allocator.removePage
  rw [if_neg (h.regions.place hr).1]
  constructor
  · refine h.relist hp rfl h.pools rfl (fun x hx => update_of_ne hx _ _) ?_
      fun a ha => hf a fun y hy => ha y (.inl hy)
    rw [heads_setPageList]
    exact hl
  · apply hf
    intro y hy
    have hd := h.node y hy
    have hdvd' := (h.regions.place hr).2.1
    grind

end Faultloggerd.Allocator
