import Faultloggerd.Allocator.Steps

/-! # `DfxAlloc`, `DfxFree` and `DfxRealloc` between settled states

What the entry points return and do to the blocks handed out: `DfxAlloc` fails or hands out a fresh
block with enough room, `DfxFree` of a block takes exactly that block back, and `DfxRealloc` leaves the
old block, or takes it back for a fresh one.
-/
namespace Faultloggerd.Allocator
open Foundations Region Nat
open Foundations.FreeRuns (blocks)

variable {i p a b k n : ℕ} {g g' : ℕ → Option Region} {r : Region} {s : Process}
  {os : ℕ → Option ℕ}

theorem tag_read {m : ℕ → ℕ} (h : RegionOk m p r) : tagInfo m p=dfxMemPageSign ∧ tagType m p=r.type := by
  have ht : m (PageInfo.tag p)=dfxMemPageSign+r.type*2^32 := h.1
  unfold tagInfo tagType
  rw [ht, dfxMemPageSign]
  constructor <;> omega

theorem Consistent.getPage_eq (h : Consistent s g) (hp : g p=some r) (hb : Owns p r b) : getPage s b=p := by
  obtain ⟨-, hd, hlt⟩ := h.regions.place hp
  obtain ⟨h1, h2, h3⟩ := h.handed_bounds hp hb
  have hp1 : getPageUnchecked b=p := getPageUnchecked_eq hd h1 h3 (by omega)
  unfold getPage
  rw [hp1]
  exact if_neg (not_not.mpr (tag_read (h.regions.ok hp)).1)

theorem pool_type (hi : i<7) : i+4≠dfxMmapType ∧ dfxMempoolMinType≤ i+4 ∧
    i+4≤dfxMempoolMaxType ∧ i+4-dfxMempoolMinType=i := by
  unfold dfxMmapType dfxMempoolMinType dfxMempoolMaxType
  omega

theorem Consistent.getChunkSize_eq (h : Consistent s g) (hp : g p=some r) (hb : Owns p r b) :
    getChunkSize s b=r.room := by
  obtain ⟨hp0, -, hlt⟩ := h.regions.place hp
  have hok := h.regions.ok hp
  have hb1 := h.handed_bounds hp hb
  unfold getChunkSize
  rw [if_neg (by omega)]
  simp only [h.getPage_eq hp hb, (tag_read hok).2]
  cases r with
  | pool i rs =>
    have hi : i<7 := hok.2.1
    obtain ⟨hm, hm2, hm1, hi1⟩ := pool_type hi
    rw [show (Region.pool i rs).type=i+4 from rfl, if_neg (by omega), if_neg hm]
    exact (h.pools i hi).blockSize
  | big size =>
    obtain ⟨-, hs, hl⟩ := hok
    rw [show (Region.big size).type=dfxMmapType from rfl, show s.mem (PageInfo.mMapAllocSize p)=size from hs]
    grind

theorem dfxFree_spec (h : Consistent s g) (hs : Settled s g) (hb : Handed g b k) :
    ∃ g', Consistent (dfxFree s b) g' ∧ Settled (dfxFree s b) g' ∧ TakesBack g g' b := by
  obtain ⟨p, r, hp, ho, -⟩ := hb
  have hp0 := (h.regions.place hp).1
  have hok := h.regions.ok hp
  have hb1 := h.handed_bounds hp ho
  unfold dfxFree
  rw [if_neg (by rw [h.initFlag]; simp), if_neg (by omega)]
  simp only [h.getPage_eq hp ho, (tag_read hok).2, if_neg hp0]
  cases r with
  | pool i rs =>
    have hi : i<7 := hok.2.1
    obtain ⟨hm, hm2, hm1, hi1⟩ := pool_type hi
    rw [show (pool i rs).type=i+4 from rfl, if_neg hm, if_pos ⟨hm1, hm2⟩]
    exact mempoolFree_spec h hs hp ho
  | big size =>
    obtain ⟨-, hs1, -⟩ := hok
    have hl : onList g p=some 7 := by simp [onList, hp, listed]
    obtain ⟨hr, hk⟩ := h.removePage hl
    have hg := hr.munmap hp (Function.update_self _ _ _)
    have hr1 : (removePage s.mem s.pageList p).1 (PageInfo.mMapAllocSize p)=(big size).size := hk.trans hs1
    rw [if_pos (by rfl), hr1]
    refine ⟨Function.update g p none, consistent_update hg, ⟨fun j hj => ?_, ?_⟩, ?_⟩
    · rw [freePagesCnt_munmap]
      exact hs.freePagesCnt j hj
    · exact used_update (fun _ hq => hs.used hq) fun hv => by cases hv
    · exact takesBack_erase h hp ho fun x hx => hx.trans ho.symm

theorem selectLoop_spec (rounds res : ℕ) (hn : n<2^rounds) :
    ∃ d, selectLoop rounds res n=res+d ∧ n<2^d ∧ ∀ e, n<2^e → d≤e := by
  induction rounds generalizing res n with
  | zero => refine ⟨0, rfl, hn, fun e _ => zero_le e⟩
  | succ rounds ih =>
    unfold selectLoop
    by_cases h0 : n=0
    · rw [if_pos h0]
      exact ⟨0, rfl, by simp [h0], fun e _ => zero_le e⟩
    rw [if_neg h0, shiftRight_one]
    obtain ⟨d, hd, hlt, hm⟩ := ih (n := n/2) (res+1) (by grind)
    refine ⟨d+1, by omega, by omega, fun e he => ?_⟩
    cases e with
    | zero => omega
    | succ e =>
      have := hm e (by grind)
      omega

theorem selectMempoolType_spec (h1 : 1≤n) (h2 : n≤1024) :
    max (selectMempoolType n) dfxMempoolMinType-dfxMempoolMinType<7 ∧
      n≤blockBytes (max (selectMempoolType n) dfxMempoolMinType-dfxMempoolMinType) := by
  have hp : (n+sizeMax) % 2^64=n-1 := by
    unfold sizeMax
    omega
  obtain ⟨d, hd, hlt, hm1⟩ := selectLoop_spec (n := n-1) 64 0 (by omega)
  have hd10 : d≤10 := hm1 10 (by omega)
  have ht : selectMempoolType n=d := by
    unfold selectMempoolType
    rw [hp, hd, zero_add]
  have hm : max d 4-4+4=max d 4 := by omega
  have hp1 : 2^d≤2^max d 4 := Nat.pow_le_pow_right (by decide) (le_max_left _ _)
  rw [ht]
  unfold dfxMempoolMinType blockBytes
  rw [hm]
  constructor <;> omega

def OsOk (s : Process) (os : ℕ → Option ℕ) : Prop :=
  ∀ size p, 0 < size → 4096 ∣ size → os size = some p → Fresh s p size

theorem ensureInit_eq (h : s.initFlag=true) : ensureInit s=s := if_pos h

theorem dfxAlloc_allocates (h : Consistent s g) (hs : Settled s g) (hos : OsOk s os) :
    Allocates g (max n 1) (dfxAlloc s n os) := by
  have hs1 : (if n=0 then 1 else n)=max n 1 := by
    split_ifs <;> omega
  unfold dfxAlloc allocImpl
  simp only [ensureInit_eq h.initFlag, hs1, dfxMempoolMaxBlockSize]
  by_cases hb : max n 1 > 1024
  · rw [if_pos hb]
    exact allocMmap_allocates h hs hb hos
  · rw [if_neg hb]
    obtain ⟨hi, hr⟩ := selectMempoolType_spec (n := max n 1) (by omega) (by omega)
    rcases mempoolAlloc_allocates h hs hi (fun p hp => hos 4096 p (by decide) (by decide) hp) with
      hfail | ⟨g', k, h0, hc, hs', ho, hk⟩
    · exact .inl hfail
    · exact .inr ⟨g', k, h0, hc, hs', ho, hr.trans hk⟩

theorem initDfxAllocator_consistent (hm : ∀ p, s.mappings p=none) (hl : s.pageList=0) :
    Consistent (initDfxAllocator s) (fun _ => none) ∧ Settled (initDfxAllocator s) (fun _ => none) := by
  have hp1 : ∀ i<7, (initDfxAllocator s).dfxMempoolBuf i = ⟨i+4, blockBytes i, blockCount i, 0, 0⟩ := by
    intro i hi
    rw [←initMempool_eq]
    exact if_pos hi
  have hh : ∀ j, (initDfxAllocator s).heads j=0 := by
    intro j
    unfold Process.heads
    split_ifs with h7 h7'
    · rw [hp1 j h7]
    · exact hl
    · rfl
  constructor
  · refine ⟨rfl, fun i hi => ?_, fun p => hm p, ⟨?_, ?_, ?_⟩, fun j => ?_, fun x hx => absurd rfl hx⟩
    · rw [hp1 i hi]
      exact ⟨rfl, rfl, rfl⟩
    · intro p r hp
      cases hp
    · intro p q r r' hp
      cases hp
    · intro p r hp
      cases hp
    · rw [hh]
      refine ⟨[], List.nodup_nil, fun x => ?_, DoublyLinked.linked_nil.mpr rfl⟩
      simp [onList]
  · refine ⟨fun i hi => ?_, fun hp => by cases hp⟩
    rw [hp1 i hi]

theorem Consistent.overwrite (h : Consistent s g) (hb : Handed g b k) {m' : ℕ → ℕ}
    (hm : ∀ a, a<b ∨ b+k≤a → m' a=s.mem a) : Consistent {s with mem := m'} g := by
  obtain ⟨q, r', hq, ho, rfl⟩ := hb
  have hin := h.handed_bounds hq ho
  refine ⟨h.initFlag, h.pools, h.mapped, ?_, ?_, h.listed⟩
  · refine h.regions.congr fun {p r} hp a h1 h2 _ _ h5 => hm a ?_
    by_cases hpq : p=q
    · subst hpq
      rw [hq] at hp
      cases hp
      exact h5 b ho
    · have := h.regions.apart hp hq hpq
      omega
  · apply h.lists.congr
    intro x hx
    obtain ⟨r, hr⟩ := Option.ne_none_iff_exists'.mp (h.listed x hx)
    have ho1 : x+24<b ∨ b+r'.room≤x+16 := by
      by_cases hxq : x=q
      · omega
      · have := h.regions.apart hr hq hxq
        omega
    exact ⟨hm (x+16) (by omega), hm (x+24) (by omega)⟩

theorem memcpyS_frame {m : ℕ → ℕ} {dest destMax src count : ℕ} (hle : count≤destMax)
    (ha : a<dest ∨ dest+destMax≤a) : memcpyS m dest destMax src count a=m a := by
  unfold memcpyS
  split_ifs
  · rfl
  · exact memsetZero_out ha
  · exact if_neg (by omega)

theorem dfxRealloc_spec (h : Consistent s g) (hs : Settled s g) (hos : OsOk s os) (hb : Handed g b k) :
    let result := dfxRealloc s b n os
    ((result.2=0 ∨ result.2=b) ∧ Consistent result.1 g ∧ Settled result.1 g) ∨
      ∃ g1 g2 k', result.2≠0 ∧ HandsOut g g1 result.2 k' ∧ max n 1≤k' ∧ TakesBack g1 g2 b ∧
        Consistent result.1 g2 ∧ Settled result.1 g2 := by
  obtain ⟨p, r, hp, ho, hk⟩ := id hb
  have hb2 := h.handed_bounds hp ho
  have hr1 := (h.regions.ok hp).room_pos
  have hc : getChunkSize s b=k := (h.getChunkSize_eq hp ho).trans hk
  unfold dfxRealloc
  simp only [ensureInit_eq h.initFlag, if_neg (show b≠0 by omega), hc]
  by_cases hn : n=0
  · rw [if_pos hn]
    exact .inl ⟨.inl rfl, h, hs⟩
  rw [if_neg hn, if_neg (show k≠0 by omega)]
  by_cases hg : k<n
  · rw [if_pos hg]
    obtain ⟨hn1, h', hs'⟩ | ⟨g1, k', hr, h', hs', ho1, hk'⟩ := dfxAlloc_allocates (n := n) h hs hos
    · rw [if_neg (not_not.mpr hn1)]
      exact .inl ⟨.inr rfl, h', hs'⟩
    rw [if_pos hr]
    -- the copy stays inside the new block
    have hn2 : Handed g1 (dfxAlloc s n os).2 k' := (ho1.iff _ _).mpr (.inr ⟨rfl, rfl⟩)
    have hc1 : Consistent { (dfxAlloc s n os).1 with
        mem := memcpyS (dfxAlloc s n os).1.mem (dfxAlloc s n os).2 n b k} g1 :=
      h'.overwrite hn2 fun a ha => memcpyS_frame hg.le (by omega)
    have hs1 : Settled { (dfxAlloc s n os).1 with
        mem := memcpyS (dfxAlloc s n os).1.mem (dfxAlloc s n os).2 n b k} g1 := ⟨hs'.freePagesCnt, hs'.used⟩
    obtain ⟨g2, h2, hs2, hb1⟩ := dfxFree_spec hc1 hs1 ((ho1.iff b k).mpr (.inl hb))
    exact .inr ⟨g1, g2, k', hr, ho1, hk', hb1, h2, hs2⟩
  · rw [if_neg hg]
    exact .inl ⟨.inr rfl, h, hs⟩

end Faultloggerd.Allocator
