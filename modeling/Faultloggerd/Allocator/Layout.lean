import Mathlib.Tactic.IntervalCases
import Mathlib.Tactic.Ring
import Faultloggerd.Allocator.Model

/-! # What mapped memory is divided into

A mapping is a page of one of the pools, with the runs of its free blocks, or it holds one large block
(`Region`). `RegionOk` says how a region stands in memory and `Owns` which blocks of it are handed
out. `RegionOk.congr` is the frame rule of this development: a region is read only outside its links
and outside the blocks it handed out.
-/
namespace Faultloggerd.Allocator
open Foundations Function FreeRuns List PageInfo Nat
open Foundations.FreeRuns (RunsAt blocks popRun Spaced)

variable {i p a b c : ℕ} {m m' : ℕ → ℕ}

theorem pageStart_eq (hp : 4096∣p) (h1 : p≤a) (h2 : a<p+4096) : pageStart a=p := by
  unfold pageStart dfxPageSize
  omega

theorem pageInfoSize_eq : pageInfoSize=48 := by decide

theorem getPageUnchecked_eq (hp : 4096∣p) (h1 : p+48≤b) (h2 : b<p+4096) (h3 : b<2^64) : getPageUnchecked b=p := by
  unfold getPageUnchecked
  rw [pageInfoSize_eq]
  exact pageStart_eq hp (by omega) (by omega)

theorem page_cells : DoublyLinked.Cells (fun p => 4096∣p) PageInfo.prev PageInfo.next where
  prev_inj := by
    intro x y _ _ h
    simpa only [PageInfo.prev, add_right_cancel_iff] using h
  next_inj := by
    intro x y _ _ h
    simpa only [PageInfo.next, add_right_cancel_iff] using h
  prev_ne_next := by
    grind

/-- The size of the blocks of pool `i`, how many a page has, and where they start. -/
def blockBytes (i : ℕ) : ℕ := 2^(i+4)

def blockCount (i : ℕ) : ℕ := (4096-48)/blockBytes i

def firstOffset (i : ℕ) : ℕ := alignRoundUp 48 (blockBytes i)

theorem initMempool_eq (i : ℕ) : initMempool i=⟨i+4, blockBytes i, blockCount i, 0, 0⟩ := by
  simp only [initMempool, one_shiftLeft]
  rfl

theorem pool_geometry (hi : i<7) : 16≤blockBytes i ∧ 16∣blockBytes i ∧ blockBytes i∣4096 ∧ blockBytes i∣firstOffset i ∧
      48≤firstOffset i ∧ firstOffset i+blockBytes i*blockCount i=4096 ∧ 2≤blockCount i := by
  interval_cases i <;> decide

def IsBlock (i p b : ℕ) : Prop := ∃ k < blockCount i, b = p+firstOffset i+blockBytes i*k

theorem IsBlock.bounds (hi : i<7) (h : IsBlock i p b) : p+48≤b ∧ b+blockBytes i≤p+4096 := by
  obtain ⟨k, hk, rfl⟩ := h
  obtain ⟨-, -, -, -, hf, hs, -⟩ := pool_geometry hi
  have hle : blockBytes i*(k+1)≤blockBytes i*blockCount i := mul_le_mul_left _ hk
  grind

theorem IsBlock.dvd (hi : i<7) (hp : 4096∣p) (h : IsBlock i p b) : blockBytes i∣b := by
  obtain ⟨k, -, rfl⟩ := h
  obtain ⟨-, -, hp1, hf, -⟩ := pool_geometry hi
  exact Nat.dvd_add (Nat.dvd_add (hp1.trans hp) hf) (Nat.dvd_mul_right _ _)

theorem IsBlock.apart (ha : IsBlock i p a) (hb : IsBlock i p b) (hne : a≠b) : a+blockBytes i≤b ∨ b+blockBytes i≤a := by
  obtain ⟨j, -, rfl⟩ := ha
  obtain ⟨k, -, rfl⟩ := hb
  have key : ∀ j k : ℕ, j<k → blockBytes i*j+blockBytes i≤blockBytes i*k := by
    intro j k hjk
    exact mul_le_mul_left _ hjk
  obtain hjk | rfl | hjk := lt_trichotomy j k
  · have := key j k hjk
    omega
  · exact absurd rfl hne
  · have := key k j hjk
    omega

theorem alignRoundUp_first (hi : i<7) (hp : 4096∣p) (hlt : p+4096≤2^64) :
    alignRoundUp (p+48) (blockBytes i)=p+firstOffset i := by
  obtain ⟨h16, -, hp1, -⟩ := pool_geometry hi
  obtain ⟨k, rfl⟩ := hp1.trans hp
  have hs : blockBytes i*k+48+blockBytes i-1<2^64 := by
    interval_cases i <;> simp only [blockBytes] at hlt ⊢ <;> omega
  unfold firstOffset alignRoundUp
  simp only [if_neg (show blockBytes i≠0 by omega)]
  rw [mod_eq_of_lt hs, mod_eq_of_lt (by omega),
    show blockBytes i*k+48+blockBytes i-1=48+blockBytes i-1+blockBytes i*k by omega, add_mul_div_left _ _ (by omega)]
  ring

theorem mem_firstRun : b∈blocks (blockBytes i) [(p+firstOffset i, blockCount i)] ↔ IsBlock i p b := by
  simp [blocks, mem_range', IsBlock]

theorem firstRun_nodup (hi : i<7) : (blocks (blockBytes i) [(p+firstOffset i, blockCount i)]).Nodup := by
  have h16 := (pool_geometry hi).1
  simp only [blocks, flatMap_cons, flatMap_nil, append_nil]
  exact nodup_range' _ (by omega)

inductive Region where
  | pool (i : ℕ) (free : List (ℕ×ℕ))
  | big (size : ℕ)

@[grind] def Region.size : Region → ℕ
  | .pool _ _ => 4096
  | .big size => size

@[grind] def Region.room : Region → ℕ
  | .pool i _ => blockBytes i
  | .big size => size-48

def Region.type : Region → ℕ
  | .pool i _ => i+4
  | .big _ => 111

theorem size_pool (free : List (ℕ×ℕ)) : (Region.pool i free).size=4096 := rfl

theorem room_pool (free : List (ℕ×ℕ)) : (Region.pool i free).room=blockBytes i := rfl

def Owns (p : ℕ) : Region → ℕ → Prop
  | .pool i free, b => IsBlock i p b ∧ b ∉ blocks (blockBytes i) free
  | .big _, b => b = p+48

def RegionOk (m : ℕ → ℕ) (p : ℕ) (r : Region) : Prop :=
  m p = dfxMemPageSign+r.type*2^32 ∧
  match r with
  | .pool i free =>
    i < 7 ∧ RunsAt m (m (p+32)) free ∧ m (p+40) = (blocks (blockBytes i) free).length ∧
      (blocks (blockBytes i) free).Nodup ∧ ∀ b ∈ blocks (blockBytes i) free, IsBlock i p b
  | .big size => m (p+8) = size ∧ 1024+48 < size

variable {r : Region}

theorem RegionOk.inside (h : RegionOk m p r) (hb : Owns p r b) : p+48≤b ∧ b+r.room≤p+r.size ∧ b<p+4096 := by
  cases r with
  | pool i free =>
    obtain ⟨-, hi, -⟩ := h
    have hb1 := hb.1.bounds hi
    have h16 := (pool_geometry hi).1
    exact ⟨hb1.1, hb1.2, by omega⟩
  | big size =>
    obtain ⟨-, -, hs⟩ := h
    obtain rfl : b=p+48 := hb
    grind

theorem RegionOk.owned_apart (h : RegionOk m p r) (ha : Owns p r a) (hb : Owns p r b) (hne : a≠b) :
    a+r.room≤b ∨ b+r.room≤a := by
  cases r with
  | pool i free => exact ha.1.apart hb.1 hne
  | big size => exact absurd (ha.trans hb.symm) hne

/-- A region is read only outside its links and the blocks it handed out. -/
theorem RegionOk.congr (h : RegionOk m p r) (hm : ∀ a, p≤a → a<p+r.size → a≠p+16 → a≠p+24 →
      (∀ b, Owns p r b → a<b ∨ b+r.room≤a) → m' a=m a) : RegionOk m' p r := by
  have hh : ∀ d, d<48 ∧ d< r.size ∧ d≠16 ∧ d≠24 → m' (p+d)=m (p+d) := by
    intro d hd
    refine hm _ (by omega) (by omega) (by omega) (by omega) fun b hb => .inl ?_
    have := (h.inside hb).1
    omega
  cases r with
  | pool i free =>
    obtain ⟨ht, hi, hr, hc, hnd, hb1⟩ := h
    rw [size_pool] at hh
    refine ⟨(hh 0 (by decide)).trans ht, hi, ?_, ?_, hnd, hb1⟩
    · rw [hh 32 (by decide)]
      apply hr.congr (blockBytes i)
      intro x hx
      have hbx := hb1 x hx
      have hb2 := hbx.bounds hi
      have h16 := (pool_geometry hi).1
      have hf : ∀ a, x≤a → a<x+blockBytes i → m' a=m a := by
        intro a h1 h2
        apply hm a (by omega) (by grind) (by omega) (by omega)
        intro b hb
        have := hb.1.apart hbx fun he => hb.2 (he ▸ hx)
        grind
      exact ⟨hf x (by omega) (by omega), hf _ (by omega) (by omega)⟩
    · rw [hh 40 (by decide), hc]
  | big size =>
    obtain ⟨ht, hs, hl⟩ := h
    simp only [Region.size] at hh
    exact ⟨(hh 0 (by omega)).trans ht, (hh 8 (by omega)).trans hs, hl⟩

theorem memsetZero_out {dest count : ℕ} (h : a<dest ∨ dest+count≤a) :
    memsetZero m dest count a=m a := if_neg (by omega)

theorem memsetZero_in {dest count : ℕ} (h1 : dest≤a) (h2 : a<dest+count) :
    memsetZero m dest count a=0 := if_pos ⟨h1, h2⟩

theorem countDown_of_ne (h : a≠p+40) : countDown m p a=m a := by
  unfold countDown
  split_ifs
  · exact update_of_ne h _ _
  · rfl

theorem countDown_self : countDown m p (p+40)=m (p+40)-1 := by
  unfold countDown
  split_ifs with h
  · exact update_self _ _ _
  · have h0 : m (p+40)=0 := Nat.eq_zero_of_not_pos h
    rw [h0]

section Pool
variable {rs : List (ℕ×ℕ)}

theorem RegionOk.spaced (h : RegionOk m p (.pool i rs)) : Spaced (blockBytes i) (blocks (blockBytes i) rs) := by
  obtain ⟨-, -, -, -, -, hb⟩ := h
  exact fun x hx y hy hne => (hb x hx).apart (hb y hy) hne

def carvedMem (m : ℕ → ℕ) (i p : ℕ) : ℕ → ℕ :=
  memsetZero (countDown (takeBlock m (blockBytes i) p) p) (m (p+32)) (blockBytes i)

section

variable (h : RegionOk m p (.pool i ((a, c)::rs)))
include h

theorem takeBlock_frame {x : ℕ} (hx : (x<p+48 ∨ p+4096≤x) ∧ x≠p+32) : takeBlock m (blockBytes i) p x=m x := by
  obtain ⟨-, hi, ⟨hh, -, -, hc, -⟩, -, -, hb⟩ := h
  have h16 := (pool_geometry hi).1
  unfold takeBlock
  simp only [freeBlockList, hh]
  rw [update_of_ne hx.2]
  apply takeFront_frame
  intro h1
  -- the node for the rest of the run is a block of the page
  have hn : a+blockBytes i∈blocks (blockBytes i) ((a, c)::rs) := by
    rw [blocks_cons, mem_append]
    exact .inl (mem_range'.mpr ⟨1, hc ▸ h1, by rw [mul_one]⟩)
  have := (hb _ hn).bounds hi
  omega

theorem takeBlock_count : takeBlock m (blockBytes i) p (p+40)=(blocks (blockBytes i) ((a, c)::rs)).length := by
  rw [takeBlock_frame h (by omega)]
  exact h.2.2.2.1

theorem carvedMem_frame {x : ℕ} (hx : (x<p+48 ∨ p+4096≤x) ∧ x≠p+32 ∧ x≠p+40) : carvedMem m i p x=m x := by
  have ht := takeBlock_frame h (x := x) (by omega)
  obtain ⟨-, hi, ⟨hh, -, hc, -⟩, -, -, hb⟩ := h
  have hb1 := (hb a (by rw [blocks_popRun hc]; simp)).bounds hi
  unfold carvedMem
  rw [memsetZero_out (by omega), countDown_of_ne hx.2.2, ht]

theorem carvedMem_ok : RegionOk (carvedMem m i p) p (.pool i (popRun (blockBytes i) ((a, c)::rs))) := by
  have hf := fun x => carvedMem_frame h (x := x)
  have hc1 := takeBlock_count h
  have hs := h.spaced
  obtain ⟨ht1, hi, hr, -, hnd, hb⟩ := h
  have hh : m (p+32)=a := hr.1
  have h16 := (pool_geometry hi).1
  rw [hh] at hr
  have hp : blocks (blockBytes i) ((a, c)::rs) = a::blocks (blockBytes i) (popRun (blockBytes i) ((a, c)::rs)) :=
    blocks_popRun hr.2.2.1
  have hr1 := takeFront_runsAt h16 hnd hs hr
  have hm : ∀ x∈blocks (blockBytes i) (popRun (blockBytes i) ((a, c)::rs)),
      x∈blocks (blockBytes i) ((a, c)::rs) ∧ x≠a := by grind
  have ha : a∈blocks (blockBytes i) ((a, c)::rs) := by rw [hp]; simp
  have hb1 := (hb a ha).bounds hi
  have hc : ∀ x, x<a ∨ a+blockBytes i≤x → x≠p+40 → carvedMem m i p x=takeBlock m (blockBytes i) p x := by
    intro x hx hn
    unfold carvedMem
    rw [hh, memsetZero_out hx, countDown_of_ne hn]
  have ht : ∀ x, x≠p+32 → takeBlock m (blockBytes i) p x = (takeFront (blockBytes i) m a).1 x := by
    intro x hx
    unfold takeBlock
    simp only [freeBlockList, hh]
    exact update_of_ne hx _ _
  have hl : carvedMem m i p (p+32)=(takeFront (blockBytes i) m a).2 := by
    rw [hc _ (by omega) (by omega)]
    unfold takeBlock
    simp only [freeBlockList, hh]
    exact update_self _ _ _
  refine ⟨(hf p (by omega)).trans ht1, hi, ?_, ?_, ?_, ?_⟩
  · rw [hl]
    apply hr1.congr (blockBytes i)
    intro x hx
    obtain ⟨hx, hne⟩ := hm x hx
    have hxb := (hb x hx).bounds hi
    have ha1 := hs x hx a ha hne
    constructor <;> rw [hc _ (by omega) (by omega), ht _ (by omega)]
  · unfold carvedMem
    rw [memsetZero_out (by omega), countDown_self, hc1, hp]
    rfl
  · rw [hp] at hnd
    exact (nodup_cons.mp hnd).2
  · exact fun x hx => hb x (hm x hx).1

end

theorem giveBlock_frame (hi : i<7) (hb : IsBlock i p b) {x : ℕ}
    (hx : (x<p+48 ∨ p+4096≤x) ∧ x≠p+32 ∧ x≠p+40) : giveBlock m (blockBytes i) p b x=m x := by
  have hb1 := hb.bounds hi
  have h16 := (pool_geometry hi).1
  simp only [giveBlock, freeBlockList, freeBlocksCnt]
  rw [update_of_ne hx.2.2, update_of_ne hx.2.1, giveBack_frame (by omega), memsetZero_out (by omega)]

theorem giveBlock_ok (h : RegionOk m p (.pool i rs)) (hb : Owns p (.pool i rs) b) :
    RegionOk (giveBlock m (blockBytes i) p b) p (.pool i ((b, 1)::rs)) := by
  obtain ⟨ht, hi, hr, hc, hnd, hb2⟩ := h
  obtain ⟨hb1, hf⟩ := hb
  have hb4 := hb1.bounds hi
  have h16 := (pool_geometry hi).1
  have ha : ∀ x∈blocks (blockBytes i) rs, x+blockBytes i≤b ∨ b+blockBytes i≤x :=
    fun x hx => (hb2 x hx).apart hb1 fun he => hf (he ▸ hx)
  -- clearing the block touches neither the header nor a free block
  have hruns' : RunsAt (memsetZero m b (blockBytes i)) (m (p+32)) rs := hr.congr (blockBytes i) fun x hx => by
      have := ha x hx
      exact ⟨memsetZero_out (by omega), memsetZero_out (by omega)⟩
  have hg := giveBack_runsAt h16 (show b≠0 by omega) ha hruns'
  have hb3 : ∀ x, p+48≤x → giveBlock m (blockBytes i) p b x =
      giveBack (memsetZero m b (blockBytes i)) (m (p+32)) b x := by
    intro x hx
    simp only [giveBlock, freeBlockList, freeBlocksCnt]
    rw [update_of_ne (by omega), update_of_ne (by omega), memsetZero_out (by omega)]
  refine ⟨(giveBlock_frame hi hb1 (by omega)).trans ht, hi, ?_, ?_, ?_, ?_⟩
  · have hl : giveBlock m (blockBytes i) p b (p+32)=b := by
      simp only [giveBlock, freeBlockList, freeBlocksCnt]
      rw [update_of_ne (by omega), update_self]
    rw [hl]
    apply hg.congr (blockBytes i)
    intro x hx
    have hx' : p+48≤x := by
      obtain rfl | hx := mem_cons.mp hx
      · exact hb4.1
      · exact ((hb2 x hx).bounds hi).1
    exact ⟨hb3 _ hx', hb3 _ (by omega)⟩
  · rw [blocks_give, length_cons, ←hc]
    simp only [giveBlock, freeBlockList, freeBlocksCnt]
    rw [update_self, update_of_ne (by omega), giveBack_frame (by omega), memsetZero_out (by omega)]
  · exact nodup_cons.mpr ⟨hf, hnd⟩
  · intro x hx
    obtain rfl | hx := mem_cons.mp hx
    · exact hb1
    · exact hb2 x hx

theorem setTag_self {t : ℕ} : setTagType (setTagInfo m p dfxMemPageSign) p t p=dfxMemPageSign+t*2^32 := by
  refine (update_self _ _ _).trans ?_
  have hs : setTagInfo m p dfxMemPageSign (tag p) = dfxMemPageSign+tagType m p*2^32 := update_self _ _ _
  unfold tagInfo
  rw [hs, add_mul_mod_self_right]
  rfl

theorem setTag_of_ne {t : ℕ} (h : a≠p) : setTagType (setTagInfo m p dfxMemPageSign) p t a=m a := by
  unfold setTagType setTagInfo tag
  rw [update_of_ne h, update_of_ne h]

theorem fillPage_frame {mempool : DfxMempool} (hi : i<7) (hp : 4096∣p)
    (hlt : p+4096≤2^64) (hbs : mempool.blockSize=blockBytes i) (ha : a<p ∨ p+4096≤a) : fillPage m mempool p a=m a := by
  obtain ⟨h16, -, -, -, hf, hs, hc⟩ := pool_geometry hi
  have hle : blockBytes i*1≤blockBytes i*blockCount i := mul_le_mul_left _ (by omega)
  unfold fillPage
  simp only [hbs, sizeofPageInfo, alignRoundUp_first hi hp hlt, freeBlockList, freeBlocksCnt]
  rw [update_of_ne (by omega), update_of_ne (by omega), update_of_ne (by omega), setTag_of_ne (by omega)]

theorem fillPage_ok {mempool : DfxMempool} (hi : i<7) (hp : 4096∣p) (hlt : p+4096≤2^64)
    (ht : mempool.type=i+4) (hbs : mempool.blockSize=blockBytes i)
    (hc : mempool.blocksPerPage=blockCount i) : RegionOk (fillPage (memsetZero m p 4096) mempool p) p
      (.pool i [(p+firstOffset i, blockCount i)]) := by
  obtain ⟨h16, -, -, -, hf, hs, hc1⟩ := pool_geometry hi
  have hle : blockBytes i*1≤blockBytes i*blockCount i := mul_le_mul_left _ (by omega)
  unfold fillPage
  simp only [ht, hbs, hc, sizeofPageInfo, alignRoundUp_first hi hp hlt, freeBlockList, freeBlocksCnt]
  refine ⟨?_, hi, ?_, ?_, firstRun_nodup hi, fun b hb => mem_firstRun.mp hb⟩
  · rw [update_of_ne (by omega), update_of_ne (by omega), update_of_ne (by omega), setTag_self]
    rfl
  · rw [update_self]
    refine ⟨rfl, by omega, by omega, ?_, ?_⟩
    · rw [update_of_ne (by omega), update_self]
    · -- the fresh page is zero, so the run is the last one
      show update _ _ _ _=0
      rw [update_of_ne (by omega), update_of_ne (by omega),
        update_of_ne (by omega), setTag_of_ne (by omega), memsetZero_in (by omega) (by omega)]
  · rw [update_of_ne (by omega), update_of_ne (by omega)]
    simp [blocks]

theorem fillMmapPage_frame {size : ℕ} (ha : a<p ∨ p+48≤a) : fillMmapPage m p size a=m a := by
  unfold fillMmapPage
  simp only [mMapAllocSize, PageInfo.prev, PageInfo.next, freeBlockList, freeBlocksCnt]
  repeat rw [update_of_ne (by omega)]
  exact setTag_of_ne (by omega)

theorem fillMmapPage_ok {size : ℕ} (hs : 1024+48<size) : RegionOk (fillMmapPage m p size) p (.big size) := by
  unfold fillMmapPage
  simp only [mMapAllocSize, PageInfo.prev, PageInfo.next, freeBlockList, freeBlocksCnt]
  refine ⟨?_, ?_, hs⟩
  · rw [update_of_ne (by omega), update_of_ne (by omega), update_of_ne (by omega), update_of_ne (by omega),
      update_of_ne (by omega)]
    exact setTag_self
  · rw [update_of_ne (by omega), update_of_ne (by omega), update_of_ne (by omega), update_of_ne (by omega), update_self]

end Pool

end Faultloggerd.Allocator
