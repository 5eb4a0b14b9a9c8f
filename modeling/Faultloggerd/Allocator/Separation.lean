import Faultloggerd.Allocator.EntryPoints

/-! # Live blocks never overlap

A program calls the allocator and writes into the blocks it holds. `World` is the process together with
the pointers the program holds, each with the argument of the `DfxAlloc` that returned it. In a valid
run only such pointers are freed, reallocated or written through, and `mmap` returns fresh regions or
fails.
-/
namespace Faultloggerd.Allocator
open Foundations List Prod

inductive Call where
  | dfxAlloc (size : ℕ) (os : ℕ → Option ℕ)
  | dfxRealloc (ptr size : ℕ) (os : ℕ → Option ℕ)
  | dfxFree (ptr : ℕ)
  | store (addr value : ℕ)

structure World where
  process : Process
  live : List (ℕ×ℕ)

def World.start (mem : ℕ → ℕ) : World := ⟨Process.start mem, []⟩

def World.step (w : World) : Call → World
  | .dfxAlloc size os =>
    let r := Allocator.dfxAlloc w.process size os
    ⟨r.1, if r.2=0 then w.live else (r.2, size)::w.live⟩
  | .dfxRealloc ptr size os =>
    let r := Allocator.dfxRealloc w.process ptr size os
    -- on NULL and on the old pointer the old block stays with the program
    ⟨r.1, if r.2=0 ∨ r.2=ptr then w.live else (r.2, size)::w.live.filter (·.1≠ptr)⟩
  | .dfxFree ptr => ⟨Allocator.dfxFree w.process ptr, w.live.filter (·.1≠ptr)⟩
  | .store addr value => ⟨{w.process with mem := Function.update w.process.mem addr value}, w.live⟩

def World.run (w : World) (calls : List Call) : World := calls.foldl World.step w

/-- The program frees and writes only what it holds, and `mmap` keeps its promise. -/
def Call.Valid (w : World) : Call → Prop
  | .dfxAlloc _ os => OsOk w.process os
  | .dfxRealloc ptr _ os => (ptr=0 ∨ ptr∈w.live.map Prod.fst) ∧ OsOk w.process os
  | .dfxFree ptr => ptr = 0 ∨ ptr ∈ w.live.map Prod.fst
  | .store addr _ => ∃ x ∈ w.live, x.1 ≤ addr ∧ addr < x.1+getChunkSize w.process x.1

/-- Each call is valid when it is made. -/
def ValidRun : World → List Call → Prop
  | _, [] => True
  | w, call :: calls => call.Valid w ∧ ValidRun (w.step call) calls

structure Tracks (g : ℕ → Option Region) (live : List (ℕ×ℕ)) : Prop where
  nodup : (live.map Prod.fst).Nodup
  exact : ∀ b, b ∈ live.map Prod.fst ↔ ∃ k, Handed g b k
  room : ∀ {b n k}, (b, n) ∈ live → Handed g b k → max n 1 ≤ k

variable {g g' : ℕ → Option Region} {live : List (ℕ×ℕ)} {a b k n : ℕ}

theorem Tracks.handsOut (h : Tracks g live) (ho : HandsOut g g' a k) (hn : max n 1≤k) : Tracks g' ((a, n)::live) where
  nodup := by
    rw [map_cons, nodup_cons]
    refine ⟨fun ha => ?_, h.nodup⟩
    obtain ⟨k', hk'⟩ := (h.exact a).mp ha
    exact ho.fresh k' hk'
  exact := by
    intro b
    rw [map_cons, mem_cons, h.exact]
    simp only [ho.iff]
    constructor
    · intro hx
      obtain rfl | ⟨k', hk'⟩ := hx
      · exact ⟨k, .inr ⟨rfl, rfl⟩⟩
      · exact ⟨k', .inl hk'⟩
    · intro hx
      obtain ⟨k', hk' | ⟨rfl, -⟩⟩ := hx
      · exact .inr ⟨k', hk'⟩
      · exact .inl rfl
  room := by
    intro b n' k' hb hk'
    obtain ho1 | ⟨rfl, rfl⟩ := (ho.iff b k').mp hk'
    · obtain heq | hb := mem_cons.mp hb
      · cases heq
        exact absurd ho1 (ho.fresh k')
      · exact h.room hb ho1
    · obtain heq | hb := mem_cons.mp hb
      · cases heq
        exact hn
      · obtain ⟨k'', hk''⟩ := (h.exact b).mp (mem_map_of_mem (f := fst) hb)
        exact absurd hk'' (ho.fresh k'')

theorem Tracks.takesBack (h : Tracks g live) (ht : TakesBack g g' a) : Tracks g' (live.filter (·.1≠a)) where
  nodup := h.nodup.sublist (filter_sublist.map fst)
  exact := by
    intro b
    have hm : b∈(live.filter (·.1≠a)).map fst ↔ b∈live.map fst ∧ b≠a := by
      simp only [mem_map, mem_filter, decide_eq_true_eq]
      constructor
      · intro hyp
        obtain ⟨x, ⟨hx, hne⟩, rfl⟩ := hyp
        exact ⟨⟨x, hx, rfl⟩, hne⟩
      · intro hyp
        obtain ⟨⟨x, hx, rfl⟩, hne⟩ := hyp
        exact ⟨x, ⟨hx, hne⟩, rfl⟩
    rw [hm, h.exact]
    simp [ht b]
  room := by
    intro b n k hb hk
    exact h.room (mem_filter.mp hb).1 ((ht b k).mp hk).1

/-- Nothing was called yet, or the invariant holds and the program holds what is handed out. -/
def Good (w : World) : Prop :=
  w = .start w.process.mem ∨ ∃ g, Consistent w.process g ∧ Settled w.process g ∧ Tracks g w.live

theorem good_start (mem : ℕ → ℕ) : Good (World.start mem) := .inl rfl

variable {w : World}

theorem Good.ensureInit (h : Good w) :
    ∃ g, Consistent (ensureInit w.process) g ∧ Settled (Allocator.ensureInit w.process) g ∧ Tracks g w.live := by
  obtain hs1 | ⟨g, hc, hs, ht⟩ := h
  · rw [hs1]
    obtain ⟨hc, hs⟩ := initDfxAllocator_consistent (s := Process.start w.process.mem) (fun _ => rfl) rfl
    refine ⟨_, hc, hs, ⟨nodup_nil, fun b => ?_, fun hb => by cases hb⟩⟩
    simp [World.start, Handed]
  · rw [ensureInit_eq hc.initFlag]
    exact ⟨g, hc, hs, ht⟩

variable {os : ℕ → Option ℕ}

theorem OsOk.ensureInit {s : Process} (h : OsOk s os) : OsOk (ensureInit s) os := by
  have hm : (Allocator.ensureInit s).mappings=s.mappings := by
    unfold Allocator.ensureInit
    split_ifs <;> rfl
  intro size p h0 hd hp
  unfold Fresh
  rw [hm]
  exact h size p h0 hd hp

variable (s : Process)

theorem ensureInit_idem : ensureInit (ensureInit s)=ensureInit s := by
  apply ensureInit_eq
  unfold ensureInit
  split_ifs with h
  · exact h
  · rfl

theorem dfxAlloc_ensureInit (n : ℕ) (os : ℕ → Option ℕ) : dfxAlloc (ensureInit s) n os=dfxAlloc s n os := by
  unfold dfxAlloc allocImpl
  rw [ensureInit_idem]

theorem dfxRealloc_ensureInit (ptr n : ℕ) (os : ℕ → Option ℕ) :
    dfxRealloc (ensureInit s) ptr n os=dfxRealloc s ptr n os := by
  unfold dfxRealloc
  rw [ensureInit_idem]

theorem dfxAlloc_good (h : Good w) (hos : OsOk w.process os) (n : ℕ) : Good (w.step (.dfxAlloc n os)) := by
  obtain ⟨g, hc, hs, ht⟩ := h.ensureInit
  have hs1 := dfxAlloc_allocates (n := n) hc hs hos.ensureInit
  rw [dfxAlloc_ensureInit] at hs1
  unfold World.step
  dsimp only
  obtain ⟨hn, hc', hs'⟩ | ⟨g', k, hr, hc', hs', ho, hk⟩ := hs1
  · rw [if_pos hn]
    exact .inr ⟨g, hc', hs', ht⟩
  · rw [if_neg hr]
    exact .inr ⟨g', hc', hs', ht.handsOut ho hk⟩

theorem Tracks.ne_zero {s : Process} (h : Consistent s g) (ht : Tracks g live) : ∀ x∈live, x.1≠0 := by
  intro x hx
  obtain ⟨k, p, r, hp, ho, -⟩ := (ht.exact x.1).mp (mem_map_of_mem hx)
  have := h.handed_bounds hp ho
  omega

theorem dfxRealloc_null (w : World) (n : ℕ) (os : ℕ → Option ℕ) (h : ∀ x∈w.live, x.1≠0) :
    w.step (.dfxRealloc 0 n os)=w.step (.dfxAlloc n os) := by
  have hc : dfxRealloc w.process 0 n os=dfxAlloc w.process n os := by
    unfold dfxRealloc
    rw [←dfxAlloc_ensureInit]
    exact if_pos rfl
  have hf : w.live.filter (·.1≠0)=w.live := filter_eq_self.mpr (by simpa using h)
  unfold World.step
  simp only [hc, or_self, hf]

theorem dfxRealloc_good (h : Good w) (hos : OsOk w.process os) {ptr : ℕ} (hp : ptr=0 ∨ ptr∈w.live.map fst)
    (n : ℕ) : Good (w.step (.dfxRealloc ptr n os)) := by
  obtain ⟨g, hc, hs, ht⟩ := h.ensureInit
  by_cases h0 : ptr=0
  · subst h0
    rw [dfxRealloc_null w n os (ht.ne_zero hc)]
    exact dfxAlloc_good h hos n
  obtain ⟨k, hk⟩ := (ht.exact ptr).mp (hp.resolve_left h0)
  have hs1 := dfxRealloc_spec (n := n) hc hs hos.ensureInit hk
  rw [dfxRealloc_ensureInit] at hs1
  unfold World.step
  dsimp only at hs1 ⊢
  obtain ⟨hk1, hc', hs'⟩ | ⟨g1, g2, k', hr, ho, hk', hb, hc', hs'⟩ := hs1
  · rw [if_pos hk1]
    exact .inr ⟨g, hc', hs', ht⟩
  · have hne : (Allocator.dfxRealloc w.process ptr n os).2≠ptr := by
      intro he
      rw [he] at ho
      exact ho.fresh k hk
    rw [if_neg (not_or.mpr ⟨hr, hne⟩)]
    have ht1 := (ht.handsOut ho hk').takesBack hb
    rw [filter_cons_of_pos (by simpa using hne)] at ht1
    exact .inr ⟨g2, hc', hs', ht1⟩

theorem dfxFree_good (h : Good w) {ptr : ℕ} (hp : ptr=0 ∨ ptr∈w.live.map fst)
    : Good (w.step (.dfxFree ptr)) := by
  obtain hs1 | ⟨g, hc, hs, ht⟩ := h
  · rw [hs1]
    exact .inl rfl
  by_cases h0 : ptr=0
  · have hs2 : w.step (.dfxFree ptr)=w := by
      have hf : w.live.filter (·.1≠ptr)=w.live := filter_eq_self.mpr (by simpa [h0] using ht.ne_zero hc)
      have hf1 : dfxFree w.process ptr=w.process := by
        unfold dfxFree
        rw [if_pos h0, ite_self]
      simp only [World.step, hf1, hf]
    rw [hs2]
    exact .inr ⟨g, hc, hs, ht⟩
  obtain ⟨k, hk⟩ := (ht.exact ptr).mp (hp.resolve_left h0)
  obtain ⟨g', hc', hs', hb⟩ := dfxFree_spec hc hs hk
  exact .inr ⟨g', hc', hs', ht.takesBack hb⟩

theorem store_good (h : Good w) {addr : ℕ} (value : ℕ)
    (ha1 : ∃ x∈w.live, x.1≤addr ∧ addr<x.1+getChunkSize w.process x.1) : Good (w.step (.store addr value)) := by
  obtain ⟨x, hx, hle, hlt⟩ := ha1
  obtain hs1 | ⟨g, hc, hs, ht⟩ := h
  · rw [hs1] at hx
    cases hx
  obtain ⟨k, p, r, hp, ho, hk⟩ := (ht.exact x.1).mp (mem_map_of_mem hx)
  rw [hc.getChunkSize_eq hp ho] at hlt
  have hw := hc.overwrite ⟨p, r, hp, ho, rfl⟩ fun a ha =>
    Function.update_of_ne (show a≠addr by omega) value w.process.mem
  exact .inr ⟨g, hw, ⟨hs.freePagesCnt, hs.used⟩, ht⟩

theorem step_good (h : Good w) {call : Call} (hv : call.Valid w) : Good (w.step call) := by
  cases call with
  | dfxAlloc size os => exact dfxAlloc_good h hv size
  | dfxRealloc ptr size os => exact dfxRealloc_good h hv.2 hv.1 size
  | dfxFree ptr => exact dfxFree_good h hv
  | store addr value => exact store_good h value hv

theorem run_good (h : Good w) {calls : List Call} (hv : ValidRun w calls) : Good (w.run calls) := by
  induction calls generalizing w with
  | nil => exact h
  | cons call calls ih => exact ih (step_good h hv.1) hv.2

/-- The blocks held are disjoint, behind the header and inside the mapping of their page, aligned and large enough. -/
structure Separated (w : World) : Prop where
  disjoint : w.live.Pairwise fun x y => x.1+getChunkSize w.process x.1 ≤ y.1 ∨ y.1+getChunkSize w.process y.1 ≤ x.1
  inside : ∀ x ∈ w.live, ∃ size, w.process.mappings (getPageUnchecked x.1) = some size ∧
    getPageUnchecked x.1+sizeofPageInfo ≤ x.1 ∧
    x.1+getChunkSize w.process x.1 ≤ getPageUnchecked x.1+size
  aligned : ∀ x ∈ w.live, 16 ∣ x.1
  room : ∀ x ∈ w.live, max x.2 1 ≤ getChunkSize w.process x.1

theorem RegionOk.owned_aligned {m : ℕ → ℕ} {p : ℕ} {r : Region} (h : RegionOk m p r) (hp : 4096∣p)
    (hb : Owns p r b) : 16∣b := by
  cases r with
  | pool i rs =>
    have hi : i<7 := h.2.1
    exact (pool_geometry hi).2.1.trans (hb.1.dvd hi hp)
  | big size =>
    obtain rfl : b=p+48 := hb
    omega

theorem Good.separated (h : Good w) : Separated w := by
  obtain hs1 | ⟨g, hc, hs, ht⟩ := h
  · rw [hs1]
    constructor <;> simp [World.start]
  have ho1 : ∀ x∈w.live, ∃ p r, g p=some r ∧ Owns p r x.1 := by
    intro x hx
    obtain ⟨k, p, r, hp, ho, -⟩ := (ht.exact x.1).mp (mem_map_of_mem hx)
    exact ⟨p, r, hp, ho⟩
  constructor
  · have hd : w.live.Pairwise fun x y => x.1≠y.1 := pairwise_map.mp ht.nodup
    refine hd.imp_of_mem fun {x y} hx hy hne => ?_
    obtain ⟨p, r, hp, ho⟩ := ho1 x hx
    obtain ⟨q, r', hq, ho'⟩ := ho1 y hy
    rw [hc.getChunkSize_eq hp ho, hc.getChunkSize_eq hq ho']
    by_cases hpq : p=q
    · subst hpq
      rw [hp] at hq
      cases hq
      exact (hc.regions.ok hp).owned_apart ho ho' hne
    · have ha := hc.regions.apart hp hq hpq
      have hx' := hc.handed_bounds hp ho
      have hy' := hc.handed_bounds hq ho'
      omega
  · intro x hx
    obtain ⟨p, r, hp, ho⟩ := ho1 x hx
    obtain ⟨-, hd1, hlt⟩ := hc.regions.place hp
    obtain ⟨h1, h2, h3⟩ := hc.handed_bounds hp ho
    rw [getPageUnchecked_eq hd1 h1 h3 (by omega), hc.getChunkSize_eq hp ho]
    exact ⟨r.size, by rw [hc.mapped, hp]; rfl, h1, h2⟩
  · intro x hx
    obtain ⟨p, r, hp, ho⟩ := ho1 x hx
    exact (hc.regions.ok hp).owned_aligned (hc.regions.place hp).2.1 ho
  · intro x hx
    obtain ⟨p, r, hp, ho⟩ := ho1 x hx
    rw [hc.getChunkSize_eq hp ho]
    exact ht.room hx ⟨p, r, hp, ho, rfl⟩

/-- After every valid run from the start of the process the blocks that the program holds are
pairwise disjoint, behind their headers, inside their mappings, aligned and large enough. -/
theorem live_blocks_separated (mem : ℕ → ℕ) (calls : List Call)
    (h : ValidRun (World.start mem) calls) : Separated ((World.start mem).run calls) :=
  (run_good (good_start mem) h).separated

def twoBlocks : List Call :=
  [.dfxAlloc 10 fun size => if size=4096 then some 0x10000 else none, .dfxAlloc 12 fun _ => none, .store 0x10040 7,
    .dfxRealloc 0x10030 14 fun _ => none]

theorem twoBlocks_valid : ValidRun (World.start fun _ => 0) twoBlocks := by
  have hn : ∀ s : Process, OsOk s fun _ => none := fun s size p _ _ hp => by cases hp
  refine ⟨fun size p _ _ hp => ?_, hn _, ?_, ⟨?_, hn _⟩, trivial⟩
  · dsimp only at hp
    split_ifs at hp with h
    cases hp
    subst h
    exact ⟨by decide, by decide, by decide, fun q size' hq => by cases hq⟩
  · exact ⟨(0x10040, 12), by decide +kernel, by decide +kernel, by decide +kernel⟩
  · exact .inr (by decide +kernel)

theorem twoBlocks_separated : ((World.start fun _ => 0).run twoBlocks).live = [(0x10040, 12), (0x10030, 10)] ∧
      Separated ((World.start fun _ => 0).run twoBlocks) :=
  ⟨by decide +kernel, live_blocks_separated _ _ twoBlocks_valid⟩

end Faultloggerd.Allocator
