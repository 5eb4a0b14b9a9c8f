import Faultloggerd.AsyncStack.ThreadStacks
import Faultloggerd.Foundations.EventRuns
import Faultloggerd.Foundations.ThreadedQueue

/-! # The partition of the pool

Every slot is handed out or free, and the free ones are exactly those met from the head of the queue to its tail. A
history kept beside the pool says which slots are handed out: those acquired after they were last released.
-/
namespace Faultloggerd.AsyncStack
open List Nat Foundations.EventRuns Foundations.ThreadedQueue Function Pool

/-- The slots of `free`, from head to tail, are the slots that are not valid. -/
structure Partition (n : ℕ) (s : Pool) (free : List ℕ) : Prop where
  initialized : s.initialized = true
  poolSize : s.poolSize = n
  threaded : Threaded (fun i => (s.pool i).next) s.freeListHead s.freeListTail free
  nonempty : free ≠ []
  mem_free : ∀ i, i ∈ free ↔ i < n ∧ (s.pool i).valid = false

variable {n : ℕ} {s : Pool} {free : List ℕ}

theorem SameSlots.partition {s' : Pool} (h : SameSlots s s') (hs : Partition n s free) : Partition n s' free where
  initialized := h.initialized.trans hs.initialized
  poolSize := h.poolSize.trans hs.poolSize
  threaded := by
    rw [h.pool, h.freeListHead, h.freeListTail]
    exact hs.threaded
  nonempty := hs.nonempty
  mem_free := by
    rw [h.pool]
    exact hs.mem_free

structure SameThreads (s s' : Pool) : Prop where
  threadCtxPool : s'.threadCtxPool = s.threadCtxPool
  freeThreadList : s'.freeThreadList = s.freeThreadList
  initialized : s'.initialized = s.initialized
  poolSize : s'.poolSize = s.poolSize

structure CopiesInto (ctx : ℕ) (s s' : Pool) : Prop where
  threads : SameThreads s s'
  freeListHead : s'.freeListHead = s.freeListHead
  freeListTail : s'.freeListTail = s.freeListTail
  others : ∀ i, i ≠ ctx → s'.pool i = s.pool i
  next : (s'.pool ctx).next = (s.pool ctx).next
  valid : (s'.pool ctx).valid = (s.pool ctx).valid

theorem CopiesInto.refl (ctx : ℕ) (s : Pool) : CopiesInto ctx s s :=
  ⟨⟨rfl, rfl, rfl, rfl⟩, rfl, rfl, fun _ _ => rfl, rfl, rfl⟩

theorem copiesInto_copyChain (ctx curCtx count i : ℕ) (s : Pool) :
    CopiesInto ctx s (Pool.copyChain ctx curCtx count i s) := by
  induction count generalizing i s with
  | zero => exact .refl ctx s
  | succ count ih =>
    rw [Pool.copyChain]
    split
    · exact .refl ctx s
    · obtain ⟨ht, hh, ht1, ho, hn, hv⟩ := ih (i+1)
        (s.modify ctx fun c => {c with ctxs := update c.ctxs (i+1) ((s.pool curCtx).ctxs i)})
      refine ⟨⟨ht.threadCtxPool, ht.freeThreadList, ht.initialized, ht.poolSize⟩, hh, ht1,
        fun j hj => (ho j hj).trans (update_of_ne hj _ _), hn.trans ?_, hv.trans ?_⟩ <;> simp [Pool.modify]

variable {i : ℕ}

theorem acquire_eq (hi : s.initialized=true) (hh : s.freeListHead=some i) (ht : s.freeListTail≠some i)
    (layers : Layers) (ctx : Pointer) (id type : BitVec 64) :
    ∃ s', s.acquireAndInitAsyncContext layers ctx id type=(some i, s') ∧ CopiesInto i (s.takeHead i id type) s' := by
  have he : ¬some i=s.freeListTail := fun h => ht h.symm
  simp only [acquireAndInitAsyncContext, hi, Bool.not_true, Bool.false_eq_true, ↓reduceIte, hh, he]
  split
  · exact ⟨_, rfl, .refl i _⟩
  · exact ⟨_, rfl, copiesInto_copyChain i _ _ 0 _⟩

structure HandsOut (n i : ℕ) (rest : List ℕ) (s s' : Pool) : Prop where
  partition : Partition n s' rest
  was_free : i < n ∧ (s.pool i).valid = false
  valid : (s'.pool i).valid = true
  others : ∀ j, j ≠ i → s'.pool j = s.pool j
  threads : SameThreads s s'

theorem handsOut_of_copies {j : ℕ} {rest : List ℕ} {id type : BitVec 64} {s' : Pool}
    (hs : Partition n s (i::j::rest)) (h : CopiesInto i (s.takeHead i id type) s') : HandsOut n i (j::rest) s s' := by
  have ho : ∀ k, k≠i → s'.pool k=s.pool k := fun k hk => (h.others k hk).trans (update_of_ne hk _ _)
  have hv : (s'.pool i).valid=true := by
    rw [h.valid]
    simp [Pool.takeHead, Pool.modify]
  have hi : i ∉ j::rest := (nodup_cons.mp hs.threaded.nodup).1
  refine ⟨⟨h.threads.initialized.trans hs.initialized, h.threads.poolSize.trans hs.poolSize, ?_, by simp, fun k => ?_⟩,
    (hs.mem_free i).mp mem_cons_self, hv, ho,
    ⟨h.threads.threadCtxPool, h.threads.freeThreadList, h.threads.initialized, h.threads.poolSize⟩⟩
  · rw [h.freeListHead, h.freeListTail]
    refine hs.threaded.dequeue.congr fun k hk => ?_
    rw [ho k (ne_of_mem_of_not_mem hk hi)]
  · by_cases hk : k=i
    · subst hk
      simp [hi, hv]
    · rw [ho k hk, ←hs.mem_free k]
      exact ⟨mem_cons_of_mem i, mem_of_ne_of_mem hk⟩

structure TakesBack (n i : ℕ) (free : List ℕ) (s s' : Pool) : Prop where
  partition : Partition n s' free
  was_valid : i < n ∧ (s.pool i).valid = true
  invalid : (s'.pool i).valid = false
  cleared : (s'.pool i).ctxs = noCtxs
  others : ∀ j, j ≠ i → (s'.pool j).valid = (s.pool j).valid ∧ (s'.pool j).ctxs = (s.pool j).ctxs
  threads : SameThreads s s'

variable {ctx : Pointer}

theorem release_of_invalid (h : s.validAsyncContext ctx=none) : s.releaseAsyncContext ctx=s := by
  rw [releaseAsyncContext, h]

theorem pool_release {last : ℕ} (h : s.validAsyncContext (.slot i)=some i) (ht : s.freeListTail=some last)
    (hl : last≠i) (j : ℕ) : (s.releaseAsyncContext (.slot i)).pool j=if j=i then ⟨none, false, noCtxs⟩
      else if j=last then {s.pool last with next := some i} else s.pool j := by
  have htail' : (s.modify i fun c => {c with ctxs := noCtxs}).freeListTail=some last := ht
  simp only [Pool.releaseAsyncContext, h, htail']
  by_cases hj : j=i
  · subst hj
    simp [Pool.modify, hl.symm]
  · by_cases hj' : j=last
    · subst hj'
      simp [Pool.modify, hj]
    · simp [Pool.modify, hj, hj']

theorem release_of_valid (hs : Partition n s free) (h : s.validAsyncContext ctx=some i) :
    TakesBack n i (free++[i]) s (s.releaseAsyncContext ctx) := by
  obtain ⟨rfl, -, hs1, hv⟩ := validAsyncContext_eq_some h
  rw [hs.poolSize] at hs1
  have hi : i ∉ free := fun hm => by simp [((hs.mem_free i).mp hm).2] at hv
  obtain ⟨last, ht⟩ : ∃ last, s.freeListTail=some last :=
    ⟨free.getLast hs.nonempty, hs.threaded.tail_eq.trans (getLast?_eq_some_getLast hs.nonempty)⟩
  have hl : last∈free := mem_of_getLast? (hs.threaded.tail_eq.symm.trans ht)
  have hne : last≠i := ne_of_mem_of_not_mem hl hi
  have hp := pool_release h ht hne
  have he : (s.releaseAsyncContext (.slot i)).freeListHead=s.freeListHead ∧
      (s.releaseAsyncContext (.slot i)).freeListTail=some i ∧ SameThreads s (s.releaseAsyncContext (.slot i)) := by
    have htail' : (s.modify i fun c => {c with ctxs := noCtxs}).freeListTail=some last := ht
    simp only [releaseAsyncContext, h, htail']
    exact ⟨rfl, rfl, rfl, rfl, rfl, rfl⟩
  refine ⟨⟨he.2.2.initialized.trans hs.initialized, he.2.2.poolSize.trans hs.poolSize, ?_, by simp,
    fun j => ?_⟩, ⟨hs1, hv⟩, by simp [hp], by simp [hp], fun j hj => ?_, he.2.2⟩
  · rw [he.1, he.2.1]
    refine (ht ▸ hs.threaded).enqueue hi ?_ fun j hj hj1 => ?_
    · simp [hp, hne]
    · simp [hp, hj1, ne_of_mem_of_not_mem hj hi]
  · rw [hp, mem_append, hs.mem_free]
    by_cases hj : j=i
    · simp [hj, hs1]
    · rcases eq_or_ne j last with rfl | hj' <;> simp [*]
  · rcases eq_or_ne j last with rfl | hj' <;> simp [*]

structure Pushed where
  slot : ℕ
  chain : ℕ → AsyncCtx
  pushedAt : ℕ

/-- When each slot was last acquired and released (0 for never), and what is on the stack of each thread, the top
first. -/
structure History where
  clock : ℕ
  acquiredAt : ℕ → ℕ
  releasedAt : ℕ → ℕ
  stackOf : ℕ → List Pushed

def History.start : History := ⟨1, fun _ => 0, fun _ => 0, fun _ => []⟩

def History.handedOut (h : History) (i : ℕ) : Prop := h.releasedAt i < h.acquiredAt i

def Op.handOut (op : Op) (s : Pool) : Option ℕ :=
  match op with
  | .acquire layers threadCtx stackId asyncType => (s.acquireAndInitAsyncContext layers threadCtx stackId asyncType).1
  | _ => none

theorem acquire_cases (hs : Partition n s free) (layers : Layers) (ctx : Pointer)
    (id type : BitVec 64) : ((Op.acquire layers ctx id type).run s=s ∧
        (Op.acquire layers ctx id type).handOut s=none) ∨ ∃ i rest, (Op.acquire layers ctx id type).handOut s=some i ∧
        HandsOut n i rest s ((Op.acquire layers ctx id type).run s) := by
  rw [Op.run, Op.handOut]
  by_cases he : s.freeListHead=s.freeListTail
  · exact .inl (by simp [acquireAndInitAsyncContext, he])
  · obtain ⟨i, j, rest, rfl, hh⟩ := hs.threaded.exists_two he
    obtain ⟨s', heq, hc⟩ := acquire_eq hs.initialized hh (fun ht => he (hh.trans ht.symm)) layers
      ctx id type
    rw [heq]
    exact .inr ⟨i, j::rest, rfl, handsOut_of_copies hs hc⟩

def Op.giveBack : Op → Option ℕ
  | .release (.slot i) => some i
  | _ => none

variable {op : Op}

theorem handOut_of_threads (h : op.onSlots=false) (s : Pool) : op.handOut s=none := by
  cases op <;> first | rfl | cases h

theorem giveBack_of_threads (h : op.onSlots=false) : op.giveBack=none := by
  cases op <;> first | rfl | cases h

def StackChange.apply (change : StackChange) (s : Pool) (clock : ℕ) (stack : List Pushed) : List Pushed :=
  match change with
  | .push i => ⟨i, (s.pool i).ctxs, clock⟩ :: stack
  | .pop => stack.tail
  | .empty => []

def stamp (times : ℕ → ℕ) (i : Option ℕ) (clock : ℕ) : ℕ → ℕ :=
  match i with
  | some i => Function.update times i clock
  | none => times

def History.record (op : Op) (s : Pool) (h : History) : History where
  clock := h.clock+1
  acquiredAt := stamp h.acquiredAt (op.handOut s) h.clock
  releasedAt := stamp h.releasedAt op.giveBack h.clock
  stackOf := match op.stackChange s with
    | some (t, change) => Function.update h.stackOf t (change.apply s h.clock (h.stackOf t))
    | none => h.stackOf

structure Tracked where
  pool : Pool
  history : History

def Tracked.step (op : Op) (w : Tracked) : Tracked := ⟨op.run w.pool, w.history.record op w.pool⟩

def Tracked.start (chainPoolSize : ℕ) (mapped : Bool) : Tracked :=
  ⟨(Pool.fresh.init chainPoolSize mapped).2, .start⟩

theorem stamp_le {times : ℕ → ℕ} {i : Option ℕ} {clock : ℕ} (h : ∀ j, times j<clock) (j : ℕ) :
    stamp times i clock j<clock+1 := by
  have := h j
  cases i with
  | none => exact lt_succ_of_lt this
  | some i =>
    rw [stamp, update_apply]
    split <;> omega

structure Sound (n : ℕ) (w : Tracked) : Prop where
  partition : ∃ free, Partition n w.pool free
  valid_iff : ∀ i < n, (w.pool.pool i).valid = true ↔ w.history.handedOut i
  acquiredAt_lt : ∀ i, w.history.acquiredAt i < w.history.clock
  releasedAt_lt : ∀ i, w.history.releasedAt i < w.history.clock

theorem sound_start {cps : ℕ} {mapped : Bool} (hi1 : (fresh.init cps mapped).1=true) :
    Sound cps (Tracked.start cps mapped) := by
  have hn : cps≠0 := by
    rintro rfl
    simp [init, fresh] at hi1
  have hm : mapped=true := by
    cases mapped with
    | true => rfl
    | false => simp [init, fresh] at hi1
  subst hm
  have hs : (Tracked.start cps true).pool=(fresh.init cps true).2 := rfl
  simp only [init, fresh, hn] at hs
  refine ⟨⟨range cps, ?_⟩, fun i _ => ?_, fun _ => Nat.one_pos, fun _ => Nat.one_pos⟩
  · rw [hs]
    refine ⟨rfl, rfl, threaded_range (by omega) fun i hi => if_pos hi, ?_, fun i => ?_⟩
    · simpa using hn
    · simp
  · rw [hs]
    simp [Tracked.start, History.start, History.handedOut]

theorem validAsyncContext_slot (hs : Partition n s free) (hi : i<n) :
    s.validAsyncContext (.slot i)=if (s.pool i).valid then some i else none := by
  simp [validAsyncContext, isValidAsyncContextAddressLocked, hs.initialized, hs.poolSize, hi]

variable {w : Tracked}

theorem Sound.step_of (h : Sound n w) (hs : ∃ free, Partition n (op.run w.pool) free)
    (hv : ∀ i<n, ((op.run w.pool).pool i).valid=true ↔ stamp w.history.releasedAt op.giveBack w.history.clock i <
      stamp w.history.acquiredAt (op.handOut w.pool) w.history.clock i)
    : Sound n (w.step op) where
  partition := hs
  valid_iff := hv
  acquiredAt_lt := stamp_le h.acquiredAt_lt
  releasedAt_lt := stamp_le h.releasedAt_lt

theorem sound_acquire (h : Sound n w) (layers : Layers) (ctx : Pointer) (id type : BitVec 64)
    : Sound n (w.step (.acquire layers ctx id type)) := by
  obtain ⟨free, hs⟩ := h.partition
  rcases acquire_cases hs layers ctx id type with ⟨hrun, hh⟩ | ⟨i, rest, hh, ho⟩
  · refine h.step_of ⟨free, by rwa [hrun]⟩ fun j hj => ?_
    rw [hrun, hh]
    exact h.valid_iff j hj
  · refine h.step_of ⟨rest, ho.partition⟩ fun j hj => ?_
    rw [hh]
    change _ ↔ w.history.releasedAt j<update w.history.acquiredAt i w.history.clock j
    by_cases hji : j=i
    · subst hji
      rw [update_self]
      exact iff_of_true ho.valid (h.releasedAt_lt j)
    · rw [update_of_ne hji]
      exact (congrArg AsyncContext.valid (ho.others j hji)).congr_left.trans (h.valid_iff j hj)

theorem not_handedOut_of_released (h : Sound n w) (i : ℕ) :
    ¬update w.history.releasedAt i w.history.clock i<w.history.acquiredAt i := by
  have := h.acquiredAt_lt i
  grind

theorem sound_release (h : Sound n w) (ctx : Pointer) : Sound n (w.step (.release ctx)) := by
  obtain ⟨free, hs⟩ := h.partition
  cases hc : w.pool.validAsyncContext ctx with
  | none =>
    have hrun : (Op.release ctx).run w.pool=w.pool := release_of_invalid hc
    refine h.step_of ⟨free, by rwa [hrun]⟩ fun j hj => ?_
    rw [hrun]
    cases ctx with
    | slot i =>
      change _ ↔ update w.history.releasedAt i w.history.clock j<w.history.acquiredAt j
      by_cases hji : j=i
      · subst hji
        rw [validAsyncContext_slot hs hj] at hc
        exact iff_of_false (by simpa using hc) (not_handedOut_of_released h j)
      · rw [update_of_ne hji]
        exact h.valid_iff j hj
    | null | outside => exact h.valid_iff j hj
  | some i =>
    have hb := release_of_valid hs hc
    obtain ⟨rfl, -⟩ := validAsyncContext_eq_some hc
    refine h.step_of ⟨_, hb.partition⟩ fun j hj => ?_
    change _ ↔ update w.history.releasedAt i w.history.clock j<w.history.acquiredAt j
    by_cases hji : j=i
    · subst hji
      exact iff_of_false (ne_true_of_eq_false hb.invalid) (not_handedOut_of_released h j)
    · rw [update_of_ne hji]
      exact (hb.others j hji).1.congr_left.trans (h.valid_iff j hj)

theorem sound_step (op : Op) (h : Sound n w) : Sound n (w.step op) := by
  cases hop : op.onSlots with
  | true =>
    cases op with
    | acquire layers tc id type => exact sound_acquire h layers tc id type
    | release ctx => exact sound_release h ctx
    | _ => cases hop
  | false =>
    obtain ⟨free, hs⟩ := h.partition
    have hs1 := sameSlots_run hop w.pool
    refine h.step_of ⟨free, hs1.partition hs⟩ fun j hj => ?_
    rw [hs1.pool, handOut_of_threads hop, giveBack_of_threads hop]
    exact h.valid_iff j hj

theorem sound_run {pool : ℕ} {mapped : Bool} (hi : (fresh.init pool mapped).1=true)
    (ops : List Op) : Sound pool (run Tracked.step ops (Tracked.start pool mapped)) :=
  run_invariant (Sound pool) (fun _ op => sound_step op) (sound_start hi) ops

theorem count_free (h : Sound n w) (hs : Partition n w.pool free) (hi : i<n) :
    ((w.pool.pool i).valid=true ∧ w.history.handedOut i ∧ free.count i=0) ∨
      ((w.pool.pool i).valid=false ∧ ¬w.history.handedOut i ∧ free.count i=1) := by
  have hm := hs.mem_free i
  rw [←h.valid_iff i hi]
  cases hv : (w.pool.pool i).valid with
  | true => exact .inl ⟨rfl, rfl, count_eq_zero.mpr (by simp [hm, hv])⟩
  | false => exact .inr ⟨rfl, Bool.false_ne_true, count_eq_one_of_mem hs.threaded.nodup (hm.mpr ⟨hi, hv⟩)⟩

theorem free_of_handOut (h : Sound n w) (hh : op.handOut w.pool=some i) : i<n ∧ ¬w.history.handedOut i := by
  obtain ⟨free, hs⟩ := h.partition
  cases op with
  | acquire layers ctx id type =>
    rcases acquire_cases hs layers ctx id type with ⟨-, hn⟩ | ⟨j, rest, hs1, ho⟩
    · cases hn.symm.trans hh
    · cases hs1.symm.trans hh
      rw [←h.valid_iff i ho.was_free.1]
      exact ⟨ho.was_free.1, ne_true_of_eq_false ho.was_free.2⟩
  | _ => cases hh

theorem release_of_not_handedOut (h : Sound n w) (hc : ∀ i<n, ctx=.slot i → ¬w.history.handedOut i)
    : w.pool.releaseAsyncContext ctx=w.pool := by
  obtain ⟨free, hs⟩ := h.partition
  cases hv : w.pool.validAsyncContext ctx with
  | none => exact release_of_invalid hv
  | some i =>
    obtain ⟨hs1, -, hi, hv⟩ := validAsyncContext_eq_some hv
    rw [hs.poolSize] at hi
    exact absurd ((h.valid_iff i hi).mp hv) (hc i hi hs1)

/-- After every run a slot is valid, handed out and not free, or it is free once; none is handed out twice, and the
release of any other pointer does nothing. -/
theorem context_pool_partition (chainPoolSize : ℕ) (mapped : Bool)
    (hinit : (Pool.fresh.init chainPoolSize mapped).1=true) (ops : List Op) :
    let w := run Tracked.step ops (Tracked.start chainPoolSize mapped)
    (∃ free, Threaded (fun i => (w.pool.pool i).next) w.pool.freeListHead w.pool.freeListTail free ∧
      ∀ i<chainPoolSize, ((w.pool.pool i).valid=true ∧ w.history.handedOut i ∧ free.count i=0) ∨
        ((w.pool.pool i).valid=false ∧ ¬w.history.handedOut i ∧ free.count i=1)) ∧
      Every Tracked.step (fun v op => ∀ i, op.handOut v.pool=some i → i<chainPoolSize ∧ ¬v.history.handedOut i)
        ops (Tracked.start chainPoolSize mapped) ∧ ∀ ctx, (∀ i<chainPoolSize, ctx=.slot i → ¬w.history.handedOut i) →
        w.pool.releaseAsyncContext ctx=w.pool := by
  intro w
  have hs1 : Sound chainPoolSize w := sound_run hinit ops
  obtain ⟨free, hs⟩ := hs1.partition
  refine ⟨⟨free, hs.threaded, fun i hi => count_free hs1 hs hi⟩, ?_, fun ctx => release_of_not_handedOut hs1⟩
  rw [every_iff]
  exact fun before op after _ i => free_of_handOut (sound_run hinit before)

def defaultLayers : Layers := ⟨10, by decide⟩

def sampleOps : List Op :=
  [.acquire defaultLayers .null 5 1, .acquire defaultLayers .null 6 1, .release (.slot 0)]

theorem second_release_ignored :
    let w := run Tracked.step sampleOps (Tracked.start 3 true)
    w.pool.freeListHead=some 2 ∧ w.pool.freeListTail=some 0 ∧ (w.pool.pool 1).valid=true ∧
      w.pool.releaseAsyncContext (.slot 0)=w.pool := by
  refine ⟨by decide, by decide, by decide, (context_pool_partition 3 true rfl sampleOps).2.2 (.slot 0) ?_⟩
  intro i hi hs
  cases hs
  exact not_lt.mpr (by decide)

end Faultloggerd.AsyncStack
