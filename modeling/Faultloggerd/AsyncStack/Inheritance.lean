import Faultloggerd.AsyncStack.Partition

/-! # The chain a context inherits

A context acquired on a thread starts with its own entry and goes on with the chain on top of the thread's stack. A
slot is cleared when it is given back, so nothing of an earlier use shows. The slot at the head of the queue may still
be on top of the stack: it is valid again when the top is checked, and its new chain is then copied into itself.
-/
namespace Faultloggerd.AsyncStack
open List Foundations.EventRuns Function Pool Option Nat

def Pool.topContext (threadCtx : Pointer) (s : Pool) : Pointer :=
  match s.validThreadContext threadCtx with
  | none => .null
  | some t =>
    let count := (s.threadCtxPool t).curAsyncContextsCnt
    if count = 0 ∨ maxThreadAsyncCtxDepth < count then .null else (s.threadCtxPool t).contexts (count-1)

def Pool.chain (i : ℕ) (s : Pool) : List AsyncCtx := readChain (s.pool i).ctxs maxAsyncChainLayersLimit 0

/-- The chain of the context that is acquired, from the top of the stack as the call finds it. -/
def Inherits (s : Pool) (op : Op) : Prop :=
  match op with
  | .acquire layers threadCtx stackId asyncType => stackId ≠ 0 → ∀ i, op.handOut s = some i →
      (op.run s).chain i = ⟨asyncType, stackId⟩ ::
        (s.currentContext threadCtx).elim [] fun cur => (s.chain cur).take (layers.val-1)
  | _ => True

/-- A slot is handed out that is not on top of the stack, or there is no layer to copy. -/
def HeadElsewhere (s : Pool) (op : Op) : Prop :=
  match op with
  | .acquire layers threadCtx stackId _ => stackId ≠ 0 → s.freeListHead ≠ s.freeListTail →
      layers.val = 1 ∨ ∀ i, s.freeListHead = some i → s.topContext threadCtx ≠ .slot i
  | _ => True

variable {n i : ℕ} {s : Pool}

theorem currentContext_eq_top (ctx : Pointer) (s : Pool) :
    s.currentContext ctx=s.validAsyncContext (s.topContext ctx) := by
  unfold currentContext topContext
  cases s.validThreadContext ctx with
  | none => rfl
  | some t =>
    dsimp only
    split_ifs <;> rfl

theorem take_readChain (ctxs : ℕ → AsyncCtx) {count cap : ℕ} (h : count≤ cap) (k : ℕ) :
    (readChain ctxs cap k).take count=readChain ctxs count k := by
  induction count generalizing cap k with
  | zero => rfl
  | succ count ih =>
    obtain _ | cap := cap
    · exact absurd h (not_succ_le_zero count)
    rw [readChain, readChain]
    split_ifs
    · rfl
    · rw [take_succ_cons, ih (by omega)]

theorem readChain_eq_nil {ctxs : ℕ → AsyncCtx} {k : ℕ} (h : ctxs k=⟨0, 0⟩) (count : ℕ) : readChain ctxs count k=[] := by
  cases count with
  | zero => rfl
  | succ count => rw [readChain, h, if_pos rfl]

variable {ctx cur : ℕ}

theorem ctxs_copyChain_le (count k : ℕ) (s : Pool) {j : ℕ} (hj : j≤k) :
    ((copyChain ctx cur count k s).pool ctx).ctxs j=(s.pool ctx).ctxs j := by
  induction count generalizing k s with
  | zero => rfl
  | succ count ih =>
    rw [copyChain]
    split_ifs
    · rfl
    · rw [ih _ _ (Nat.le_succ_of_le hj)]
      simp [Pool.modify, update_of_ne (Nat.ne_of_lt (Nat.lt_succ_of_le hj))]

/-- Behind layer `k` stands what the loop reads in the other slot from layer `k` on. -/
theorem readChain_copyChain (hne : cur≠ctx) (count k cap : ℕ) (s : Pool) (hc2 : count≤ cap)
    (hc : ∀ j, k<j → (s.pool ctx).ctxs j=⟨0, 0⟩) :
    readChain ((copyChain ctx cur count k s).pool ctx).ctxs cap (k+1)=readChain (s.pool cur).ctxs count k := by
  induction count generalizing k cap s with
  | zero => exact readChain_eq_nil (hc _ (lt_succ_self k)) cap
  | succ count ih =>
    obtain _ | cap := cap
    · exact absurd hc2 (not_succ_le_zero count)
    rw [copyChain, readChain.eq_2 (s.pool cur).ctxs]
    split_ifs with hid
    · exact readChain_eq_nil (hc _ (lt_succ_self k)) _
    · rw [readChain, ctxs_copyChain_le _ _ _ le_rfl]
      have hc1 := ih (k+1) cap (s.modify ctx fun c => {c with ctxs := update c.ctxs (k+1) ((s.pool cur).ctxs k)})
        (by omega) fun j hj => by simp [Pool.modify, update_of_ne (ne_of_gt hj), hc j (by omega)]
      rw [hc1]
      simp only [Pool.modify, update_self, update_of_ne hne, if_neg hid]

def Cleared (s : Pool) : Prop := ∀ i, (s.pool i).valid = false → (s.pool i).ctxs = noCtxs

variable {free : List ℕ}

theorem cleared_run (op : Op) (hs : Partition n s free) (h : Cleared s) : Cleared (op.run s) := by
  intro i hi
  cases hop : op.onSlots with
  | true =>
    cases op with
    | acquire layers ctx stackId type =>
      rcases acquire_cases hs layers ctx stackId type with ⟨hrun, -⟩ | ⟨j, rest, -, ho⟩
      · rw [hrun] at hi ⊢
        exact h i hi
      · have hne : i≠j := by
          rintro rfl
          exact Bool.false_ne_true (hi.symm.trans ho.valid)
        rw [ho.others i hne] at hi ⊢
        exact h i hi
    | release ctx =>
      rw [Op.run] at hi ⊢
      cases hc : s.validAsyncContext ctx with
      | none =>
        rw [release_of_invalid hc] at hi ⊢
        exact h i hi
      | some j =>
        have hb := release_of_valid hs hc
        by_cases hij : i=j
        · exact hij ▸ hb.cleared
        · rw [(hb.others i hij).1] at hi
          rw [(hb.others i hij).2, h i hi]
    | _ => cases hop
  | false =>
    rw [(sameSlots_run hop s).pool] at hi ⊢
    exact h i hi

variable {ctx : Pointer} {stackId type : BitVec 64}

theorem acquire_chain (hi : s.initialized=true) (hh : s.freeListHead=some i)
    (ht : s.freeListHead≠s.freeListTail) (layers : Layers) :
    s.acquireAndInitAsyncContext layers ctx stackId type=(some i,
      ((s.takeHead i stackId type).currentContext ctx).elim (s.takeHead i stackId type)
        fun cur => copyChain i cur (layers.val-1) 0 (s.takeHead i stackId type)) := by
  rw [acquireAndInitAsyncContext, if_neg (by simp [hi]), if_neg ht, hh]
  dsimp only
  cases (s.takeHead i stackId type).currentContext ctx <;> rfl

theorem chain_eq_cons (h : (s.pool i).ctxs 0=⟨type, stackId⟩) (hid : stackId≠0) :
    s.chain i=⟨type, stackId⟩::readChain (s.pool i).ctxs 16 1 := by
  rw [chain, maxAsyncChainLayersLimit, readChain, h, if_neg hid]

theorem ctxs_takeHead (hc : (s.pool i).ctxs=noCtxs) (j : ℕ) :
    ((s.takeHead i stackId type).pool i).ctxs j=if j=0 then ⟨type, stackId⟩ else ⟨0, 0⟩ := by
  simp [takeHead, Pool.modify, hc, noCtxs, update_apply]

/-- The new slot is on top of the stack: its first entry is copied to the second place. -/
theorem chain_self (hc : (s.pool i).ctxs=noCtxs) (hid : stackId≠0) (layers : Layers) :
    readChain ((copyChain i i (layers.val-1) 0 (s.takeHead i stackId type)).pool i).ctxs 16 1=[] ↔
      layers.val=1 := by
  obtain _ | _ | count := layers
  · omega
  · exact iff_of_true (readChain_eq_nil (ctxs_takeHead hc 1) 16) rfl
  · have hf : ((s.takeHead i stackId type).pool i).ctxs 0=⟨type, stackId⟩ := ctxs_takeHead hc 0
    have hs : ((copyChain i i (count+1) 0 (s.takeHead i stackId type)).pool i).ctxs 1 = ⟨type, stackId⟩ := by
      rw [copyChain, hf, if_neg hid, ctxs_copyChain_le _ _ _ le_rfl]
      simp [Pool.modify]
    refine iff_of_false ?_ (succ_succ_ne_one count)
    rw [Nat.add_sub_cancel, readChain, hs, if_neg hid]
    exact cons_ne_nil _ _

theorem validAsyncContext_takeHead {p : Pointer} (h : p≠.slot i) :
    (s.takeHead i stackId type).validAsyncContext p=s.validAsyncContext p := by
  cases p with
  | slot j =>
    have hj : j≠i := fun hj => h (hj ▸ rfl)
    have hp : (s.takeHead i stackId type).pool j=s.pool j := update_of_ne hj _ _
    rw [validAsyncContext, hp]
    rfl
  | _ => rfl

theorem inherits_acquire (hs : Partition n s (i::free)) (h : Cleared s) (hh : s.freeListHead=some i)
    (ht1 : s.freeListHead≠s.freeListTail) (hid : stackId≠0) (layers : Layers) (ctx : Pointer)
    (type : BitVec 64) :
    ((s.acquireAndInitAsyncContext layers ctx stackId type).2.chain i=⟨type, stackId⟩ ::
        (s.currentContext ctx).elim [] fun cur => (s.chain cur).take (layers.val-1)) ↔
      layers.val=1 ∨ s.topContext ctx≠.slot i := by
  obtain ⟨hi, hf1⟩ := (hs.mem_free i).mp mem_cons_self
  have hc := h i hf1
  have hf : ((s.takeHead i stackId type).pool i).ctxs 0=⟨type, stackId⟩ := ctxs_takeHead hc 0
  have hc1 : (s.takeHead i stackId type).currentContext ctx =
      (s.takeHead i stackId type).validAsyncContext (s.topContext ctx) := currentContext_eq_top _ _
  rw [acquire_chain hs.initialized hh ht1, hc1, currentContext_eq_top]
  by_cases ht : s.topContext ctx=.slot i
  · have hv : (s.takeHead i stackId type).validAsyncContext (.slot i)=some i := by
      simp [validAsyncContext, isValidAsyncContextAddressLocked, takeHead, Pool.modify, hs.initialized, hs.poolSize, hi]
    rw [ht, hv, validAsyncContext_slot hs hi, hf1, elim_some,
      chain_eq_cons ((ctxs_copyChain_le _ _ _ le_rfl).trans hf) hid]
    simpa using chain_self hc hid layers
  · refine iff_of_true ?_ (.inr ht)
    rw [validAsyncContext_takeHead ht]
    cases hc2 : s.validAsyncContext (s.topContext ctx) with
    | none =>
      rw [elim_none, chain_eq_cons hf hid, readChain_eq_nil (ctxs_takeHead hc 1)]
      rfl
    | some cur =>
      have hne : cur≠i := by
        rintro rfl
        exact ht (validAsyncContext_eq_some hc2).1
      rw [elim_some, chain_eq_cons ((ctxs_copyChain_le _ _ _ le_rfl).trans hf) hid,
        readChain_copyChain hne _ _ _ _ (sub_le_of_le_add layers.2.2) fun j hj => ?_]
      · rw [elim_some, chain, take_readChain _ (sub_le_of_le_add (le_succ_of_le layers.2.2))]
        simp [takeHead, Pool.modify, hne]
      · rw [ctxs_takeHead hc, if_neg (ne_of_gt hj)]

theorem inherits_iff (op : Op) (hs : Partition n s free) (h : Cleared s) : Inherits s op ↔ HeadElsewhere s op := by
  cases op with
  | acquire layers ctx stackId type =>
    simp only [Inherits, Op.handOut, Op.run]
    refine forall_congr' fun hid => ?_
    by_cases he : s.freeListHead=s.freeListTail
    · simp [acquireAndInitAsyncContext, he]
    · obtain ⟨i, j, rest, rfl, hh⟩ := hs.threaded.exists_two he
      have ha := inherits_acquire hs h hh he hid layers ctx type
      rw [acquire_chain hs.initialized hh he] at ha ⊢
      rw [imp_iff_right he]
      simpa only [hh, some.injEq, forall_eq'] using ha
  | _ => exact Iff.rfl

/-- Every context inherits the chain exactly in the runs in which none is handed out that is on top of the stack. -/
theorem chain_inherited {chainPoolSize : ℕ} {mapped : Bool} (hinit : (fresh.init chainPoolSize mapped).1=true)
    (ops : List Op) : Every Tracked.step (fun w => Inherits w.pool) ops (.start chainPoolSize mapped) ↔
      Every Tracked.step (fun w => HeadElsewhere w.pool) ops (.start chainPoolSize mapped) := by
  refine every_congr (fun w => Sound chainPoolSize w ∧ Cleared w.pool) ?_ ⟨sound_start hinit, ?_⟩ ?_
  · rintro w op ⟨hs1, hc⟩ -
    obtain ⟨free, hs⟩ := hs1.partition
    exact ⟨sound_step op hs1, cleared_run op hs hc⟩
  · intro i _
    simp only [Tracked.start, init]
    split_ifs <;> rfl
  · rintro w op ⟨hs1, hc⟩
    obtain ⟨free, hs⟩ := hs1.partition
    exact inherits_iff op hs hc

/-- A thread acquires twice and pushes what it gets. -/
def nestedOps : List Op := [.acquireThread, .acquire defaultLayers (.slot 0) 5 1, .push (.slot 0) (.slot 0),
  .acquire defaultLayers (.slot 0) 6 2]

theorem chain_inherited_nested : Every Tracked.step (fun w => Inherits w.pool) nestedOps (.start 3 true) := by
  refine (chain_inherited rfl nestedOps).mpr ⟨trivial, fun _ _ => .inr ?_, trivial, fun _ _ => .inr ?_, trivial⟩
  all_goals
    intro i hi
    cases hi
    decide

/-- The context on top is given back and comes round to the head of the queue. -/
def returningOps : List Op := [.acquireThread, .acquire defaultLayers (.slot 0) 5 1, .push (.slot 0) (.slot 0),
  .release (.slot 0), .acquire defaultLayers .null 6 2, .release (.slot 1)]

theorem chain_copied_into_itself : let w := run Tracked.step returningOps (.start 2 true)
    (fresh.init 2 true).1=true ∧ w.pool.currentContext (.slot 0)=none ∧
      ((Op.acquire defaultLayers (.slot 0) 7 3).run w.pool).chain 0=replicate 10 ⟨3, 7⟩ ∧
      ¬Inherits w.pool (.acquire defaultLayers (.slot 0) 7 3) := by
  refine ⟨rfl, by decide, by decide, fun h => ?_⟩
  have hc := h (by decide) 0 (by decide)
  revert hc
  decide

end Faultloggerd.AsyncStack
