import Faultloggerd.AsyncStack.Partition

/-! # Attribution of chains

The stack of a thread holds pointers to slots, and a slot is valid again once it has been handed out again. A thread
reports the chain that was pushed exactly as long as no slot is read that was released after it was pushed.
-/
namespace Faultloggerd.AsyncStack
open List History Nat Foundations.EventRuns Function Pool Tracked

/-- The pointers of a thread's stack are the slots that were pushed; the top entry stands last. -/
def Agrees (contexts : ℕ → Pointer) : List Pushed → Prop
  | [] => True
  | e :: rest => contexts rest.length = .slot e.slot ∧ Agrees contexts rest

variable {stack : List Pushed}

theorem Agrees.congr {ctxs contexts' : ℕ → Pointer} (h : Agrees ctxs stack)
    (hs : ∀ i<stack.length, contexts' i=ctxs i) : Agrees contexts' stack := by
  induction stack with
  | nil => trivial
  | cons e rest ih => refine ⟨(hs _ (lt_succ_self _)).trans h.1, ih h.2 fun i hi => hs i (lt_succ_of_lt hi)⟩

structure StackAgrees (c : ThreadAsyncContext) (stack : List Pushed) : Prop where
  count : c.curAsyncContextsCnt = stack.length
  depth : stack.length ≤ maxThreadAsyncCtxDepth
  contexts : Agrees c.contexts stack

/-- While it is not released, a pushed context keeps its slot and its chain. -/
structure EntryKept (n : ℕ) (s : Pool) (h : History) (e : Pushed) : Prop where
  slot_lt : e.slot < n
  pushedAt_lt : e.pushedAt < h.clock
  kept : h.releasedAt e.slot < e.pushedAt →
    (s.pool e.slot).valid = true ∧ (s.pool e.slot).ctxs = e.chain ∧ h.acquiredAt e.slot < e.pushedAt

structure Attributable (n : ℕ) (w : Tracked) : Prop where
  sound : Sound n w
  stackAgrees : ∀ t, StackAgrees (w.pool.threadCtxPool t) (w.history.stackOf t)
  entries : ∀ t, ∀ e ∈ w.history.stackOf t, EntryKept n w.pool w.history e

variable {n : ℕ} {w : Tracked}

variable {s : Pool}

theorem stackAgrees_of_applies {c c' : ThreadAsyncContext} {change : StackChange} {clock : ℕ}
    (h : StackAgrees c stack) (hc2 : change.Applies c c') : StackAgrees c' (change.apply s clock stack) := by
  cases change with
  | push i =>
    obtain ⟨hd, hc, hc1⟩ := hc2
    rw [h.count] at hd hc hc1
    refine ⟨hc1, hd, ?_, ?_⟩
    · rw [hc]
      exact update_self _ _ _
    · rw [hc]
      exact h.contexts.congr fun j hj => update_of_ne hj.ne _ _
  | pop =>
    obtain ⟨hc, hc1⟩ := hc2
    rw [h.count] at hc1
    cases stack with
    | nil => cases hc1
    | cons e rest =>
      refine ⟨(succ.inj hc1).symm, (le_succ _).trans h.depth, ?_⟩
      rw [hc]
      exact h.contexts.2
  | empty => exact ⟨hc2, zero_le _, trivial⟩

theorem mem_apply {change : StackChange} {clock : ℕ} {e : Pushed} (he : e∈change.apply s clock stack) :
    e∈stack ∨ ∃ i, change=.push i ∧ e=⟨i, (s.pool i).ctxs, clock⟩ := by
  cases change with
  | push i =>
    rcases mem_cons.mp he with he | he
    · exact .inr ⟨i, rfl, he⟩
    · exact .inl he
  | pop => exact .inl (mem_of_mem_tail he)
  | empty => cases he

theorem attributable_thread (h : Attributable n w) {op : Op} (hop : op.onSlots=false) : Attributable n (w.step op) := by
  have hs2 := sameSlots_run hop w.pool
  have hc := conforms hop w.pool
  have hh := handOut_of_threads hop w.pool
  have hb := giveBack_of_threads hop
  have hk : ∀ e, EntryKept n w.pool w.history e → EntryKept n (w.step op).pool (w.step op).history e := by
    intro e he
    refine ⟨he.slot_lt, lt_succ_of_lt he.pushedAt_lt, fun hr => ?_⟩
    simp only [step, record, hh, hb] at hr ⊢
    rw [hs2.pool]
    exact he.kept hr
  unfold Op.Conforms at hc
  cases hc1 : op.stackChange w.pool with
  | none =>
    rw [hc1] at hc
    have hs1 : (w.step op).history.stackOf=w.history.stackOf := by
      simp [step, record, hc1]
    have ht : (w.step op).pool.threadCtxPool=w.pool.threadCtxPool := congrArg threadCtxPool hc
    refine ⟨sound_step op h.sound, fun t => ?_, fun t e he => hk e ?_⟩
    · rw [hs1, ht]
      exact h.stackAgrees t
    · exact h.entries t e (hs1 ▸ he)
  | some r =>
    obtain ⟨t, change⟩ := r
    rw [hc1] at hc
    have hs1 : (w.step op).history.stackOf =
        update w.history.stackOf t (change.apply w.pool w.history.clock (w.history.stackOf t)) := by
      simp [step, record, hc1]
    refine ⟨sound_step op h.sound, fun u => ?_, fun u e he => ?_⟩
    · rw [hs1]
      by_cases hu : u=t
      · subst hu
        rw [update_self]
        exact stackAgrees_of_applies (h.stackAgrees u) hc.stack
      · rw [update_of_ne hu]
        exact (hc.others u hu) ▸ h.stackAgrees u
    · rw [hs1] at he
      by_cases hu : u=t
      · subst hu
        rw [update_self] at he
        rcases mem_apply he with he | ⟨i, rfl, rfl⟩
        · exact hk e (h.entries u e he)
        · obtain ⟨-, -, hi, hv⟩ := validAsyncContext_eq_some (hc.pushed i rfl)
          obtain ⟨free, hs⟩ := h.sound.partition
          refine ⟨hs.poolSize ▸ hi, lt_succ_self _, fun _ => ?_⟩
          simp only [step, record, hh]
          rw [hs2.pool]
          exact ⟨hv, rfl, h.sound.acquiredAt_lt i⟩
      · rw [update_of_ne hu] at he
        exact hk e (h.entries u e he)

theorem attributable_of_slots (h : Attributable n w) {op : Op} (hop : op.onSlots=true)
    (ht : (op.run w.pool).threadCtxPool=w.pool.threadCtxPool)
    (hk : ∀ e, EntryKept n w.pool w.history e → EntryKept n (w.step op).pool (w.step op).history e) :
    Attributable n (w.step op) := by
  have hc : op.stackChange w.pool=none := by cases op <;> first | rfl | cases hop
  have hs : (w.step op).history.stackOf=w.history.stackOf := by
    simp [step, record, hc]
  refine ⟨sound_step op h.sound, fun t => ?_, fun t e he => hk e (h.entries t e (hs ▸ he))⟩
  rw [hs]
  exact ht ▸ h.stackAgrees t

theorem attributable_acquire (h : Attributable n w) (layers : Layers) (ctx : Pointer)
    (id type : BitVec 64) : Attributable n (w.step (.acquire layers ctx id type)) := by
  obtain ⟨free, hs⟩ := h.sound.partition
  rcases acquire_cases hs layers ctx id type with ⟨hrun, hh⟩ | ⟨i, rest, hh, ho⟩
  · refine attributable_of_slots h rfl (congrArg _ hrun) fun e he => ⟨he.slot_lt, lt_succ_of_lt he.pushedAt_lt, ?_⟩
    simp only [step, record, hh, hrun]
    exact he.kept
  · refine attributable_of_slots h rfl ho.threads.threadCtxPool fun e he =>
      ⟨he.slot_lt, lt_succ_of_lt he.pushedAt_lt, fun hr => ?_⟩
    -- the slot handed out was free, so it is not one that is kept
    obtain ⟨hv, hc, ha⟩ := he.kept hr
    have hne : e.slot≠i := fun heq => by simp [heq, ho.was_free.2] at hv
    have hp : ((Op.acquire layers ctx id type).run w.pool).pool e.slot=w.pool.pool e.slot := ho.others e.slot hne
    simp only [step, record, hh, stamp, update_of_ne hne, hp]
    exact ⟨hv, hc, ha⟩

theorem release_frame {free : List ℕ} (hs : Partition n s free) (ctx : Pointer) :
    (s.releaseAsyncContext ctx).threadCtxPool=s.threadCtxPool ∧
      ∀ j, ctx≠.slot j → ((s.releaseAsyncContext ctx).pool j).valid=(s.pool j).valid ∧
        ((s.releaseAsyncContext ctx).pool j).ctxs=(s.pool j).ctxs := by
  cases hc : s.validAsyncContext ctx with
  | none =>
    rw [release_of_invalid hc]
    exact ⟨rfl, fun _ _ => ⟨rfl, rfl⟩⟩
  | some i =>
    have hb := release_of_valid hs hc
    obtain ⟨rfl, -⟩ := validAsyncContext_eq_some hc
    exact ⟨hb.threads.threadCtxPool, fun j hj => hb.others j fun heq => hj (heq ▸ rfl)⟩

theorem stamp_giveBack (times : ℕ → ℕ) (ctx : Pointer) (clock j : ℕ) :
    stamp times (Op.release ctx).giveBack clock j=if ctx=.slot j then clock else times j := by
  cases ctx with
  | slot i =>
    simp only [Op.giveBack, stamp, update_apply, Pointer.slot.injEq]
    exact if_congr eq_comm rfl rfl
  | null | outside => rfl

theorem attributable_release (h : Attributable n w) (ctx : Pointer) : Attributable n (w.step (.release ctx)) := by
  obtain ⟨free, hs⟩ := h.sound.partition
  obtain ⟨ht, ho⟩ := release_frame hs ctx
  refine attributable_of_slots h rfl ht fun e he => ⟨he.slot_lt, lt_succ_of_lt he.pushedAt_lt, fun hr => ?_⟩
  have hs1 := stamp_giveBack w.history.releasedAt ctx w.history.clock e.slot
  replace hr : stamp w.history.releasedAt (Op.release ctx).giveBack w.history.clock e.slot<e.pushedAt := hr
  rw [hs1] at hr
  split at hr
  · exact absurd he.pushedAt_lt hr.not_gt
  · next hc1 =>
    obtain ⟨hv, hc, ha⟩ := he.kept hr
    exact ⟨(ho e.slot hc1).1.trans hv, (ho e.slot hc1).2.trans hc, ha⟩

theorem attributable_step (op : Op) (h : Attributable n w) : Attributable n (w.step op) := by
  cases hop : op.onSlots with
  | true =>
    cases op with
    | acquire layers tc id type => exact attributable_acquire h layers tc id type
    | release ctx => exact attributable_release h ctx
    | _ => cases hop
  | false => exact attributable_thread h hop

theorem attributable_start {pool : ℕ} {mapped : Bool} (hi : (fresh.init pool mapped).1=true) :
    Attributable pool (start pool mapped) := by
  refine ⟨sound_start hi, fun t => ?_, fun t e he => by cases he⟩
  refine ⟨?_, zero_le _, trivial⟩
  change ((fresh.init pool mapped).2.threadCtxPool t).curAsyncContextsCnt=0
  unfold init
  split
  · rfl
  · split
    · rfl
    · split <;> rfl

/-- What a thread reads is the chain of its top entry as it was pushed, and the slot was not acquired again since. -/
def Attributed (w : Tracked) : Op → Prop
  | .read layers threadCtx sz =>
    let chain := w.pool.getCurrentChainedContext layers threadCtx sz
    chain ≠ [] → ∃ t e rest, w.pool.validThreadContext threadCtx = some t ∧ w.history.stackOf t = e::rest ∧
      chain = Pool.readChain e.chain (min layers.val sz) 0 ∧ w.history.acquiredAt e.slot < e.pushedAt
  | _ => True

/-- The top entry of a thread that reads was not released since it was pushed, unless the slot holds no chain. -/
def NotRecycled (w : Tracked) : Op → Prop
  | .read _ threadCtx sz => ∀ t e rest, w.pool.validThreadContext threadCtx = some t →
      w.history.stackOf t = e::rest → sz ≠ 0 → (w.pool.pool e.slot).valid = true →
      ((w.pool.pool e.slot).ctxs 0).id ≠ 0 → w.history.releasedAt e.slot < e.pushedAt
  | _ => True

theorem currentContext_eq (h : Attributable n w) (ctx : Pointer) : w.pool.currentContext ctx =
    match w.pool.validThreadContext ctx with
    | none => none
    | some t =>
      match w.history.stackOf t with
      | [] => none
      | e::_ => if (w.pool.pool e.slot).valid then some e.slot else none := by
  unfold currentContext
  cases w.pool.validThreadContext ctx with
  | none => rfl
  | some t =>
    have ha := h.stackAgrees t
    have he := h.entries t
    dsimp only
    rw [ha.count]
    cases hs1 : w.history.stackOf t with
    | nil => rfl
    | cons e rest =>
      rw [hs1] at ha he
      obtain ⟨free, hs⟩ := h.sound.partition
      rw [if_neg (by have := ha.depth; simp only [length_cons] at this ⊢; omega)]
      rw [length_cons, Nat.add_sub_cancel, ha.contexts.1]
      exact validAsyncContext_slot hs (he e mem_cons_self).slot_lt

theorem readChain_ne_nil {ctxs : ℕ → AsyncCtx} {count : ℕ} : readChain ctxs count 0≠[] ↔ count≠0 ∧ (ctxs 0).id≠0 := by
  cases count with
  | zero | succ count => simp [readChain]

theorem getCurrentChainedContext_eq (layers : Layers) (tc : Pointer) (sz : ℕ) (s : Pool) :
    s.getCurrentChainedContext layers tc sz=match s.currentContext tc with
      | none => []
      | some ctx => readChain (s.pool ctx).ctxs (min layers.val sz) 0 := by
  have hm : (if layers.val<sz then layers.val else sz)=min layers.val sz := by
    split <;> omega
  unfold getCurrentChainedContext
  rw [hm]
  split
  · next hn =>
    rcases hn with rfl | rfl
    · rfl
    · split
      · rfl
      · rw [Nat.min_zero]
        rfl
  · rfl

section

variable (h : Attributable n w)
include h

theorem getCurrentChainedContext_of_top (layers : Layers) (sz : ℕ) {ctx : Pointer} {t : ℕ}
    {e : Pushed} {rest : List Pushed} (ht : w.pool.validThreadContext ctx=some t)
    (hs : w.history.stackOf t=e::rest) (hv : (w.pool.pool e.slot).valid=true) :
    w.pool.getCurrentChainedContext layers ctx sz = readChain (w.pool.pool e.slot).ctxs (min layers.val sz) 0 := by
  have hc : w.pool.currentContext ctx=some e.slot := by
    rw [currentContext_eq h, ht]
    dsimp only
    rw [hs]
    exact if_pos hv
  rw [getCurrentChainedContext_eq, hc]

theorem top_of_getCurrentChainedContext {layers : Layers} {ctx : Pointer} {sz : ℕ}
    (hne : w.pool.getCurrentChainedContext layers ctx sz≠[]) :
    ∃ t e rest, w.pool.validThreadContext ctx=some t ∧ w.history.stackOf t=e::rest ∧
      (w.pool.pool e.slot).valid=true := by
  rw [getCurrentChainedContext_eq, currentContext_eq h] at hne
  cases ht : w.pool.validThreadContext ctx with
  | none => simp [ht] at hne
  | some t =>
    cases hs : w.history.stackOf t with
    | nil => simp [ht, hs] at hne
    | cons e rest =>
      refine ⟨t, e, rest, rfl, hs, ?_⟩
      by_contra hvalid
      simp [ht, hs, hvalid] at hne

theorem attributed_read (layers : Layers) (ctx : Pointer) (sz : ℕ) :
    Attributed w (.read layers ctx sz) ↔ NotRecycled w (.read layers ctx sz) := by
  have hl := layers.property.1
  constructor
  · intro ha1 t e rest ht hs hsz hv hid
    have he := h.entries t e (hs ▸ mem_cons_self)
    have hr := getCurrentChainedContext_of_top h layers sz ht hs hv
    obtain ⟨u, f, tail, ht', hs', -, ha⟩ := ha1 (by
      rw [hr, readChain_ne_nil]
      exact ⟨by omega, hid⟩)
    cases ht.symm.trans ht'
    cases hs.symm.trans hs'
    exact ((h.sound.valid_iff e.slot he.slot_lt).mp hv).trans ha
  · intro hk hne
    obtain ⟨t, e, rest, ht, hs, hv⟩ := top_of_getCurrentChainedContext h hne
    have hr := getCurrentChainedContext_of_top h layers sz ht hs hv
    rw [hr, readChain_ne_nil] at hne
    have he := h.entries t e (hs ▸ mem_cons_self)
    obtain ⟨-, hc, ha⟩ := he.kept (hk t e rest ht hs (by omega) hv hne.2)
    exact ⟨t, e, rest, ht, hs, by rw [hr, hc], ha⟩

theorem attributed_iff (op : Op) : Attributed w op ↔ NotRecycled w op := by
  cases op with
  | read layers ctx sz => exact attributed_read h layers ctx sz
  | _ => exact Iff.rfl

end

/-- Reads are attributed exactly in the runs in which no entry that is read was recycled. -/
theorem chain_attribution (chainPoolSize : ℕ) (mapped : Bool)
    (hinit : (Pool.fresh.init chainPoolSize mapped).1=true) (ops : List Op) :
    Every Tracked.step Attributed ops (Tracked.start chainPoolSize mapped) ↔
      Every Tracked.step NotRecycled ops (Tracked.start chainPoolSize mapped) :=
  every_congr (Attributable chainPoolSize) (fun _ op h _ => attributable_step op h) (attributable_start hinit)
    fun _ op h => attributed_iff h op

def pushingOps : List Op :=
  [.acquireThread, .acquire defaultLayers .null 5 1, .push (.slot 0) (.slot 0)]

theorem pushed_chain_reported :
    Every Tracked.step Attributed (pushingOps++[.read defaultLayers (.slot 0) 4]) (Tracked.start 2 true) ∧
      (run Tracked.step pushingOps (Tracked.start 2 true)).pool.getCurrentChainedContext defaultLayers (.slot 0) 4 =
        [⟨1, 5⟩] := by
  refine ⟨(chain_attribution 2 true rfl _).mpr ?_, by decide⟩
  have hk : ∀ e∈(run step pushingOps (start 2 true)).history.stackOf 0,
      (run step pushingOps (start 2 true)).history.releasedAt e.slot<e.pushedAt := by decide
  refine (every_append _ _).mpr ⟨⟨trivial, trivial, trivial, trivial⟩, ?_, trivial⟩
  intro t e rest ht hs _ _ _
  cases ht
  exact hk e (hs ▸ mem_cons_self)

/-- Its context is released and comes back to another task by way of the second slot. -/
def recyclingOps : List Op :=
  pushingOps++[.release (.slot 0), .acquire defaultLayers .null 6 2, .release (.slot 1),
    .acquire defaultLayers .null 7 2]

/-- The thread then reports the chain of a task it has nothing to do with. -/
theorem recycled_chain_reported :
    let w := run Tracked.step recyclingOps (Tracked.start 2 true)
    (Pool.fresh.init 2 true).1=true ∧
      (w.history.stackOf 0).map (fun e => (e.slot, Pool.readChain e.chain 4 0))=[(0, [⟨1, 5⟩])] ∧
      w.pool.getCurrentChainedContext defaultLayers (.slot 0) 4=[⟨2, 7⟩] ∧
      ¬Every Tracked.step Attributed (recyclingOps++[.read defaultLayers (.slot 0) 4]) (Tracked.start 2 true) := by
  intro w
  refine ⟨rfl, by decide, by decide, fun he => ?_⟩
  have hl : ∀ e∈w.history.stackOf 0, ¬w.history.acquiredAt e.slot<e.pushedAt := by decide
  obtain ⟨-, hr, -⟩ := (every_append _ _).mp he
  obtain ⟨t, e, rest, ht, hs, -, ha⟩ := hr (by decide)
  cases ht
  exact hl e (hs ▸ mem_cons_self) ha

end Faultloggerd.AsyncStack
