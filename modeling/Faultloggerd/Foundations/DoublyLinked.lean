import Mathlib.Data.List.Nodup

/-! # Doubly linked lists in a flat memory

A memory maps addresses to words. A node is an address; `prev` and `next` give the cells in which it
keeps its links, and 0 is the null pointer. `Segment` describes a stretch of a list by its nodes and
by what lies before and after it; `Linked` is a whole list. Inserting at the front and unlinking a
node act on the list of nodes as expected (`pushFront_linked`, `unlink_linked`) and write no cell but
links of nodes of the list (`pushFront_frame`, `unlink_frame`).
-/
namespace Faultloggerd.Foundations.DoublyLinked
open Function List DoublyLinked Option

/-- Where nodes keep their links: no cell serves two purposes. -/
structure Cells (Node : ℕ → Prop) (prev next : ℕ → ℕ) : Prop where
  prev_inj : ∀ x y, Node x → Node y → prev x = prev y → x = y
  next_inj : ∀ x y, Node x → Node y → next x = next y → x = y
  prev_ne_next : ∀ x y, Node x → Node y → prev x ≠ next y

variable {Node : ℕ → Prop} {prev next : ℕ → ℕ}

/-! ## Segments -/

/-- The nodes `xs` from `head` on; `before` is the predecessor of the first, `last` the last node
(`before` if there is none) and `after` what follows. -/
def Segment (prev next : ℕ → ℕ) (m : ℕ → ℕ) : ℕ → ℕ → List ℕ → ℕ → ℕ → Prop
  | before, head, [], last, after => head = after ∧ last = before
  | before, head, x :: xs, last, after => head = x ∧ x ≠ 0 ∧ m (prev x) = before ∧
      Segment prev next m x (m (next x)) xs last after

def Linked (prev next : ℕ → ℕ) (m : ℕ → ℕ) (head : ℕ) (xs : List ℕ) : Prop :=
  ∃ last, Segment prev next m 0 head xs last 0

variable {m m' m'' : ℕ → ℕ} {before head last after x y : ℕ} {xs ys : List ℕ}

abbrev SameLinks (prev next m m' : ℕ → ℕ) (y : ℕ) : Prop := m' (prev y) = m (prev y) ∧ m' (next y) = m (next y)

theorem SameLinks.trans (h : SameLinks prev next m m' y) (h' : SameLinks prev next m' m'' y) :
    SameLinks prev next m m'' y := ⟨h'.1.trans h.1, h'.2.trans h.2⟩

theorem SameLinks.ite {p : Prop} [Decidable p] (h : p → SameLinks prev next m m' y) :
    SameLinks prev next m (if p then m' else m) y := by
  split_ifs with hp
  · exact h hp
  · exact ⟨rfl, rfl⟩

theorem Cells.same_prev (hc : Cells Node prev next) (hx : Node x) (hy : Node y) (hne : y≠x) (v : ℕ) :
    SameLinks prev next m (update m (prev x) v) y :=
  ⟨update_of_ne (fun he => hne (hc.prev_inj _ _ hy hx he)) _ _, update_of_ne (hc.prev_ne_next _ _ hx hy).symm _ _⟩

theorem Cells.same_next (hc : Cells Node prev next) (hx : Node x) (hy : Node y) (hne : y≠x) (v : ℕ) :
    SameLinks prev next m (update m (next x) v) y :=
  ⟨update_of_ne (hc.prev_ne_next _ _ hy hx) _ _, update_of_ne (fun he => hne (hc.next_inj _ _ hy hx he)) _ _⟩

theorem segment_append : Segment prev next m before head (xs++ys) last after ↔
      ∃ l a, Segment prev next m before head xs l a ∧ Segment prev next m l a ys last after := by
  induction xs generalizing before head with
  | nil =>
    constructor
    · intro h
      exact ⟨before, head, ⟨rfl, rfl⟩, h⟩
    · rintro ⟨l, a, ⟨rfl, rfl⟩, h⟩
      exact h
  | cons x xs ih =>
    simp only [cons_append, Segment, ih]
    constructor
    · rintro ⟨h1, h2, h3, l, a, h4, h5⟩
      exact ⟨l, a, ⟨h1, h2, h3, h4⟩, h5⟩
    · rintro ⟨l, a, ⟨h1, h2, h3, h4⟩, h5⟩
      exact ⟨h1, h2, h3, l, a, h4, h5⟩

theorem Segment.congr (h : Segment prev next m before head xs last after)
    (hm : ∀ x∈xs, SameLinks prev next m m' x) : Segment prev next m' before head xs last after := by
  induction xs generalizing before head with
  | nil => exact h
  | cons x xs ih =>
    obtain ⟨h1, h2, h3, h4⟩ := h
    obtain ⟨hx, hm⟩ := forall_mem_cons.mp hm
    refine ⟨h1, h2, hx.1.trans h3, ?_⟩
    rw [hx.2]
    exact ih h4 hm

theorem Linked.congr (h : Linked prev next m head xs) (hm : ∀ x∈xs, SameLinks prev next m m' x) :
    Linked prev next m' head xs := by
  obtain ⟨last, h⟩ := h
  exact ⟨last, h.congr hm⟩

theorem linked_nil : Linked prev next m head [] ↔ head=0 := by
  constructor
  · rintro ⟨-, h, -⟩
    exact h
  · intro h
    exact ⟨0, h, rfl⟩

theorem Linked.head_eq (h : Linked prev next m head (x::xs)) : head=x := by
  obtain ⟨-, h, -⟩ := h
  exact h

theorem Segment.ne_zero (h : Segment prev next m before head xs last after) : ∀ x∈xs, x≠0 := by
  induction xs generalizing before head with
  | nil => simp
  | cons y ys ih => exact forall_mem_cons.mpr ⟨h.2.1, ih h.2.2.2⟩

theorem Segment.last_mem (h : Segment prev next m before head xs last after) (hne : xs≠[]) : last∈xs := by
  induction xs generalizing before head with
  | nil => exact absurd rfl hne
  | cons x xs ih =>
    obtain ⟨-, -, -, h⟩ := h
    cases xs with
    | nil =>
      obtain ⟨-, rfl⟩ := h
      simp
    | cons y ys => exact mem_cons_of_mem _ (ih h (by simp))

theorem Segment.set_last (hc : Cells Node prev next) (hnode : ∀ x∈xs, Node x) (hnd : xs.Nodup)
    (h : Segment prev next m before head xs last after) (hne : xs≠[]) (a : ℕ) :
    Segment prev next (update m (next last) a) before head xs last a := by
  induction xs generalizing before head with
  | nil => exact absurd rfl hne
  | cons x xs ih =>
    have hl := hnode last (h.last_mem hne)
    obtain ⟨h1, h2, h3, h4⟩ := h
    obtain ⟨hx, hnd⟩ := nodup_cons.mp hnd
    obtain ⟨hnx, hnode⟩ := forall_mem_cons.mp hnode
    refine ⟨h1, h2, by rw [update_of_ne (hc.prev_ne_next _ _ hnx hl), h3], ?_⟩
    cases xs with
    | nil =>
      obtain ⟨-, rfl⟩ := h4
      rw [update_self]
      exact ⟨rfl, rfl⟩
    | cons y ys =>
      have hx1 : x≠last := fun he => hx (he ▸ h4.last_mem (by simp))
      rw [(hc.same_next hl hnx hx1 a).2]
      exact ih hnode hnd h4 (by simp)

theorem Segment.set_first (hc : Cells Node prev next) (hnode : ∀ x∈xs, Node x) (hnd : xs.Nodup)
    (h : Segment prev next m before head xs last after) (hne : xs≠[]) (b : ℕ) :
    Segment prev next (update m (prev head) b) b head xs last after := by
  cases xs with
  | nil => exact absurd rfl hne
  | cons x xs =>
    obtain ⟨rfl, h2, -, h4⟩ := h
    obtain ⟨hx, -⟩ := nodup_cons.mp hnd
    obtain ⟨hnx, hnode⟩ := forall_mem_cons.mp hnode
    refine ⟨rfl, h2, update_self _ _ _, ?_⟩
    rw [update_of_ne (hc.prev_ne_next _ _ hnx hnx).symm]
    exact h4.congr fun y hy => hc.same_prev hnx (hnode y hy) (fun he => hx (he ▸ hy)) b

/-! ## Inserting at the front -/

/-- `x->next = head; x->prev = NULL; if (head) head->prev = x`. -/
def pushFront (prev next : ℕ → ℕ) (m : ℕ → ℕ) (head x : ℕ) : ℕ → ℕ :=
  let m := Function.update m (next x) head
  let m := Function.update m (prev x) 0
  if head ≠ 0 then Function.update m (prev head) x else m

theorem pushFront_frame (h : Linked prev next m head xs) {x a : ℕ}
    (ha : ∀ y∈x::xs, a≠prev y ∧ a≠next y) : pushFront prev next m head x a=m a := by
  obtain ⟨hx, ha⟩ := forall_mem_cons.mp ha
  have hb : update (update m (next x) head) (prev x) 0 a=m a := by
    rw [update_of_ne hx.1, update_of_ne hx.2]
  unfold pushFront
  split_ifs with h0
  · cases xs with
    | nil => exact absurd (linked_nil.mp h) h0
    | cons y ys => rw [h.head_eq, update_of_ne (ha y (by simp)).1, ←h.head_eq, hb]
  · exact hb

theorem pushFront_linked (hc : Cells Node prev next) (hnode : ∀ y∈x::xs, Node y)
    (hnd : (x::xs).Nodup) (hx : x≠0) (h : Linked prev next m head xs) :
    Linked prev next (pushFront prev next m head x) x (x::xs) := by
  obtain ⟨hxs, hnd'⟩ := nodup_cons.mp hnd
  obtain ⟨hnx, hnode⟩ := forall_mem_cons.mp hnode
  have hpn : prev x≠next x := hc.prev_ne_next _ _ hnx hnx
  unfold pushFront
  cases xs with
  | nil =>
    rw [linked_nil] at h
    subst h
    rw [if_neg (by simp)]
    refine ⟨x, rfl, hx, update_self _ _ _, ?_⟩
    rw [update_of_ne hpn.symm, update_self]
    exact ⟨rfl, rfl⟩
  | cons y ys =>
    obtain rfl : head=y := h.head_eq
    have hnh : Node head := hnode head (by simp)
    have hne : x≠head := fun he => hxs (by simp [he])
    obtain ⟨last, hs⟩ := h
    -- the old list is untouched by the first two writes
    have ho : Segment prev next (update (update m (next x) head) (prev x) 0) 0 head (head::ys) last 0 :=
      hs.congr fun z hz =>
        have hzx : z≠x := fun he => hxs (he ▸ hz)
        (hc.same_next hnx (hnode z hz) hzx head).trans (hc.same_prev hnx (hnode z hz) hzx 0)
    rw [if_pos (hs.2.1)]
    refine ⟨last, rfl, hx, ?_, ?_⟩
    · rw [(hc.same_prev hnh hnx hne x).1, update_self]
    · rw [(hc.same_prev hnh hnx hne x).2, update_of_ne hpn.symm, update_self]
      exact ho.set_first hc hnode hnd' (by simp) x

/-! ## Unlinking a node -/

/-- `x->prev->next = x->next`, `x->next->prev = x->prev` where they exist, the head moved if it is
`x`, and the links of `x` cleared. -/
def unlink (prev next : ℕ → ℕ) (m : ℕ → ℕ) (head x : ℕ) : (ℕ → ℕ) × ℕ :=
  let m := if m (prev x) ≠ 0 then Function.update m (next (m (prev x))) (m (next x)) else m
  let m := if m (next x) ≠ 0 then Function.update m (prev (m (next x))) (m (prev x)) else m
  let head := if head = x then m (next x) else head
  (Function.update (Function.update m (prev x) 0) (next x) 0, head)

section Unlink
variable {pre post : List ℕ} {l q : ℕ}

theorem Segment.bypass (hc : Cells Node prev next) (hnode : ∀ y∈pre, Node y) (hnd : pre.Nodup)
    (hx : x∉pre) (h : Segment prev next m 0 head pre last x) (q : ℕ) :
    Segment prev next (if last≠0 then update m (next last) q else m) 0 (if head=x then q else head) pre last q := by
  cases pre with
  | nil =>
    obtain ⟨rfl, rfl⟩ := h
    rw [if_pos rfl]
    exact ⟨rfl, rfl⟩
  | cons y ys =>
    have hl : last≠0 := h.ne_zero _ (h.last_mem (by simp))
    have hh : head≠x := by
      rintro rfl
      exact hx (by rw [h.1]; simp)
    rw [if_pos hl, if_neg hh]
    exact h.set_last hc hnode hnd (by simp) q

theorem Segment.rejoin (hc : Cells Node prev next) (hnode : ∀ y∈post, Node y)
    (hnd : post.Nodup) (h : Segment prev next m x q post last 0) (l : ℕ) :
    ∃ last', Segment prev next (if q≠0 then update m (prev q) l else m) l q post last' 0 := by
  cases post with
  | nil =>
    obtain ⟨rfl, -⟩ := h
    exact ⟨l, rfl, rfl⟩
  | cons y ys =>
    rw [if_pos (h.1 ▸ h.2.1)]
    exact ⟨last, h.set_first hc hnode hnd (by simp) l⟩

def bridge (prev next : ℕ → ℕ) (m : ℕ → ℕ) (l q : ℕ) : ℕ → ℕ :=
  let m := if l ≠ 0 then Function.update m (next l) q else m
  if q ≠ 0 then Function.update m (prev q) l else m

theorem ite_update_of_ne {p : Prop} [Decidable p] {a b v : ℕ} (h : p → a≠b) :
    (if p then update m b v else m) a=m a := by
  split_ifs with hp
  · exact update_of_ne (h hp) _ _
  · rfl

theorem bridge_frame {a : ℕ} (hl : l≠0 → a≠next l) (hq : q≠0 → a≠prev q) : bridge prev next m l q a=m a := by
  unfold bridge
  rw [ite_update_of_ne hq, ite_update_of_ne hl]

theorem Linked.neighbours (h : Linked prev next m head (pre++x::post)) :
    (m (prev x)≠0 → m (prev x)∈pre) ∧ (m (next x)≠0 → m (next x)∈post) := by
  obtain ⟨last, hs⟩ := h
  obtain ⟨l, a, hp1, rfl, -, rfl, hp⟩ := segment_append.mp hs
  constructor
  · intro h0
    cases pre with
    | nil => exact absurd hp1.2 h0
    | cons y ys => exact hp1.last_mem (by simp)
  · intro h0
    cases post with
    | nil => exact absurd hp.1 h0
    | cons y ys =>
      rw [hp.1]
      simp

variable (hc : Cells Node prev next) (hnode : ∀ y∈pre++x::post, Node y)
  (hnd : (pre++x::post).Nodup) (h : Linked prev next m head (pre++x::post))
include hc hnode hnd h

theorem unlink_eq (hl : m (prev x)=l) (hq : m (next x)=q) : unlink prev next m head x =
      (update (update (bridge prev next m l q) (prev x) 0) (next x) 0, if head=x then q else head) := by
  obtain ⟨hl1, hq1⟩ := h.neighbours
  rw [hl] at hl1
  rw [hq] at hq1
  obtain ⟨hx1, -⟩ := nodup_cons.mp (nodup_middle.mp hnd)
  have hnx : Node x := hnode x (by simp)
  have hf : SameLinks prev next m (if l≠0 then update m (next l) q else m) x := .ite fun h0 =>
    hc.same_next (hnode l (by simp [hl1 h0])) hnx (fun he => hx1 (by simp [he, hl1 h0])) q
  have hb : SameLinks prev next m (bridge prev next m l q) x := hf.trans (.ite fun h0 =>
    hc.same_prev (hnode q (by simp [hq1 h0])) hnx (fun he => hx1 (by simp [he, hq1 h0])) l)
  unfold bridge at hb ⊢
  simp only [unlink, hl, hq, hf.1, hf.2, hb.2]

theorem unlink_linked : Linked prev next (unlink prev next m head x).1 (unlink prev next m head x).2 (pre++post) := by
  obtain ⟨hn3, hn4, hd⟩ := nodup_append.mp hnd
  obtain ⟨hx2, hn2⟩ := nodup_cons.mp hn4
  have hx1 : x ∉ pre := fun hx => hd x hx x (by simp) rfl
  have hm1 : ∀ y z, y∈pre → z∈post → y≠z := fun y z hy hz => hd y hy z (by simp [hz])
  have hn1 : ∀ y∈pre, Node y := fun y hy => hnode y (by simp [hy])
  have hn : ∀ y∈post, Node y := fun y hy => hnode y (by simp [hy])
  have hnx : Node x := hnode x (by simp)
  obtain ⟨hl1, hq1⟩ := h.neighbours
  have hr := fun {l q : ℕ} => unlink_eq (l := l) (q := q) hc hnode hnd h
  obtain ⟨last, hs⟩ := h
  obtain ⟨l, a, hp3, rfl, -, hl, hp⟩ := segment_append.mp hs
  generalize hq : m (next a)=q at hp hq1
  rw [hl] at hl1
  -- the first write makes the part before end in front of `q`
  have hp31 := hp3.bypass hc hn1 hn3 hx1 q
  have hp1 : Segment prev next (if l≠0 then update m (next l) q else m) a q post last 0 :=
    hp.congr fun y hy => .ite fun h0 => hc.same_next (hn1 l (hl1 h0)) (hn y hy) (hm1 l y (hl1 h0) hy).symm q
  -- the second makes the part after start behind `l`
  obtain ⟨last', hp2⟩ := hp1.rejoin hc hn hn2 l
  have hp32 : Segment prev next (bridge prev next m l q) 0 (if head=a then q else head) pre l q :=
    hp31.congr fun y hy => .ite fun h0 => hc.same_prev (hn q (hq1 h0)) (hn1 y hy) (hm1 y q hy (hq1 h0)) l
  -- the last two only clear the links of the unlinked node
  have hc1 : ∀ (m : ℕ → ℕ) y, y≠a → Node y → SameLinks prev next m (update (update m (prev a) 0) (next a) 0) y :=
    fun m y hya hny => (hc.same_prev hnx hny hya 0).trans (hc.same_next hnx hny hya 0)
  rw [hr hl hq]
  refine ⟨last', segment_append.mpr ⟨l, q, ?_, ?_⟩⟩
  · exact hp32.congr fun y hy => hc1 _ y (fun he => hx1 (he ▸ hy)) (hn1 y hy)
  · exact hp2.congr fun y hy => hc1 _ y (fun he => hx2 (he ▸ hy)) (hn y hy)

theorem unlink_frame {a : ℕ} (ha : ∀ y∈pre++x::post, a≠prev y ∧ a≠next y) : (unlink prev next m head x).1 a=m a := by
  obtain ⟨hl, hq⟩ := h.neighbours
  obtain ⟨hx2, hx1⟩ := ha x (by simp)
  rw [unlink_eq hc hnode hnd h rfl rfl]
  dsimp only
  rw [update_of_ne hx1, update_of_ne hx2]
  refine bridge_frame (fun h0 => ?_) fun h0 => ?_
  · exact (ha _ (by simp [hl h0])).2
  · exact (ha _ (by simp [hq h0])).1

end Unlink

/-! ## Lists known by their nodes -/

def Listed (prev next : ℕ → ℕ) (m : ℕ → ℕ) (head : ℕ) (P : ℕ → Prop) : Prop :=
  ∃ xs : List ℕ, xs.Nodup ∧ (∀ x, x∈xs ↔ P x) ∧ Linked prev next m head xs

section Listed
variable {P Q : ℕ → Prop}

section

variable (h : Listed prev next m head P)
include h

theorem Listed.congr (hm : ∀ x, P x → SameLinks prev next m m' x) :
    Listed prev next m' head P := by
  obtain ⟨xs, hnd, hm1, hl⟩ := h
  exact ⟨xs, hnd, hm1, hl.congr fun x hx => hm x ((hm1 x).mp hx)⟩

theorem Listed.of_iff (hPQ : ∀ x, P x ↔ Q x) : Listed prev next m head Q := by
  obtain ⟨xs, hnd, hm1, hl⟩ := h
  exact ⟨xs, hnd, fun x => (hm1 x).trans (hPQ x), hl⟩

theorem Listed.head_mem (h0 : head≠0) : P head := by
  obtain ⟨xs, -, hm1, hl⟩ := h
  cases xs with
  | nil => exact absurd (linked_nil.mp hl) h0
  | cons x xs => exact (hm1 head).mp (by rw [hl.head_eq]; simp)

end

theorem Listed.pushFront (hc : Cells Node prev next) (h : Listed prev next m head P)
    (hnode : ∀ y, P y ∨ y=x → Node y) (hx : ¬P x) (hx0 : x≠0) :
    Listed prev next (pushFront prev next m head x) x (fun y => P y ∨ y=x) ∧
      ∀ a, (∀ y, P y ∨ y=x → a≠prev y ∧ a≠next y) → pushFront prev next m head x a=m a := by
  obtain ⟨xs, hnd, hm1, hl⟩ := h
  have hc1 : ∀ y, y∈x::xs ↔ P y ∨ y=x := by grind
  constructor
  · have hnd' : (x::xs).Nodup := nodup_cons.mpr ⟨fun hm => hx ((hm1 x).mp hm), hnd⟩
    exact ⟨x::xs, hnd', hc1, pushFront_linked hc (fun y hy => hnode y ((hc1 y).mp hy)) hnd' hx0 hl⟩
  · intro a ha
    exact pushFront_frame hl fun y hy => ha y ((hc1 y).mp hy)

theorem Listed.unlink (hc : Cells Node prev next) (h : Listed prev next m head P)
    (hnode : ∀ y, P y → Node y) (hx : P x) :
    Listed prev next (unlink prev next m head x).1 (unlink prev next m head x).2 (fun y => P y ∧ y≠x) ∧
      ∀ a, (∀ y, P y → a≠prev y ∧ a≠next y) → (unlink prev next m head x).1 a=m a := by
  obtain ⟨xs, hnd, hm1, hl⟩ := h
  obtain ⟨pre, post, rfl⟩ := append_of_mem ((hm1 x).mpr hx)
  have hnode' : ∀ y∈pre++x::post, Node y := fun y hy => hnode y ((hm1 y).mp hy)
  have hs : (pre++post).Sublist (pre++x::post) := List.Sublist.append_left (sublist_cons_self x post) pre
  have hx1 : x ∉ pre++post := (nodup_cons.mp (nodup_middle.mp hnd)).1
  constructor
  · refine ⟨pre++post, hnd.sublist hs, fun y => ?_, unlink_linked hc hnode' hnd hl⟩
    dsimp only
    rw [←hm1 y]
    constructor
    · intro hy
      exact ⟨hs.subset hy, fun he => hx1 (he ▸ hy)⟩
    · rintro ⟨hy, hne⟩
      simpa [hne] using hy
  · intro a ha
    exact unlink_frame hc hnode' hnd hl fun y hy => ha y ((hm1 y).mp hy)

end Listed

/-! ## Several lists -/

/-- Disjoint lists in one memory: `L` gives the list that a node is on. -/
def Family {κ : Type} (prev next : ℕ → ℕ) (m : ℕ → ℕ) (heads : κ → ℕ) (L : ℕ → Option κ) : Prop :=
  ∀ j, Listed prev next m (heads j) fun x => L x = some j

section Family
variable {κ : Type} [DecidableEq κ] {heads : κ → ℕ} {L : ℕ → Option κ} {j : κ}

omit [DecidableEq κ] in
theorem Family.congr (h : Family prev next m heads L) (hm : ∀ x, L x≠none → SameLinks prev next m m' x) :
    Family prev next m' heads L := fun j => (h j).congr fun x hx => hm x (by simp [hx])

theorem Family.of_one (hc : Cells Node prev next) (h : Family prev next m heads L)
    (hnode : ∀ y, L y≠none → Node y) (hx : Node x) {L' : ℕ → Option κ} {head' : ℕ}
    (hL : ∀ y, y≠x → L' y=L y) (hxj : ∀ k, k≠j → L x≠some k ∧ L' x≠some k)
    (hj : Listed prev next m' head' fun y => L' y=some j)
    (hf : ∀ a, (∀ y, L y=some j ∨ y=x → a≠prev y ∧ a≠next y) → m' a=m a) :
    Family prev next m' (update heads j head') L' := by
  intro k
  by_cases hk : k=j
  · rw [hk, update_self]
    exact hj
  rw [update_of_ne hk]
  have hs : ∀ y, L y=some k ↔ L' y=some k := by grind
  refine ((h k).congr fun y hy => ?_).of_iff hs
  have hny : Node y := hnode y (by rw [hy]; simp)
  have ha : ∀ z, L z=some j ∨ z=x → y≠z ∧ Node z := by
    rintro z (hz | rfl)
    · refine ⟨?_, hnode z (by rw [hz]; simp)⟩
      rintro rfl
      exact hk (some.inj (hy.symm.trans hz))
    · refine ⟨?_, hx⟩
      rintro rfl
      exact (hxj k hk).1 hy
  constructor <;> refine hf _ fun z hz => ?_
  · obtain ⟨hne, hnz⟩ := ha z hz
    exact ⟨fun he => hne (hc.prev_inj _ _ hny hnz he), hc.prev_ne_next _ _ hny hnz⟩
  · obtain ⟨hne, hnz⟩ := ha z hz
    exact ⟨(hc.prev_ne_next _ _ hnz hny).symm, fun he => hne (hc.next_inj _ _ hny hnz he)⟩

theorem Family.pushFront (hc : Cells Node prev next) (h : Family prev next m heads L)
    (hnode : ∀ y, L y≠none → Node y) (hx : Node x) (hx0 : x≠0) (hLx : L x=none) :
    Family prev next (pushFront prev next m (heads j) x) (update heads j x) (update L x (some j)) ∧
      ∀ a, (∀ y, L y≠none ∨ y=x → a≠prev y ∧ a≠next y) → pushFront prev next m (heads j) x a=m a := by
  have hnode' : ∀ y, L y=some j ∨ y=x → Node y := by grind
  obtain ⟨hl, hf⟩ := (h j).pushFront hc hnode' (by simp [hLx]) hx0
  constructor
  · refine h.of_one hc hnode hx (fun y hy => update_of_ne hy _ _) (fun k hk => ?_)
      (hl.of_iff fun y => ?_) hf
    · rw [hLx, update_self]
      exact ⟨by simp, fun he => hk (some.inj he).symm⟩
    · by_cases hy : y=x <;> simp [hy]
  · intro a ha
    exact hf a fun y hy => ha y (hy.imp (fun h => by simp [h]) id)

theorem Family.unlink (hc : Cells Node prev next) (h : Family prev next m heads L)
    (hnode : ∀ y, L y≠none → Node y) (hLx : L x=some j) : Family prev next (unlink prev next m (heads j) x).1
        (update heads j (unlink prev next m (heads j) x).2) (update L x none) ∧
      ∀ a, (∀ y, L y≠none → a≠prev y ∧ a≠next y) → (unlink prev next m (heads j) x).1 a=m a := by
  have hs : ∀ y, L y=some j → L y≠none := fun y hy => by simp [hy]
  obtain ⟨hl, hf⟩ := (h j).unlink hc (fun y hy => hnode y (hs y hy)) hLx
  constructor
  · refine h.of_one hc hnode (hnode x (hs x hLx)) (fun y hy => update_of_ne hy _ _)
      (fun k hk => ?_) (hl.of_iff fun y => ?_) fun a ha => hf a fun y hy => ha y (.inl hy)
    · rw [hLx]
      exact ⟨fun he => hk (some.inj he).symm, by simp⟩
    · by_cases hy : y=x <;> simp [hy]
  · intro a ha
    exact hf a fun y hy => ha y (hs y hy)

end Family

end Faultloggerd.Foundations.DoublyLinked
