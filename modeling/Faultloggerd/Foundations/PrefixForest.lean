import Mathlib.Algebra.BigOperators.Group.List.Basic
import Mathlib.Algebra.GroupWithZero.Nat
import Mathlib.Data.List.Infix
import Mathlib.Data.List.Nodup
import Mathlib.Data.List.TakeWhile

/-! # Prefix forests of weighted words

The forest of a list of words has a node for each non-empty prefix, with the weight of the words that start with it.
Siblings are kept in the order of their counts: a word is inserted by adding to the counts along its path, and a node
whose count has grown moves in front of the siblings that it has overtaken.
-/
namespace Faultloggerd.Foundations.PrefixForest
open List Nat

variable {α : Type}

inductive PrefixTree (α : Type) where
  | node (label : α) (count : ℕ) (children : List (PrefixTree α))

namespace PrefixTree

def label : PrefixTree α → α
  | node label _ _ => label

def count : PrefixTree α → ℕ
  | node _ count _ => count

def children : PrefixTree α → List (PrefixTree α)
  | node _ _ children => children

end PrefixTree

/-! ## Words -/

def weight (words : List (List α×ℕ)) : ℕ :=
  (words.map Prod.snd).sum

theorem weight_append (words more : List (List α×ℕ)) : weight (words++more)=weight words+weight more := by
  rw [weight, map_append, List.sum_append]
  rfl

theorem weight_perm {words words' : List (List α×ℕ)} (h : words.Perm words') : weight words=weight words' :=
  (h.map Prod.snd).sum_eq

section Words

variable [DecidableEq α]

def startingWith (start : List α) (words : List (List α×ℕ)) : List (List α×ℕ) :=
  words.filter fun word => start.isPrefixOf word.1

def behind (a : α) (words : List (List α×ℕ)) : List (List α×ℕ) :=
  words.filterMap fun word =>
    match word.1 with
    | [] => none
    | b :: rest => if b = a then some (rest, word.2) else none

variable (a : α) (words : List (List α×ℕ))

theorem behind_append (more : List (List α×ℕ)) : behind a (words++more)=behind a words++behind a more :=
  filterMap_append

@[simp] theorem behind_nil_word (n : ℕ) : behind a [([], n)]=[] := rfl

theorem behind_cons_word (b : α) (rest : List α) (n : ℕ) :
    behind a [(b::rest, n)]=if b=a then [(rest, n)] else [] := by
  by_cases h : b=a
  · simp [behind, h]
  · simp [behind, h]

theorem mem_behind {a : α} {rest : List α} {n : ℕ} {words : List (List α×ℕ)} :
    (rest, n)∈behind a words ↔ (a::rest, n)∈words := by
  rw [behind, mem_filterMap]
  constructor
  · rintro ⟨⟨word, m⟩, hm, hw⟩
    cases word with
    | nil => cases hw
    | cons b word =>
      by_cases hb : b=a
      · simp only [hb, if_true, Option.some.injEq, Prod.mk.injEq] at hw
        rw [←hw.1, ←hw.2, ←hb]
        exact hm
      · simp [hb] at hw
  · intro hm
    exact ⟨(a::rest, n), hm, by simp⟩

theorem weight_startingWith_cons (start : List α) (words : List (List α×ℕ)) :
    weight (startingWith (a::start) words)=weight (startingWith start (behind a words)) := by
  induction words with
  | nil => rfl
  | cons word words ih =>
    obtain ⟨word, n⟩ := word
    have hs : ∀ start : List α, weight (startingWith start ((word, n)::words)) =
        weight (startingWith start [(word, n)])+weight (startingWith start words) := by
      intro start
      rw [←weight_append, startingWith, startingWith, startingWith, ←filter_append]
      rfl
    have hb1 : behind a ((word, n)::words)=behind a [(word, n)]++behind a words := behind_append a [(word, n)] words
    have hr : weight (startingWith start (behind a ((word, n)::words))) =
        weight (startingWith start (behind a [(word, n)]))+weight (startingWith start (behind a words)) := by
      rw [hb1, startingWith, filter_append, weight_append]
      rfl
    rw [hs, hr, ih]
    cases word with
    | nil => rfl
    | cons b rest =>
      rw [behind_cons_word]
      by_cases hb : b=a
      · rw [if_pos hb, hb]
        simp only [startingWith, filter_cons, isPrefixOf_cons_cons, beq_self_eq_true]
        cases start.isPrefixOf rest <;> rfl
      · rw [if_neg hb]
        simp [startingWith, Ne.symm hb]

theorem startingWith_nil : startingWith [] words=words := filter_eq_self.mpr fun _ _ => rfl

theorem weight_behind : weight (behind a words)=weight (startingWith [a] words) := by
  rw [weight_startingWith_cons, startingWith_nil]

theorem weight_startingWith_append (start : List α) (words more : List (List α×ℕ)) :
    weight (startingWith start (words++more))=weight (startingWith start words)+weight (startingWith start more) := by
  rw [startingWith, filter_append, weight_append]
  rfl

end Words

/-! ## Insertion -/

structure Place (α : Type) where
  before : List (PrefixTree α)
  tree : PrefixTree α
  after : List (PrefixTree α)

/-- The tree moves in front of the earlier siblings that have a smaller count. -/
def place (tree : PrefixTree α) (before after : List (PrefixTree α)) : Place α where
  before := before.takeWhile fun t => tree.count ≤ t.count
  tree := tree
  after := before.dropWhile (fun t => tree.count≤t.count)++after

theorem place_siblings (tree : PrefixTree α) (before after : List (PrefixTree α)) :
    (place tree before after).before++(place tree before after).after=before++after := by
  rw [place, ←append_assoc, takeWhile_append_dropWhile]

theorem insertAt_perm (tree : PrefixTree α) (before after children : List (PrefixTree α)) :
    ((place tree before after).before ++ .node tree.label tree.count children::(place tree before after).after).Perm
      (.node tree.label tree.count children::(before++after)) := by
  rw [←place_siblings tree before after]
  exact perm_middle

theorem place_before_cons (tree root : PrefixTree α) (before after : List (PrefixTree α)) :
    (place tree (root::before) after).before =
      if tree.count≤ root.count then root::(place tree before after).before else [] := by
  unfold place
  by_cases hle : tree.count≤ root.count <;> simp [hle]

abbrev Ordered (ts : List (PrefixTree α)) : Prop :=
  ts.Pairwise fun s t => t.count ≤ s.count

theorem place_ordered {tree : PrefixTree α} {before after : List (PrefixTree α)} (h : Ordered (before++after))
    (ha : ∀ t∈after, t.count≤tree.count) (children : List (PrefixTree α)) :
    Ordered ((place tree before after).before ++
      .node tree.label tree.count children::(place tree before after).after) := by
  have hs2 : ∀ t∈before.dropWhile (fun t => tree.count≤t.count), t.count≤tree.count := by
    have hd : Ordered (before.dropWhile fun t => tree.count≤t.count) :=
      (pairwise_append.mp h).1.sublist (dropWhile_sublist _)
    cases hc : before.dropWhile (fun t => tree.count≤t.count) with
    | nil => exact fun t ht => absurd ht not_mem_nil
    | cons first rest =>
      have hf : ¬tree.count≤first.count := by
        have hh := head?_dropWhile_not (fun t => decide (tree.count≤t.count)) before
        rw [hc] at hh
        simpa using hh
      rw [hc] at hd
      intro t ht
      rcases mem_cons.mp ht with rfl | ht
      · omega
      · have := (pairwise_cons.mp hd).1 t ht
        omega
  have hs1 : Ordered ((place tree before after).before++(place tree before after).after) :=
    (place_siblings tree before after).symm ▸ h
  obtain ⟨hb, hb1, hc1⟩ := pairwise_append.mp hs1
  refine pairwise_append.mpr ⟨hb, pairwise_cons.mpr ⟨fun t ht => ?_, hb1⟩, fun s hs t ht => ?_⟩
  · rcases mem_append.mp ht with ht | ht
    · exact hs2 t ht
    · exact ha t ht
  · rcases mem_cons.mp ht with rfl | ht
    · exact of_decide_eq_true (mem_takeWhile_imp (p := fun t : PrefixTree α => decide (tree.count≤t.count)) hs)
    · exact hc1 s hs t ht

section Insertion

variable [DecidableEq α]

/-- The tree of a letter with its count increased, or a new one behind the others. -/
def locate (a : α) (n : ℕ) (ts : List (PrefixTree α)) : Place α :=
  let before := ts.takeWhile fun t => t.label ≠ a
  match ts.dropWhile fun t => t.label ≠ a with
  | [] => place (.node a n []) before []
  | t :: after => place (.node a (t.count+n) t.children) before after

def insertPath (n : ℕ) : List α → List (PrefixTree α) → List (PrefixTree α)
  | [], ts => ts
  | a :: path, ts =>
    let located := locate a n ts
    located.before ++ .node a located.tree.count (insertPath n path located.tree.children)::located.after

variable {a : α} {n : ℕ} {ts before after : List (PrefixTree α)} {t : PrefixTree α}

theorem locate_of_notMem (h : ∀ t∈ts, t.label≠a) : locate a n ts=place (.node a n []) ts [] := by
  have ht1 : ts.takeWhile (fun t => t.label≠a)=ts := takeWhile_eq_self_iff.mpr fun t ht => decide_eq_true (h t ht)
  have hd : ts.dropWhile (fun t => t.label≠a)=[] := dropWhile_eq_nil_iff.mpr fun t ht => decide_eq_true (h t ht)
  unfold locate
  rw [hd, ht1]

theorem locate_append (h : ∀ t∈before, t.label≠a) (ht : t.label=a) :
    locate a n (before++t::after)=place (.node a (t.count+n) t.children) before after := by
  have ht1 : (before++t::after).takeWhile (fun t => t.label≠a)=before := by
    rw [takeWhile_append_of_pos (by simpa using h), takeWhile_cons_of_neg (by simpa using ht), append_nil]
  have hd : (before++t::after).dropWhile (fun t => t.label≠a)=t::after := by
    rw [dropWhile_append_of_pos (by simpa using h), dropWhile_cons_of_neg (by simpa using ht)]
  unfold locate
  rw [hd, ht1]

theorem locate_cases (a : α) (ts : List (PrefixTree α)) : (∀ t∈ts, t.label≠a) ∨
      ∃ before t after, ts=before++t::after ∧ (∀ t∈before, t.label≠a) ∧ t.label=a := by
  induction ts with
  | nil => exact .inl fun _ h => absurd h not_mem_nil
  | cons u ts ih =>
    by_cases hu : u.label=a
    · exact .inr ⟨[], u, ts, rfl, fun _ h => absurd h not_mem_nil, hu⟩
    · rcases ih with hn | ⟨before, t, after, rfl, hb, ht⟩
      · exact .inl fun t ht => (mem_cons.mp ht).elim (fun h => h ▸ hu) (hn t)
      · exact .inr ⟨u::before, t, after, rfl, fun t ht => (mem_cons.mp ht).elim (fun h => h ▸ hu) (hb t), ht⟩

/-- The forest of some words: a tree for each first letter, with the words behind that letter below it. -/
inductive IsForest : List (List α×ℕ) → List (PrefixTree α) → Prop
  | intro {words : List (List α×ℕ)} {ts : List (PrefixTree α)} (nodup : (ts.map PrefixTree.label).Nodup)
      (labels : ∀ a, a∈ts.map PrefixTree.label ↔ behind a words≠[])
      (counts : ∀ t∈ts, t.count=weight (behind t.label words)) (ordered : Ordered ts)
      (children : ∀ t∈ts, IsForest (behind t.label words) t.children) : IsForest words ts

namespace IsForest

variable {words words' : List (List α×ℕ)}

section

variable (h : IsForest words ts)
include h

theorem nodup : (ts.map PrefixTree.label).Nodup := by
  cases h
  assumption

theorem labels (a : α) : a∈ts.map PrefixTree.label ↔ behind a words≠[] := by
  cases h with
  | intro _ labels _ _ _ => exact labels a

theorem counts : ∀ t∈ts, t.count=weight (behind t.label words) := by
  cases h
  assumption

theorem ordered : Ordered ts := by
  cases h
  assumption

theorem children : ∀ t∈ts, IsForest (behind t.label words) t.children := by
  cases h
  assumption

end

theorem empty : IsForest ([] : List (List α×ℕ)) [] :=
  .intro nodup_nil (fun a => by simp [behind]) nofun List.Pairwise.nil nofun

section

variable (h : IsForest words ts)
include h

theorem congr (hb : ∀ a, behind a words'=behind a words) : IsForest words' ts :=
  .intro h.nodup (fun a => by rw [hb, h.labels]) (fun t ht => by rw [hb, h.counts t ht]) h.ordered
    fun t ht => by
      rw [hb]
      exact h.children t ht

theorem behind_eq_nil (hn : ∀ t∈ts, t.label≠a) : behind a words=[] := by
  by_contra hs
  obtain ⟨t, ht, hl⟩ := mem_map.mp ((h.labels a).mpr hs)
  exact hn t ht hl

theorem add (path : List α) {others siblings children : List (PrefixTree α)}
    (ho : ∀ t, t∈others ↔ t∈ts ∧ t.label≠a) (hn : (others.map PrefixTree.label).Nodup)
    (hp : siblings.Perm (.node a (weight (behind a words)+n) children::others)) (ho2 : Ordered siblings)
    (hc : IsForest (behind a words++[(path, n)]) children) : IsForest (words++[(a::path, n)]) siblings := by
  have hb1 : behind a (words++[(a::path, n)])=behind a words++[(path, n)] := by
    rw [behind_append, behind_cons_word, if_pos rfl]
  have ho1 : ∀ b, b≠a → behind b (words++[(a::path, n)])=behind b words := by
    intro b hb
    rw [behind_append, behind_cons_word, if_neg (Ne.symm hb), append_nil]
  have hl1 := hp.map PrefixTree.label
  change (siblings.map PrefixTree.label).Perm (a::others.map PrefixTree.label) at hl1
  refine .intro ?_ (fun b => ?_) (fun t ht => ?_) ho2 fun t ht => ?_
  · refine hl1.nodup_iff.mpr (nodup_cons.mpr ⟨fun hm => ?_, hn⟩)
    obtain ⟨t, ht, hl⟩ := mem_map.mp hm
    exact ((ho t).mp ht).2 hl
  · rw [hl1.mem_iff, mem_cons]
    by_cases hb : b=a
    · rw [hb, hb1]
      exact ⟨fun _ => append_ne_nil_of_right_ne_nil _ (cons_ne_nil _ _), fun _ => .inl rfl⟩
    · rw [ho1 b hb, ←h.labels b, or_iff_right hb]
      constructor
      · intro hm
        obtain ⟨t, ht, hl⟩ := mem_map.mp hm
        exact mem_map.mpr ⟨t, ((ho t).mp ht).1, hl⟩
      · intro hm
        obtain ⟨t, ht, hl⟩ := mem_map.mp hm
        exact mem_map.mpr ⟨t, (ho t).mpr ⟨ht, hl ▸ hb⟩, hl⟩
  · rcases mem_cons.mp (hp.mem_iff.mp ht) with rfl | ht
    · change weight (behind a words)+n=weight (behind a (words++[(a::path, n)]))
      rw [hb1, weight_append]
      rfl
    · obtain ⟨ht, hl⟩ := (ho t).mp ht
      rw [ho1 _ hl]
      exact h.counts t ht
  · rcases mem_cons.mp (hp.mem_iff.mp ht) with rfl | ht
    · change IsForest (behind a (words++[(a::path, n)])) children
      rw [hb1]
      exact hc
    · obtain ⟨ht, hl⟩ := (ho t).mp ht
      rw [ho1 _ hl]
      exact h.children t ht

theorem insertPath (path : List α) (n : ℕ) : IsForest (words++[(path, n)]) (insertPath n path ts) := by
  induction path generalizing words ts with
  | nil => exact h.congr fun a => by rw [behind_append, behind_nil_word, append_nil]
  | cons a path ih =>
    unfold PrefixForest.insertPath
    rcases locate_cases a ts with hn | ⟨before, t, after, rfl, hb, ht⟩
    · -- a new tree: no word has started with the letter
      have he := h.behind_eq_nil hn
      have hc : IsForest (behind a words) [] := he ▸ empty
      rw [locate_of_notMem hn]
      have ho : Ordered (ts++[]) := (append_nil ts).symm ▸ h.ordered
      refine h.add path (fun t => ⟨fun ht => ⟨ht, hn t ht⟩, And.left⟩) h.nodup ?_
        (place_ordered ho nofun _) (ih hc)
      have hw : weight (behind a words)+n=n := by
        rw [he]
        exact zero_add n
      have hp := insertAt_perm (.node a n []) ts [] (PrefixForest.insertPath n path [])
      rw [append_nil] at hp
      rw [hw]
      exact hp
    · -- the tree of the letter grows
      have hm : t∈before++t::after := by simp
      have ha : ∀ s∈after, s.count≤t.count := (pairwise_cons.mp (pairwise_append.mp h.ordered).2.1).1
      have hs1 : (before++after).Sublist (before++t::after) :=
        (List.Sublist.refl before).append (sublist_cons_self t after)
      have hc1 := h.counts t hm
      have hc := h.children t hm
      rw [ht] at hc1 hc
      have hd : ∀ s∈after, s.label≠a := by
        intro s hs hl
        have hn1 := h.nodup
        rw [map_append] at hn1
        have hn2 := (nodup_cons.mp (nodup_append.mp hn1).2.1).1
        exact hn2 (mem_map.mpr ⟨s, hs, hl.trans ht.symm⟩)
      rw [locate_append hb ht]
      refine h.add path (fun s => ?_) (h.nodup.sublist (hs1.map _)) ?_
        (place_ordered (h.ordered.sublist hs1) (fun s hs => (ha s hs).trans (le_add_right _ _)) _) (ih hc)
      · constructor
        · intro hs
          exact ⟨hs1.subset hs, (mem_append.mp hs).elim (hb s) (hd s)⟩
        · rintro ⟨hs, hl⟩
          rcases mem_append.mp hs with hs | hs
          · exact mem_append_left _ hs
          · rcases mem_cons.mp hs with rfl | hs
            · exact absurd ht hl
            · exact mem_append_right _ hs
      · rw [←hc1]
        exact insertAt_perm (.node a (t.count+n) t.children) before after _

theorem locate_count (a : α) (n : ℕ) : (locate a n ts).tree.count=weight (startingWith [a] words)+n := by
  rw [←weight_behind]
  rcases locate_cases a ts with hn | ⟨before, t, after, rfl, hb, ht⟩
  · rw [locate_of_notMem hn, h.behind_eq_nil hn]
    exact (zero_add n).symm
  · have hc := h.counts t (by simp)
    rw [ht] at hc
    rw [locate_append hb ht, ←hc]
    rfl

end

end IsForest

/-! ## Counts -/

/-- The counts at the first level are capped, and those below a tree by its own. -/
inductive Capped : ℕ → List (PrefixTree α) → Prop
  | intro {m : ℕ} {ts : List (PrefixTree α)} (counts : ∀ t∈ts, t.count≤ m)
      (children : ∀ t∈ts, Capped t.count t.children) : Capped m ts

omit [DecidableEq α] in
theorem Capped.count_le {m : ℕ} (h : Capped m ts) : ∀ t ∈ ts, t.count ≤ m := by
  cases h
  assumption

omit [DecidableEq α] in
theorem Capped.children {m : ℕ} (h : Capped m ts) : ∀ t ∈ ts, Capped t.count t.children := by
  cases h
  assumption

theorem locate_label (a : α) (n : ℕ) (ts : List (PrefixTree α)) : (locate a n ts).tree.label=a := by
  rcases locate_cases a ts with hn | ⟨before, s, after, rfl, hb, hs⟩
  · rw [locate_of_notMem hn]
    rfl
  · rw [locate_append hb hs]
    rfl

/-- After an insertion each tree was there before, or it is the one of the first letter, grown by the word's weight. -/
theorem mem_insertPath {path : List α} (h : t∈insertPath n (a::path) ts) : t∈ts ∨ (t=.node a n (insertPath n path []) ∨
      ∃ s∈ts, s.label=a ∧ t=.node a (s.count+n) (insertPath n path s.children)) := by
  unfold insertPath at h
  rcases locate_cases a ts with hn | ⟨before, s, after, rfl, hb, hs⟩
  · rw [locate_of_notMem hn] at h
    rcases mem_cons.mp ((insertAt_perm _ _ _ _).mem_iff.mp h) with h | h
    · exact .inr (.inl h)
    · rw [append_nil] at h
      exact .inl h
  · rw [locate_append hb hs] at h
    rcases mem_cons.mp ((insertAt_perm _ _ _ _).mem_iff.mp h) with h | h
    · exact .inr (.inr ⟨s, by simp, hs, h⟩)
    · refine .inl ?_
      rcases mem_append.mp h with h | h
      · exact mem_append_left _ h
      · exact mem_append_right _ (mem_cons_of_mem _ h)

theorem Capped.insertPath {m : ℕ} (h : Capped m ts) (path : List α) (n : ℕ) : Capped (m+n) (insertPath n path ts) := by
  induction path generalizing m ts with
  | nil => exact .intro (fun t ht => (h.count_le t ht).trans (le_add_right m n)) h.children
  | cons a path ih =>
    refine .intro (fun t ht => ?_) fun t ht => ?_
    · rcases mem_insertPath ht with ht | rfl | ⟨s, hs, -, rfl⟩
      · exact (h.count_le t ht).trans (le_add_right m n)
      · exact le_add_left n m
      · exact Nat.add_le_add_right (h.count_le s hs) n
    · rcases mem_insertPath ht with ht | rfl | ⟨s, hs, -, rfl⟩
      · exact h.children t ht
      · have he : Capped 0 ([] : List (PrefixTree α)) := .intro nofun nofun
        have := ih he
        rw [zero_add] at this
        exact this
      · exact ih (h.children s hs)

/-- No tree counts more than the words that start with its letter. -/
def Counted (words : List (List α×ℕ)) (ts : List (PrefixTree α)) : Prop :=
  ∀ t ∈ ts, t.count ≤ weight (startingWith [t.label] words) ∧ Capped t.count t.children

theorem weight_startingWith_word (a : α) (path : List α) (n : ℕ) : weight (startingWith [a] [(a::path, n)])=n := by
  rw [←weight_behind, behind_cons_word, if_pos rfl]
  exact add_zero n

theorem Counted.insertPath {words : List (List α×ℕ)} (h : Counted words ts) (path : List α) (n : ℕ) :
    Counted (words++[(path, n)]) (insertPath n path ts) := by
  have hk : ∀ t∈ts, t.count≤weight (startingWith [t.label] (words++[(path, n)])) ∧ Capped t.count t.children := by
    intro t ht
    rw [weight_startingWith_append]
    exact ⟨(h t ht).1.trans (le_add_right _ _), (h t ht).2⟩
  cases path with
  | nil => exact hk
  | cons a path =>
    intro t ht
    rcases mem_insertPath ht with ht | rfl | ⟨s, hs, hl, rfl⟩
    · exact hk t ht
    · have he : Capped 0 ([] : List (PrefixTree α)) := .intro nofun nofun
      have hc := he.insertPath path n
      rw [zero_add] at hc
      refine ⟨?_, hc⟩
      change n≤weight (startingWith [a] (words++[(a::path, n)]))
      rw [weight_startingWith_append, weight_startingWith_word]
      exact le_add_left _ _
    · refine ⟨?_, (h s hs).2.insertPath path n⟩
      change s.count+n≤weight (startingWith [a] (words++[(a::path, n)]))
      rw [weight_startingWith_append, weight_startingWith_word, ←hl]
      exact Nat.add_le_add_right (h s hs).1 n

variable {root : PrefixTree α}

theorem locate_cons_of_ne (rest : List (PrefixTree α)) (n : ℕ) (ha : root.label≠a) :
    ∃ tree before after, locate a n (root::rest)=place tree (root::before) after := by
  rcases locate_cases a (root::rest) with hn | ⟨before, t, after, hs, hb, ht⟩
  · exact ⟨_, _, _, locate_of_notMem hn⟩
  · cases before with
    | nil =>
      obtain ⟨rfl, -⟩ := cons.inj hs
      exact absurd ht ha
    | cons first before =>
      obtain ⟨rfl, -⟩ := cons.inj hs
      exact ⟨_, _, _, hs ▸ locate_append hb ht⟩

variable {rest : List (PrefixTree α)}

theorem locate_before_eq_nil (ha : root.label≠a) :
    (locate a n (root::rest)).before=[] ↔ root.count<(locate a n (root::rest)).tree.count := by
  obtain ⟨tree, before, after, hl⟩ := locate_cons_of_ne rest n ha
  rw [hl, place_before_cons]
  by_cases hle : tree.count≤ root.count
  · rw [if_pos hle]
    exact ⟨fun h => absurd h (cons_ne_nil _ _), fun h => absurd h (not_lt.mpr hle)⟩
  · rw [if_neg hle]
    exact ⟨fun _ => not_le.mp hle, fun _ => rfl⟩

theorem head_insertPath (path : List α) (h : root.label=a ∨ (locate a n (root::rest)).before≠[]) :
    (insertPath n (a::path) (root::rest)).head?.map PrefixTree.label=some root.label := by
  unfold insertPath
  by_cases ha : root.label=a
  · have hl : locate a n ([]++root::rest)=place (.node a (root.count+n) root.children) [] rest :=
      locate_append nofun ha
    rw [nil_append] at hl
    rw [hl, ha]
    rfl
  · have hne := h.resolve_left ha
    obtain ⟨tree, before, after, hl⟩ := locate_cons_of_ne rest n ha
    rw [hl, place_before_cons] at hne
    by_cases hle : tree.count≤ root.count
    · have hf := place_before_cons tree root before after
      rw [if_pos hle] at hf
      simp [hl, hf]
    · rw [if_neg hle] at hne
      exact absurd rfl hne

theorem sum_insertPath (a : α) (path : List α) (n : ℕ) (ts : List (PrefixTree α)) :
    ((insertPath n (a::path) ts).map PrefixTree.count).sum=(ts.map PrefixTree.count).sum+n := by
  unfold insertPath
  rcases locate_cases a ts with hn | ⟨before, s, after, rfl, hb, hs⟩
  · rw [locate_of_notMem hn]
    refine (((insertAt_perm _ _ _ _).map PrefixTree.count).sum_eq).trans ?_
    rw [append_nil, map_cons, add_comm]
    rfl
  · rw [locate_append hb hs]
    refine (((insertAt_perm _ _ _ _).map PrefixTree.count).sum_eq).trans ?_
    simp only [map_cons, map_append, sum_cons, List.sum_append, PrefixTree.count]
    omega

end Insertion

end Faultloggerd.Foundations.PrefixForest
