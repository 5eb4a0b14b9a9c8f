import Faultloggerd.Foundations.PrefixForest

/-! # Listings of prefix forests

A forest is listed in preorder, each node with its level; the same listing with the prefix of each node shows that the
forest of some words lists each of their prefixes once, with its weight (`IsForest.prefixLaw`).
-/
namespace Faultloggerd.Foundations.PrefixForest
open List

variable {α : Type}

mutual

def PrefixTree.listing (level : ℕ) : PrefixTree α → List (ℕ×α×ℕ)
  | .node a n ts => (level, a, n) :: listing (level+1) ts

def listing (level : ℕ) : List (PrefixTree α) → List (ℕ×α×ℕ)
  | [] => []
  | t :: ts => t.listing level ++ listing level ts

end

mutual

def PrefixTree.entries (path : List α) : PrefixTree α → List (List α×ℕ)
  | .node a n ts => (path ++ [a], n) :: entries (path ++ [a]) ts

def entries (path : List α) : List (PrefixTree α) → List (List α×ℕ)
  | [] => []
  | t :: ts => t.entries path ++ entries path ts

end

variable (level : ℕ)

@[simp] theorem listing_nil : listing level ([] : List (PrefixTree α))=[] := by
  rw [listing]

theorem listing_cons (t : PrefixTree α) (ts : List (PrefixTree α)) :
    listing level (t::ts)=(level, t.label, t.count)::(listing (level+1) t.children++listing level ts) := by
  cases t with
  | node a n children => rfl

variable (path : List α)

@[simp] theorem entries_nil : entries path ([] : List (PrefixTree α))=[] := by
  rw [entries]

theorem entries_cons (t : PrefixTree α) (ts : List (PrefixTree α)) : entries path (t::ts) =
      (path++[t.label], t.count)::(entries (path++[t.label]) t.children++entries path ts) := by
  cases t with
  | node a n children => rfl

/-- Induction over a forest, from the children and the later siblings of a tree to the tree and its siblings. -/
theorem forest_induction {motive : List (PrefixTree α) → Prop} (nil : motive [])
    (cons : ∀ t ts, motive t.children → motive ts → motive (t::ts)) (ts : List (PrefixTree α)) : motive ts :=
  @PrefixTree.rec_1 α (fun t => motive t.children) motive (fun _ _ _ h => h) nil cons ts

section

variable (ts : List (PrefixTree α))

theorem map_entries :
    (entries path ts).map Prod.snd=(listing level ts).map fun e => e.2.2 := by
  induction ts using forest_induction generalizing path level with
  | nil => rw [entries_nil, listing_nil, map_nil, map_nil]
  | cons t ts hc hts =>
    rw [entries_cons, listing_cons, map_cons, map_cons, map_append, map_append, hc (level+1), hts level]

theorem le_level : ∀ e∈listing level ts, level≤e.1 := by
  induction ts using forest_induction generalizing level with
  | nil => simp
  | cons t ts hc hts =>
    rw [listing_cons]
    refine forall_mem_cons.mpr ⟨Nat.le_refl level, forall_mem_append.mpr ⟨fun e he => ?_, hts level⟩⟩
    exact (Nat.le_succ level).trans (hc (level+1) e he)

theorem filter_listing :
    ((listing level ts).filter fun e => e.1=level).map (fun e => e.2.2)=ts.map PrefixTree.count := by
  induction ts with
  | nil => simp
  | cons t ts ih =>
    have hd : (listing (level+1) t.children).filter (fun e => e.1=level)=[] := by
      refine filter_eq_nil_iff.mpr fun e he hl => ?_
      have := le_level (level+1) t.children e he
      have : e.1=level := of_decide_eq_true hl
      omega
    rw [listing_cons, filter_cons_of_pos (by simp), filter_append, hd, nil_append, map_cons, map_cons, ih]

theorem mem_entries (e : List α×ℕ) : e∈entries path ts ↔
      ∃ t∈ts, e=(path++[t.label], t.count) ∨ e∈entries (path++[t.label]) t.children := by
  induction ts with
  | nil => simp
  | cons t ts ih => rw [entries_cons, mem_cons, mem_append, ih, exists_mem_cons_iff, ←or_assoc]

theorem entry_extends : ∀ e∈entries path ts, ∃ b rest, e.1=path++b::rest := by
  induction ts using forest_induction generalizing path with
  | nil => simp
  | cons t ts hc hts =>
    rw [entries_cons]
    refine forall_mem_cons.mpr ⟨⟨t.label, [], rfl⟩, forall_mem_append.mpr ⟨fun e he => ?_, hts path⟩⟩
    obtain ⟨b, rest, hp⟩ := hc _ e he
    exact ⟨t.label, b::rest, by rw [hp, append_assoc]; rfl⟩

end

variable {e : List α×ℕ}

theorem entry_path {path : List α} {ts : List (PrefixTree α)} (he : e∈entries path ts) :
    ∃ t∈ts, ∃ rest, e.1=path++t.label::rest ∧ (rest=[] → e.2=t.count) := by
  obtain ⟨t, ht, rfl | he⟩ := (mem_entries path ts e).mp he
  · exact ⟨t, ht, [], rfl, fun _ => rfl⟩
  · obtain ⟨b, rest, hp⟩ := entry_extends _ _ e he
    refine ⟨t, ht, b::rest, ?_, nofun⟩
    rw [hp, append_assoc]
    rfl

def Before (e f : List α×ℕ) : Prop :=
  e.1 ≠ f.1 ∧ (e.1.dropLast=f.1.dropLast → f.2≤e.2)

theorem before_extension (n : ℕ) {b : α} {rest : List α} (he : e.1=path++b::rest) (hp : path≠[])
    : Before (path, n) e := by
  constructor
  · intro heq
    have := congrArg length (heq.trans he)
    simp at this
  · intro heq
    have hl := congrArg length heq
    have : path.length≠0 := fun h => hp (length_eq_zero_iff.mp h)
    grind

theorem before_sibling {path rest rest' : List α} {a b : α} {f : List α×ℕ} (he : e.1=path++a::rest)
    (hf : f.1=path++b::rest') (hab : a≠b) (hc : rest=[] → rest'=[] → f.2≤e.2) : Before e f := by
  constructor
  · intro heq
    rw [he, hf] at heq
    exact hab (cons.inj (append_cancel_left heq)).1
  · intro heq
    rw [he, hf, dropLast_append_cons, dropLast_append_cons] at heq
    have hd := append_cancel_left heq
    cases rest with
    | nil =>
      cases rest' with
      | nil => exact hc rfl rfl
      | cons c rest' => cases hd
    | cons c rest =>
      cases rest' with
      | nil => cases hd
      | cons d rest' => exact absurd (cons.inj hd).1 hab

theorem entries_before_of_children {path : List α} {ts : List (PrefixTree α)} (hn : (ts.map PrefixTree.label).Nodup)
    (ho : Ordered ts) (hc : ∀ t∈ts, (entries (path++[t.label]) t.children).Pairwise Before) :
    (entries path ts).Pairwise Before := by
  induction ts with
  | nil => simp
  | cons t ts ih =>
    rw [map_cons, nodup_cons] at hn
    obtain ⟨hle, ho⟩ := pairwise_cons.mp ho
    have hr := ih hn.2 ho fun t ht => hc t (mem_cons_of_mem _ ht)
    have ho1 := hc _ mem_cons_self
    -- whatever is listed for a later sibling
    have hl : ∀ e rest, e.1=path++t.label::rest → (rest=[] → e.2=t.count) → ∀ f∈entries path ts, Before e f := by
      intro e rest he hc1 f hf
      obtain ⟨s, hs, rest', hp, hc1'⟩ := entry_path hf
      refine before_sibling he hp (fun hl1 => hn.1 (mem_map.mpr ⟨s, hs, hl1.symm⟩)) fun h h' => ?_
      rw [hc1 h, hc1' h']
      exact hle s hs
    rw [entries_cons]
    refine pairwise_cons.mpr ⟨fun e he => ?_, pairwise_append.mpr ⟨ho1, hr, fun e he f hf => ?_⟩⟩
    · rcases mem_append.mp he with he | he
      · obtain ⟨b, rest, hp⟩ := entry_extends _ _ e he
        exact before_extension _ _ hp (by simp)
      · exact hl _ [] rfl (fun _ => rfl) e he
    · obtain ⟨b, rest, hp⟩ := entry_extends _ _ e he
      refine hl e (b::rest) ?_ nofun f hf
      rw [hp, append_assoc]
      rfl

section Law

variable [DecidableEq α] {words words' : List (List α×ℕ)} {ts : List (PrefixTree α)}

/-- Each prefix of the words is listed once, with the weight of the words that start with it and after the siblings that
count more. -/
structure PrefixLaw (words : List (List α×ℕ)) (ts : List (PrefixTree α)) : Prop where
  once : ((entries [] ts).map Prod.fst).Nodup
  counts : ∀ path n, (path, n) ∈ entries [] ts ↔
    path ≠ [] ∧ (∃ word∈words, path <+: word.1) ∧ n = weight (startingWith path words)
  total : (ts.map PrefixTree.count).sum = weight words
  ordered : (entries [] ts).Pairwise fun e f => e.1.dropLast = f.1.dropLast → f.2 ≤ e.2

theorem IsForest.entries_before (h : IsForest words ts) (path : List α) : (entries path ts).Pairwise Before := by
  induction h generalizing path with
  | intro nodup _ _ ordered _ ih => exact entries_before_of_children nodup ordered fun t ht => ih t ht _

theorem IsForest.mem_entries (h : IsForest words ts) (path : List α) (e : List α×ℕ) :
    e∈entries path ts ↔ ∃ rest, e.1=path++rest ∧ rest≠[] ∧ (∃ word∈words, rest <+: word.1) ∧
      e.2=weight (startingWith rest words) := by
  induction h generalizing path with
  | @intro words ts _ labels counts _ _ ih =>
    rw [PrefixForest.mem_entries]
    constructor
    · rintro ⟨t, ht, rfl | he⟩
      · obtain ⟨⟨word, m⟩, hw⟩ := exists_mem_of_ne_nil _ ((labels t.label).mp (mem_map_of_mem ht))
        refine ⟨[t.label], rfl, cons_ne_nil _ _, ⟨_, mem_behind.mp hw, ⟨word, rfl⟩⟩, ?_⟩
        rw [←weight_behind]
        exact counts t ht
      · obtain ⟨rest, hp, -, ⟨⟨word, m⟩, hw, hs⟩, hc⟩ := (ih t ht _).mp he
        refine ⟨t.label::rest, ?_, cons_ne_nil _ _, ⟨_, mem_behind.mp hw, ?_⟩, ?_⟩
        · rw [hp, append_assoc]
          rfl
        · exact cons_prefix_cons.mpr ⟨rfl, hs⟩
        · rw [hc, weight_startingWith_cons]
    · rintro ⟨rest, hp, hne, ⟨⟨word, m⟩, hw, hs⟩, hc⟩
      cases rest with
      | nil => exact absurd rfl hne
      | cons a rest =>
        cases word with
        | nil => exact absurd (prefix_nil.mp hs) (cons_ne_nil _ _)
        | cons b word =>
          obtain ⟨rfl, ht1⟩ : a=b ∧ rest <+: word := cons_prefix_cons.mp hs
          have hb := mem_behind.mpr hw
          obtain ⟨t, ht, rfl⟩ := mem_map.mp ((labels a).mpr (ne_nil_of_mem hb))
          refine ⟨t, ht, ?_⟩
          cases rest with
          | nil =>
            refine .inl (Prod.ext hp ?_)
            rw [counts t ht, weight_behind]
            exact hc
          | cons c rest =>
            refine .inr ((ih t ht _).mpr ⟨c::rest, ?_, cons_ne_nil _ _, ⟨_, hb, ht1⟩, ?_⟩)
            · rw [append_assoc]
              exact hp
            · rw [←weight_startingWith_cons]
              exact hc

theorem IsForest.prefixLaw (h : IsForest words ts) (ht : (ts.map PrefixTree.count).sum=weight words) :
    PrefixLaw words ts where
  once := pairwise_map.mpr ((h.entries_before []).imp fun hb => hb.1)
  counts path n := by
    rw [h.mem_entries [] (path, n)]
    constructor
    · rintro ⟨rest, rfl, hr⟩
      exact hr
    · exact fun hp => ⟨path, rfl, hp⟩
  total := ht
  ordered := (h.entries_before []).imp fun hb => hb.2

theorem PrefixLaw.perm (h : PrefixLaw words ts) (hp : words.Perm words') : PrefixLaw words' ts where
  once := h.once
  counts path n := by
    have hw : weight (startingWith path words)=weight (startingWith path words') := weight_perm (hp.filter _)
    rw [h.counts, hw]
    simp [hp.mem_iff]
  total := h.total.trans (weight_perm hp)
  ordered := h.ordered

end Law

end Faultloggerd.Foundations.PrefixForest
