import Mathlib.Data.List.Nodup

/-! # The lookup cache (`minidump_lru_cache.h`)

`LruCache` keeps a `std::list` of pairs, most recent first, and an `std::unordered_map` from keys to
list iterators. An iterator is modelled by the identity of the list node it points at: `splice`
moves a node without changing that identity, so an iterator stays valid until its node is popped.

The two structures are tied together by `Coherent`: the index holds exactly the keys of the list,
each pointing at the node that carries it. `Holds P` says that every cached pair satisfies `P`;
both survive every `put` and `get`, so what a `get` answers satisfies `P` as well. A `put` into a
full cache of capacity 0 has no node to drop (`items_.back()` of an empty list); the model leaves
the cache as it is there.
-/
namespace Faultloggerd.Minidump
open List Function

/-- A node of the list; `id` is what an iterator to it holds. -/
structure ListItem (K V : Type) where
  id : ℕ
  key : K
  value : V

structure LruCache (K V : Type) where
  capacity : ℕ
  items : List (ListItem K V)
  index : K → Option ℕ
  /-- Identity of the next node `push_front` allocates. -/
  fresh : ℕ

namespace LruCache
variable {K V : Type}

def empty (capacity : ℕ) : LruCache K V where
  capacity := capacity
  items := []
  index := fun _ => none
  fresh := 0

def moveToFront (items : List (ListItem K V)) (it : ℕ) : List (ListItem K V) :=
  match items.find? (fun n => n.id=it) with
  | some n => n :: items.eraseP (fun n => n.id=it)
  | none => items

def setValue (items : List (ListItem K V)) (it : ℕ) (value : V) : List (ListItem K V) :=
  items.map fun n => if n.id = it then {n with value := value} else n

def get (c : LruCache K V) (key : K) : Option V × LruCache K V :=
  match c.index key with
  | none => (none, c)
  | some it =>
    let items := moveToFront c.items it
    ((items.find? fun n => n.id=it).map ListItem.value, {c with items := items})

structure Coherent (c : LruCache K V) : Prop where
  nodup : (c.items.map ListItem.id).Nodup
  below : ∀ n ∈ c.items, n.id < c.fresh
  indexed : ∀ k it, c.index k = some it ↔ ∃ n ∈ c.items, n.id = it ∧ n.key = k

/-- The property holds of every entry. -/
def Holds (P : K → V → Prop) (c : LruCache K V) : Prop := ∀ n ∈ c.items, P n.key n.value

theorem coherent_empty (cap : ℕ) : Coherent (empty cap : LruCache K V) where
  nodup := nodup_nil
  below := by simp [empty]
  indexed := by simp [empty]

theorem holds_empty (P : K → V → Prop) (cap : ℕ) : Holds P (empty cap) := by
  simp [Holds, empty]

variable {items : List (ListItem K V)} {n : ListItem K V}

theorem eq_of_id (h : (items.map ListItem.id).Nodup) {m : ListItem K V} (hm : m∈items) (hn : n∈items)
    (he : m.id=n.id) : m=n := inj_on_of_nodup_map h hm hn he

theorem moveToFront_perm (items : List (ListItem K V)) (it : ℕ) : (moveToFront items it).Perm items := by
  unfold moveToFront
  cases hf : items.find? (fun n => n.id=it) with
  | none => exact List.Perm.refl _
  | some n =>
    have hm : n∈items := mem_of_find?_eq_some hf
    have hid : n.id=it := by simpa using find?_some hf
    obtain ⟨a, l1, l2, hl, ha, hi, he⟩ := exists_of_eraseP (p := fun n => decide (n.id=it)) hm (by simpa using hid)
    have han : a=n := by grind
    subst han
    rw [he, hi]
    exact (perm_middle).symm

theorem mem_moveToFront {it : ℕ} : n∈moveToFront items it ↔ n∈items := (moveToFront_perm items it).mem_iff

variable {c : LruCache K V}

theorem Coherent.of_perm (h : Coherent c) (hp : items.Perm c.items) : Coherent {c with items := items} where
  nodup := (hp.map ListItem.id).nodup_iff.mpr h.nodup
  below := fun n hn => h.below n (hp.mem_iff.mp hn)
  indexed := fun k it => by
    rw [h.indexed k it]
    exact ⟨fun ⟨n, hn, e⟩ => ⟨n, hp.mem_iff.mpr hn, e⟩, fun ⟨n, hn, e⟩ => ⟨n, hp.mem_iff.mp hn, e⟩⟩

theorem setValue_ids (items : List (ListItem K V)) (it : ℕ) (v : V) :
    (setValue items it v).map ListItem.id=items.map ListItem.id := by
  unfold setValue
  rw [map_map]
  apply map_congr_left
  intro n _
  by_cases h : n.id=it <;> simp [h]

theorem mem_setValue {it : ℕ} {v : V} : n∈setValue items it v ↔
      ∃ m∈items, n.id=m.id ∧ n.key=m.key ∧ n.value=if m.id=it then v else m.value := by
  unfold setValue
  rw [mem_map]
  constructor
  · intro hx
    obtain ⟨m, hm, rfl⟩ := hx
    refine ⟨m, hm, ?_⟩
    by_cases h : m.id=it <;> simp [h]
  · intro hx
    obtain ⟨m, hm, hid, hk, hv⟩ := hx
    refine ⟨m, hm, ?_⟩
    cases n
    simp only at hid hk hv
    by_cases h : m.id=it
    · simp only [h, if_true] at hv ⊢
      rw [hid, hk, hv, h]
    · simp only [h, if_false] at hv ⊢
      rw [hid, hk, hv]

theorem Coherent.setValue (h : Coherent c) (it : ℕ) (v : V) : Coherent {c with items := setValue c.items it v} where
  nodup := by rw [setValue_ids]; exact h.nodup
  below := by
    intro n hn
    obtain ⟨m, hm, hid, -, -⟩ := mem_setValue.mp hn
    rw [hid]
    exact h.below m hm
  indexed := by
    intro k jt
    rw [h.indexed k jt]
    constructor
    · intro hx
      obtain ⟨m, hm, hid, hk⟩ := hx
      exact ⟨if m.id=it then {m with value := v} else m,
        mem_map.mpr ⟨m, hm, rfl⟩, by split <;> exact hid, by split <;> exact hk⟩
    · intro hx
      obtain ⟨n, hn, hid, hk⟩ := hx
      obtain ⟨m, hm, hid', hk', -⟩ := mem_setValue.mp hn
      exact ⟨m, hm, by rw [←hid', hid], by rw [←hk', hk]⟩

theorem Coherent.get (h : Coherent c) (k : K) : Coherent (c.get k).2 := by
  unfold LruCache.get
  cases c.index k with
  | none => exact h
  | some it => exact h.of_perm (moveToFront_perm _ _)

variable {P : K → V → Prop}

theorem holds_get (h : Holds P c) (k : K) : Holds P (c.get k).2 := by
  unfold LruCache.get
  cases c.index k with
  | none => exact h
  | some it => exact fun n hn => h n (mem_moveToFront.mp hn)

variable {k : K}

theorem get_value (hc : Coherent c) (h : Holds P c) {v : V} (hv : (c.get k).1=some v) : P k v := by
  unfold LruCache.get at hv
  cases hk : c.index k with
  | none => rw [hk] at hv; simp at hv
  | some it =>
    rw [hk] at hv
    simp only [Option.map_eq_some_iff] at hv
    obtain ⟨n, hn, rfl⟩ := hv
    have hid : n.id=it := by simpa using find?_some hn
    have hm1 : n∈c.items := mem_moveToFront.mp (mem_of_find?_eq_some hn)
    obtain ⟨m, hm, hid', hk1⟩ := (hc.indexed k it).mp hk
    have hnm : n=m := eq_of_id hc.nodup hm1 hm (by rw [hid, hid'])
    rw [←hk1, ←hnm]
    exact h n hm1

variable [DecidableEq K]

/-- `index_.erase(items_.back().first)` followed by `items_.pop_back()`. -/
def evict (c : LruCache K V) : LruCache K V :=
  match c.items.getLast? with
  | some back =>
    {c with items := c.items.dropLast, index := Function.update c.index back.key none}
  | none => c

def pushFront (c : LruCache K V) (key : K) (value : V) : LruCache K V :=
  {c with
    items := ⟨c.fresh, key, value⟩::c.items
    index := Function.update c.index key (some c.fresh)
    fresh := c.fresh+1}

def put (c : LruCache K V) (key : K) (value : V) : LruCache K V :=
  match c.index key with
  | some it => {c with items := moveToFront (setValue c.items it value) it}
  | none =>
    if c.items.length ≥ c.capacity then (c.evict).pushFront key value else c.pushFront key value

theorem Coherent.evict (h : Coherent c) : Coherent c.evict := by
  unfold LruCache.evict
  cases hl : c.items.getLast? with
  | none => exact h
  | some back =>
    obtain ⟨rest, hr⟩ : ∃ rest, c.items=rest++[back] := by
      obtain ⟨hne, hb⟩ := getLast?_eq_some_iff.mp hl
      exact ⟨hne, hb⟩
    have hd : c.items.dropLast=rest := by rw [hr, dropLast_concat]
    have hnd : ((rest++[back]).map ListItem.id).Nodup := hr ▸ h.nodup
    have hm : ∀ {n : ListItem K V}, n∈rest → n∈c.items := fun hn => by rw [hr]; simp [hn]
    have hb1 : back∈c.items := by rw [hr]; simp
    -- the dropped node's key has no other node: both would be the node the index points at
    have hk1 : ∀ n∈rest, n.key≠back.key := by
      intro n hn he
      have h1 := (h.indexed n.key n.id).mpr ⟨n, hm hn, rfl, rfl⟩
      have h2 := (h.indexed n.key back.id).mpr ⟨back, hb1, rfl, he.symm⟩
      have hid : n.id=back.id := by rw [h1] at h2; exact Option.some.inj h2
      rw [map_append, nodup_append] at hnd
      exact hnd.2.2 n.id (mem_map.mpr ⟨n, hn, rfl⟩) back.id (by simp) hid
    refine ⟨?_, ?_, ?_⟩
    · rw [hd]
      rw [map_append] at hnd
      exact (nodup_append.mp hnd).1
    · intro n hn
      rw [hd] at hn
      exact h.below n (hm hn)
    · intro k it
      rw [hd]
      by_cases hk : k=back.key
      · subst hk
        simp only [update_self, reduceCtorEq, false_iff, not_exists, not_and]
        intro n hn _ he
        exact hk1 n hn he
      · simp only [update_of_ne hk]
        rw [h.indexed k it]
        constructor
        · intro hx
          obtain ⟨n, hn, hid, hkn⟩ := hx
          rw [hr, mem_append, mem_singleton] at hn
          obtain hn | rfl := hn
          · exact ⟨n, hn, hid, hkn⟩
          · exact absurd hkn.symm hk
        · intro hx
          obtain ⟨n, hn, hid, hkn⟩ := hx
          exact ⟨n, hm hn, hid, hkn⟩

theorem evict_index (h : c.index k=none) : c.evict.index k=none := by
  unfold LruCache.evict
  cases c.items.getLast? with
  | none => exact h
  | some back =>
    by_cases hk : k=back.key
    · simp [hk]
    · simpa [update_of_ne hk] using h

theorem Coherent.pushFront (h : Coherent c) (v : V) (hk : c.index k=none) : Coherent (c.pushFront k v) where
  nodup := by
    simp only [LruCache.pushFront, map_cons, nodup_cons]
    refine ⟨?_, h.nodup⟩
    intro hm
    obtain ⟨n, hn, hid⟩ := mem_map.mp hm
    have := h.below n hn
    omega
  below := by
    intro n hn
    simp only [LruCache.pushFront, mem_cons] at hn ⊢
    obtain rfl | hn := hn
    · exact Nat.lt_succ_self _
    · exact Nat.lt_succ_of_lt (h.below n hn)
  indexed := by
    intro k' it
    by_cases hk' : k'=k
    · subst hk'
      have hno : ∀ n∈c.items, n.key≠k' := by
        intro n hn he
        have := (h.indexed k' n.id).mpr ⟨n, hn, rfl, he⟩
        rw [hk] at this
        cases this
      simp only [LruCache.pushFront, update_self, Option.some.injEq, mem_cons]
      constructor
      · rintro rfl
        exact ⟨_, .inl rfl, rfl, rfl⟩
      · intro hx
        obtain ⟨n, rfl | hn, hid, hkn⟩ := hx
        · exact hid
        · exact absurd hkn (hno n hn)
    · simp only [LruCache.pushFront, mem_cons]
      rw [update_of_ne hk', h.indexed k' it]
      constructor
      · intro hx
        obtain ⟨n, hn, e⟩ := hx
        exact ⟨n, .inr hn, e⟩
      · intro hx
        obtain ⟨n, rfl | hn, hid, hkn⟩ := hx
        · exact absurd hkn.symm hk'
        · exact ⟨n, hn, hid, hkn⟩

theorem Coherent.put (h : Coherent c) (k : K) (v : V) : Coherent (c.put k v) := by
  unfold LruCache.put
  cases hk : c.index k with
  | some it => exact (h.setValue it v).of_perm (moveToFront_perm _ _)
  | none =>
    simp only
    split
    · exact h.evict.pushFront v (evict_index hk)
    · exact h.pushFront v hk

theorem holds_put (hc : Coherent c) (h : Holds P c) {v : V} (hkv : P k v) : Holds P (c.put k v) := by
  unfold LruCache.put
  cases hk : c.index k with
  | some it =>
    intro n hn
    obtain ⟨m, hm, hid, hk1, hv⟩ := mem_setValue.mp (mem_moveToFront.mp hn)
    by_cases he : m.id=it
    · -- the rewritten node is the one the index points at, so its key is `k`
      obtain ⟨m', hm', hid', hk1'⟩ := (hc.indexed k it).mp hk
      have hmm : m=m' := eq_of_id hc.nodup hm hm' (by rw [he, hid'])
      rw [hk1, hv, if_pos he, hmm, hk1']
      exact hkv
    · rw [hk1, hv, if_neg he]
      exact h m hm
  | none =>
    have hp : ∀ d : LruCache K V, (∀ n∈d.items, n∈c.items) → Holds P (d.pushFront k v) := by
      intro d hd n hn
      simp only [LruCache.pushFront, mem_cons] at hn
      obtain rfl | hn := hn
      · exact hkv
      · exact h n (hd n hn)
    simp only
    split
    · apply hp
      intro n hn
      unfold LruCache.evict at hn
      cases hl : c.items.getLast? with
      | none => rw [hl] at hn; exact hn
      | some back => rw [hl] at hn; exact dropLast_subset _ hn
    · exact hp c fun n hn => hn

end LruCache
end Faultloggerd.Minidump
