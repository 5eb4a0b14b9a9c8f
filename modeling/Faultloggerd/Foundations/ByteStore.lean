import Mathlib.Data.List.Basic
import Mathlib.Tactic.Ring

/-! # Byte-addressed memory

Stores of byte strings, little-endian fields, and batches of stores made by several threads. A batch is read
address by address: what it leaves at an address does not depend on the order of the stores as soon as all
stores that reach the address agree on it.
-/
namespace Faultloggerd.Foundations.ByteStore
open List Nat

abbrev Bytes := ℕ → UInt8

def store (m : Bytes) (pos : ℕ) (data : List UInt8) : Bytes := fun a =>
  if pos ≤ a then data[a-pos]?.getD (m a) else m a

def load (m : Bytes) (pos n : ℕ) : List UInt8 := (List.range n).map fun i => m (pos+i)

variable {m m' : Bytes} {pos a n : ℕ} {data : List UInt8}

theorem store_of_outside (h : a<pos ∨ pos+data.length≤a) : store m pos data a=m a := by
  unfold store
  split
  · rw [getElem?_eq_none (by omega)]
    rfl
  · rfl

theorem store_at (i : ℕ) (hi : i<data.length) : store m pos data (pos+i)=data[i] := by
  simp [store, hi]

theorem store_cases (m : Bytes) (pos : ℕ) (data : List UInt8) (a : ℕ) :
    (∃ i, ∃ hi : i<data.length, a=pos+i ∧ store m pos data a=data[i]) ∨
      (a<pos ∨ pos+data.length≤a) ∧ store m pos data a=m a := by
  by_cases h : a<pos ∨ pos+data.length≤a
  · exact .inr ⟨h, store_of_outside h⟩
  · obtain ⟨i, rfl⟩ : ∃ i, a=pos+i := ⟨a-pos, by omega⟩
    exact .inl ⟨i, by omega, rfl, store_at i (by omega)⟩

@[simp] theorem length_load : (load m pos n).length=n := by simp [load]

theorem load_congr (h : ∀ a, pos≤a → a<pos+n → m a=m' a) : load m pos n=load m' pos n := by
  apply map_congr_left
  intro i hi
  exact h _ (by omega) (by have := mem_range.mp hi; omega)

theorem load_store_slice (before mid after : List UInt8) :
    load (store m pos (before++(mid++after))) (pos+before.length) mid.length=mid := by
  apply ext_getElem (by simp)
  intro i hi hi'
  have hlt : before.length+i<(before++(mid++after)).length := by
    grind
  simp only [load, getElem_map, getElem_range, add_assoc, store_at _ hlt]
  simp [hi']

def toLE : ℕ → ℕ → List UInt8
  | 0, _ => []
  | w+1, x => UInt8.ofNat (x % 256) :: toLE w (x/256)

def ofLE : List UInt8 → ℕ
  | [] => 0
  | byte :: bytes => byte.toNat+256*ofLE bytes

@[simp, grind =] theorem length_toLE (w x : ℕ) : (toLE w x).length=w := by
  induction w generalizing x with
  | zero => rfl
  | succ w ih => simp [toLE, ih]

theorem ofLE_toLE (w x : ℕ) : ofLE (toLE w x)=x % 256^w := by
  induction w generalizing x with
  | zero => simp [toLE, ofLE, mod_one]
  | succ w ih =>
    have hb : (UInt8.ofNat (x % 256)).toNat=x % 256 := by simp
    rw [toLE, ofLE, ih, hb, pow_succ', mod_mul]

theorem toLE_mod (w x : ℕ) : toLE w (x % 256^w)=toLE w x := by
  induction w generalizing x with
  | zero => rfl
  | succ w ih =>
    have hl : x % 256^(w+1) % 256=x % 256 := by
      rw [pow_succ', mod_mul_right_mod]
    have hh : x % 256^(w+1)/256=x/256 % 256^w := by
      rw [pow_succ', mod_mul_right_div_self]
    rw [toLE, toLE, hl, hh, ih]

def field (m : Bytes) (pos w : ℕ) : ℕ := ofLE (load m pos w)

theorem field_congr {w : ℕ} (h : ∀ a, pos≤a → a<pos+w → m a=m' a) : field m pos w=field m' pos w := by
  rw [field, field, load_congr h]

theorem field_store_of_disjoint {q w : ℕ} (h : q+w≤pos ∨ pos+data.length≤q) :
    field (store m pos data) q w=field m q w := field_congr fun a ha ha' => store_of_outside (by omega)

def encode (fields : List (ℕ×ℕ)) : List UInt8 := fields.flatMap fun f => toLE f.1 f.2

def width (fields : List (ℕ×ℕ)) : ℕ := (fields.map Prod.fst).sum

theorem width_append (before after : List (ℕ×ℕ)) : width (before++after)=width before+width after := by
  simp [width]

@[simp] theorem length_encode (fields : List (ℕ×ℕ)) : (encode fields).length=width fields := by
  induction fields with
  | nil => rfl
  | cons f fields ih =>
    have hs : encode (f::fields)=toLE f.1 f.2++encode fields := rfl
    simp [hs, ih, width]

theorem field_store_encode (before : List (ℕ×ℕ)) (w x : ℕ) (after : List (ℕ×ℕ)) :
    field (store m pos (encode (before++(w, x)::after))) (pos+width before) w=x % 256^w := by
  have hs1 : encode (before++(w, x)::after) = encode before++(toLE w x++encode after) := by
    simp [encode]
  have hs : load (store m pos (encode before++(toLE w x++encode after)))
      (pos+(encode before).length) (toLE w x).length=toLE w x := load_store_slice _ _ _
  rw [length_encode, length_toLE] at hs
  rw [field, hs1, hs, ofLE_toLE]

theorem field_store_self (w x : ℕ) : field (store m pos (toLE w x)) pos w=x % 256^w := by
  have h : field (store m pos (encode ([]++[(w, x)]))) (pos+width []) w=x % 256^w := field_store_encode [] w x []
  simpa [encode, width] using h

structure Store where
  pos : ℕ
  data : List UInt8

def Store.Puts (w : Store) (a : ℕ) (byte : UInt8) : Prop :=
  ∃ i, ∃ hi : i < w.data.length, a = w.pos+i ∧ w.data[i] = byte

@[grind unfold] def Store.Reaches (w : Store) (a : ℕ) : Prop := w.pos ≤ a ∧ a < w.pos+w.data.length

theorem Store.Reaches.puts {w : Store} (h : w.Reaches a) : ∃ byte, w.Puts a byte := by
  obtain ⟨hlo, hhi⟩ := h
  exact ⟨_, a-w.pos, by omega, by omega, rfl⟩

def storeAll (m : Bytes) (stores : List Store) : Bytes :=
  stores.foldl (fun m w => store m w.pos w.data) m

variable {stores : List Store}

theorem storeAll_of_not_reached (h : ∀ w∈stores, ¬w.Reaches a) : storeAll m stores a=m a := by
  induction stores generalizing m with
  | nil => rfl
  | cons w stores ih =>
    rw [forall_mem_cons] at h
    have hr : storeAll (store m w.pos w.data) stores a=store m w.pos w.data a := ih h.2
    refine hr.trans (store_of_outside ?_)
    grind

theorem storeAll_of_agree {byte : UInt8} (ha1 : ∀ w∈stores, ∀ x, w.Puts a x → x=byte)
    (hs : m a=byte ∨ ∃ w∈stores, w.Reaches a) : storeAll m stores a=byte := by
  induction stores generalizing m with
  | nil => simpa [storeAll] using hs
  | cons w stores ih =>
    rw [forall_mem_cons] at ha1
    refine ih (m := store m w.pos w.data) ha1.2 ?_
    obtain ⟨i, hi, ha, hp⟩ | ⟨ho, hk⟩ := store_cases m w.pos w.data a
    · exact .inl (hp.trans (ha1.1 _ ⟨i, hi, ha, rfl⟩))
    · rw [hk]
      rcases hs with hb | ⟨v, hv, hr⟩
      · exact .inl hb
      · rcases mem_cons.mp hv with rfl | hv
        · grind
        · exact .inr ⟨v, hv, hr⟩

variable {α : Type}

/-- The operations of several threads in the order a schedule picks them; when the schedule ends the threads
finish one after another. -/
def interleave : List ℕ → List (List α) → List α
  | [], threads => threads.flatten
  | t :: schedule, threads =>
    match threads[t]? with
    | some (op :: rest) => op :: interleave schedule (threads.set t rest)
    | _ => interleave schedule threads

theorem interleave_perm (sched : List ℕ) (ths : List (List α)) : (interleave sched ths).Perm ths.flatten := by
  induction sched generalizing ths with
  | nil => exact .refl _
  | cons t sched ih =>
    rw [interleave]
    split
    · rename_i op rest hg
      obtain ⟨ht, hg⟩ := List.getElem?_eq_some_iff.mp hg
      have hs : ths=ths.take t++(op::rest)::ths.drop (t+1) := by
        rw [←hg, getElem_cons_drop, take_append_drop]
      have hs1 : ths.set t rest=ths.take t++rest::ths.drop (t+1) := set_eq_take_append_cons_drop.trans (if_pos ht)
      refine ((ih _).cons op).trans ?_
      rw [hs1]
      conv_rhs => rw [hs]
      simp only [flatten_append]
      exact perm_middle.symm
    · exact ih ths

theorem mem_interleave (sched : List ℕ) (ths : List (List α)) (op : α) : op∈interleave sched ths ↔ ∃ ops∈ths, op∈ops :=
  (interleave_perm sched ths).mem_iff.trans mem_flatten

end Faultloggerd.Foundations.ByteStore
