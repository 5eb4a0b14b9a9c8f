import Mathlib.Data.List.Nodup

/-! # Lists of records with a key

A list that is searched from its front for the record with a key, changed in place and cleared by key.
-/
namespace Faultloggerd.Foundations.KeyedList
open List

variable {α β κ : Type} [DecidableEq κ] (key : α → κ)

def find (k : κ) (l : List α) : Option α :=
  l.find? fun a => decide (key a=k)

def remove (k : κ) (l : List α) : List α :=
  l.filter fun a => decide (key a≠k)

def modify (k : κ) (f : α → α) : List α → List α
  | [] => []
  | a :: l => if key a = k then f a :: l else a :: modify k f l

def Unique (l : List α) : Prop :=
  (l.map key).Nodup

variable {key} {k : κ} {f : α → α} {l : List α} {a : α}

theorem find_eq_none_iff : find key k l=none ↔ ∀ a∈l, key a≠k := by
  simp [find]

theorem mem_of_find (h : find key k l=some a) : a∈l := mem_of_find?_eq_some h

theorem key_of_find (h : find key k l=some a) : key a=k := by
  simpa using find?_some h

theorem mem_remove : a∈remove key k l ↔ a∈l ∧ key a≠k := by
  simp [remove]

theorem find_remove (other : κ) : find key other (remove key k l)=if other=k then none else find key other l := by
  by_cases ho : other=k
  · rw [if_pos ho, find_eq_none_iff]
    intro a ha
    rw [ho]
    exact (mem_remove.mp ha).2
  · rw [if_neg ho, find, remove, find?_filter]
    congr 1
    funext a
    by_cases ha : key a=other
    · simp [ha, ho]
    · simp [ha]

omit [DecidableEq κ] in
theorem Unique.eq_of_key (h : Unique key l) {b : α} (ha : a∈l) (hb : b∈l) (hkey : key a=key b) : a = b :=
  inj_on_of_nodup_map h ha hb hkey

theorem Unique.append_new (h : Unique key l) (hn : find key (key a) l=none) : Unique key (l++[a]) := by
  rw [Unique, map_append, map_singleton]
  refine nodup_append.mpr ⟨h, nodup_singleton _, ?_⟩
  rintro _ hm _ hl rfl
  obtain ⟨b, hb, hkey⟩ := mem_map.mp hm
  rw [mem_singleton] at hl
  exact find_eq_none_iff.mp hn b hb (hkey.trans hl)

theorem Unique.find_eraseP (h : Unique key l) (k : κ) : find key k (l.eraseP fun a => decide (key a=k))=none := by
  induction l with
  | nil => rfl
  | cons a l ih =>
    obtain ⟨hn, hl⟩ := nodup_cons.mp h
    by_cases ha : key a=k
    · rw [eraseP_cons_of_pos (by simpa using ha)]
      refine find_eq_none_iff.mpr fun b hb hkey => hn ?_
      rw [ha, ←hkey]
      exact mem_map_of_mem hb
    · rw [eraseP_cons_of_neg (by simpa using ha), find, find?_cons_of_neg (by simpa using ha)]
      exact ih hl

theorem map_modify {g : α → β} (hf : ∀ a, g (f a)=g a) : (modify key k f l).map g=l.map g := by
  induction l with
  | nil => rfl
  | cons a l ih =>
    rw [modify]
    split
    · rw [map_cons, map_cons, hf]
    · rw [map_cons, map_cons, ih]

theorem mem_modify_of_ne (ha : a∈l) (hkey : key a≠k) : a∈modify key k f l := by
  induction l with
  | nil => cases ha
  | cons b l ih =>
    rw [modify]
    split
    · rename_i hb
      obtain rfl | ha := mem_cons.mp ha
      · exact absurd hb hkey
      · exact mem_cons_of_mem _ ha
    · obtain rfl | ha := mem_cons.mp ha
      · exact mem_cons_self
      · exact mem_cons_of_mem _ (ih ha)

theorem find_append_singleton : find key k (l++[a])=(find key k l).or (if key a=k then some a else none) := by
  simp [find]

theorem find_modify (hf : ∀ a, key a=k → key (f a)=k) (other : κ) :
    find key other (modify key k f l)=if other=k then (find key k l).map f else find key other l := by
  induction l with
  | nil => simp [find, modify]
  | cons a l ih =>
    rw [modify]
    by_cases ha : key a=k
    · by_cases ho : other=k
      · simp [find, ho, ha, hf a ha]
      · simp [find, ho, ha, hf a ha, Ne.symm ho]
    · rw [if_neg ha]
      by_cases hkey : key a=other
      · have ho : other≠k := hkey ▸ ha
        simp [find, hkey, ho]
      · have hs1 : find key other (a::modify key k f l)=find key other (modify key k f l) := by
          simp [find, hkey]
        have hs : find key other (a::l)=find key other l := by simp [find, hkey]
        have hf1 : find key k (a::l)=find key k l := by simp [find, ha]
        rw [hs1, hs, hf1]
        exact ih

theorem Unique.mem_modify (hl : Unique key l) (h : a∈KeyedList.modify key k f l) :
    a∈l ∧ key a≠k ∨ ∃ b, find key k l=some b ∧ a=f b := by
  induction l with
  | nil => cases h
  | cons b l ih =>
    obtain ⟨hn, hl⟩ := nodup_cons.mp hl
    rw [KeyedList.modify] at h
    split at h
    · rename_i hb
      obtain rfl | h := mem_cons.mp h
      · exact .inr ⟨b, by simp [find, hb], rfl⟩
      · refine .inl ⟨mem_cons_of_mem b h, fun hkey => hn ?_⟩
        rw [hb, ←hkey]
        exact mem_map_of_mem h
    · rename_i hb
      have hf : find key k (b::l)=find key k l := by simp [find, hb]
      obtain rfl | h := mem_cons.mp h
      · exact .inl ⟨mem_cons_self, hb⟩
      · rw [hf]
        obtain ⟨h, hkey⟩ | h := ih hl h
        · exact .inl ⟨mem_cons_of_mem b h, hkey⟩
        · exact .inr h

end Faultloggerd.Foundations.KeyedList
