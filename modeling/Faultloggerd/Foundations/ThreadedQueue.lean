import Mathlib.Data.List.Chain
import Mathlib.Data.List.Nodup

/-! # Queues threaded through their nodes

A queue is kept as a link from each node to the next, with the first node and the last. Nodes are taken at the front
and given back at the end; two nodes are needed to take one.
-/
namespace Faultloggerd.Foundations.ThreadedQueue
open List

variable {α : Type}

structure Threaded (next : α → Option α) (head tail : Option α) (nodes : List α) : Prop where
  head_eq : head = nodes.head?
  tail_eq : tail = nodes.getLast?
  chain : nodes.IsChain fun a b => next a = some b
  nodup : nodes.Nodup

variable {next next' : α → Option α} {head tail : Option α} {nodes : List α}

theorem Threaded.exists_two (h : Threaded next head tail nodes) (hne : head≠tail) :
    ∃ a b rest, nodes=a::b::rest ∧ head=some a := by
  have hh := h.head_eq
  have ht := h.tail_eq
  cases nodes with
  | nil => exact absurd (hh.trans ht.symm) hne
  | cons a nodes =>
    cases nodes with
    | nil => exact absurd (hh.trans ht.symm) hne
    | cons b rest => exact ⟨a, b, rest, rfl, hh⟩

theorem Threaded.dequeue {a b : α} {rest : List α} (h : Threaded next head tail (a::b::rest)) :
    Threaded next (next a) tail (b::rest) := by
  obtain ⟨hf, hc⟩ := isChain_cons_cons.mp h.chain
  exact ⟨hf, h.tail_eq.trans getLast?_cons_cons, hc, h.nodup.of_cons⟩

theorem Threaded.congr (h : Threaded next head tail nodes) (hn : ∀ a∈nodes, next' a=next a) :
    Threaded next' head tail nodes where
  head_eq := h.head_eq
  tail_eq := h.tail_eq
  chain := isChain_iff_getElem.mpr fun i hi => by
    rw [hn _ (getElem_mem _)]
    exact isChain_iff_getElem.mp h.chain i hi
  nodup := h.nodup

theorem Threaded.enqueue {a last : α} (h : Threaded next head (some last) nodes) (ha : a∉nodes)
    (hl : next' last=some a) (hn1 : ∀ b∈nodes, b≠last → next' b=next b) :
    Threaded next' head (some a) (nodes++[a]) := by
  obtain ⟨front, rfl⟩ := getLast?_eq_some_iff.mp h.tail_eq.symm
  have hn := nodup_append.mp h.nodup
  refine ⟨?_, by simp, ?_, ?_⟩
  · rw [h.head_eq]
    cases front <;> rfl
  · refine isChain_append.mpr ⟨?_, isChain_singleton _, ?_⟩
    · refine isChain_iff_getElem.mpr fun i hi => ?_
      rw [hn1 _ (getElem_mem _) ?_]
      · exact isChain_iff_getElem.mp h.chain i hi
      · -- only the last place holds the last node
        intro heq
        rw [length_append, length_singleton] at hi
        have hf : (front++[last])[i]=front[i] := getElem_append_left (by omega)
        rw [hf] at heq
        exact hn.2.2 _ (heq ▸ getElem_mem _) last (by simp) rfl
    · simp [hl]
  · rw [nodup_append]
    refine ⟨h.nodup, nodup_singleton _, ?_⟩
    rintro b hb c hc rfl
    exact ha (mem_singleton.mp hc ▸ hb)

theorem threaded_range {next : ℕ → Option ℕ} {n : ℕ} (hn : 0<n) (hn1 : ∀ i, i+1<n → next i=some (i+1)) :
    Threaded next (some 0) (some (n-1)) (range n) where
  head_eq := by
    rw [head?_range, if_neg (by omega)]
  tail_eq := by
    rw [getLast?_range, if_neg (by omega)]
  chain := isChain_iff_getElem.mpr fun i hi => by
    rw [length_range] at hi
    simpa using hn1 i hi
  nodup := nodup_range

end Faultloggerd.Foundations.ThreadedQueue
