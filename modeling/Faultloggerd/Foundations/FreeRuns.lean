import Mathlib.Data.List.Nodup

/-! # Free lists whose nodes stand for runs of blocks

A pool of blocks of one size is kept as a list threaded through the free blocks themselves: the first
cell of a free block holds the next one, the second (8 bytes on) the number of adjacent blocks it
stands for. `RunsAt` reads such a list from memory and `blocks` gives the blocks it stands for. Taking
a block splits it off the first run (`takeFront_runsAt`, `blocks_popRun`), giving one back puts a run
of one in front (`giveBack_runsAt`).
-/
namespace Faultloggerd.Foundations.FreeRuns
open Function List

/-- The free list from `head` as pairs of a block and the length of the run that starts there. -/
def RunsAt (m : ℕ → ℕ) : ℕ → List (ℕ×ℕ) → Prop
  | head, [] => head = 0
  | head, (a, c) :: rs => head = a ∧ a ≠ 0 ∧ 0 < c ∧ m (a+8) = c ∧ RunsAt m (m a) rs

def blocks (step : ℕ) (rs : List (ℕ×ℕ)) : List ℕ :=
  rs.flatMap fun r => List.range' r.1 r.2 step

def popRun (step : ℕ) : List (ℕ×ℕ) → List (ℕ×ℕ)
  | [] => []
  | (a, c) :: rs => if 1 < c then (a+step, c-1) :: rs else rs

def Spaced (step : ℕ) (xs : List ℕ) : Prop :=
  ∀ x ∈ xs, ∀ y ∈ xs, x ≠ y → x+step ≤ y ∨ y+step ≤ x

variable {step : ℕ} {m m' : ℕ → ℕ} {head a b c : ℕ} {rs : List (ℕ×ℕ)}

theorem blocks_cons : blocks step ((a, c)::rs)=range' a c step++blocks step rs := by
  simp [blocks]

theorem blocks_popRun (hc : 0<c) : blocks step ((a, c)::rs)=a::blocks step (popRun step ((a, c)::rs)) := by
  obtain ⟨c, rfl⟩ : ∃ d, c=d+1 := ⟨c-1, by omega⟩
  simp only [popRun]
  split_ifs with h
  · simp [blocks, range'_succ]
  · obtain rfl : c=0 := by omega
    simp [blocks]

theorem blocks_give : blocks step ((b, 1)::rs)=b::blocks step rs := by
  simp [blocks]

theorem mem_blocks_of_mem (step : ℕ) (h : RunsAt m head rs) : ∀ r∈rs, r.1∈blocks step rs := by
  induction rs generalizing head with
  | nil => simp
  | cons r rs ih =>
    obtain ⟨-, -, hc, -, hr1⟩ := h
    intro r hr
    obtain rfl | hr := mem_cons.mp hr
    · rw [blocks_popRun hc]
      simp
    · have hm := ih hr1 r hr
      rw [blocks_cons, mem_append]
      exact .inr hm

theorem blocks_eq_nil_iff (step : ℕ) (h : RunsAt m head rs) : blocks step rs=[] ↔ rs=[] := by
  constructor
  · intro h0
    cases rs with
    | nil => rfl
    | cons r rs => exact absurd (mem_blocks_of_mem step h r (by simp)) (by simp [h0])
  · rintro rfl
    rfl

theorem RunsAt.congr (step : ℕ) (h : RunsAt m head rs)
    (hm : ∀ x∈blocks step rs, m' x=m x ∧ m' (x+8)=m (x+8)) : RunsAt m' head rs := by
  have key : ∀ r∈rs, m' r.1=m r.1 ∧ m' (r.1+8)=m (r.1+8) := fun r hr => hm r.1 (mem_blocks_of_mem step h r hr)
  clear hm
  induction rs generalizing head with
  | nil => exact h
  | cons r rs ih =>
    obtain ⟨a, c⟩ := r
    obtain ⟨h1, h2, h3, h4, h5⟩ := h
    have ha := key (a, c) (by simp)
    refine ⟨h1, h2, h3, by rw [ha.2, h4], ?_⟩
    rw [ha.1]
    exact ih h5 fun r hr => key r (by simp [hr])

/-- If the first node stands for more than its own block, the next block becomes the node for the
rest; otherwise the list goes on behind it. The second component is the new head. -/
def takeFront (step : ℕ) (m : ℕ → ℕ) (a : ℕ) : (ℕ → ℕ) × ℕ :=
  if 1 < m (a+8) then
    (Function.update (Function.update m (a+step) (m a)) (a+step+8) (m (a+8)-1), a+step)
  else (m, m a)

theorem takeFront_frame {x : ℕ} (h : 1< m (a+8) → x<a+step ∨ a+step+16≤x) : (takeFront step m a).1 x=m x := by
  unfold takeFront
  split_ifs with h1
  · dsimp only
    rw [update_of_ne (by omega), update_of_ne (by omega)]
  · rfl

theorem takeFront_runsAt (hs : 16≤ step) (hnd : (blocks step ((a, c)::rs)).Nodup)
    (hsp : Spaced step (blocks step ((a, c)::rs))) (h : RunsAt m a ((a, c)::rs)) :
    RunsAt (takeFront step m a).1 (takeFront step m a).2 (popRun step ((a, c)::rs)) := by
  obtain ⟨-, ha, hc, rfl, hr⟩ := h
  rw [blocks_cons] at hnd hsp
  simp only [takeFront, popRun]
  split_ifs with h1
  · -- the block after the first is none of those behind the run
    have hn : a+step∈range' a (m (a+8)) step := mem_range'.mpr ⟨1, h1, by omega⟩
    have ha1 : ∀ x∈blocks step rs, x+step≤a+step ∨ a+step+step≤x := by
      intro x hx
      apply hsp x (by simp [hx]) _ (mem_append_left _ hn)
      intro he
      exact (nodup_append.mp hnd).2.2 _ hn x hx he.symm
    refine ⟨rfl, by omega, by omega, update_self _ _ _, ?_⟩
    dsimp only
    rw [update_of_ne (by omega), update_self]
    apply hr.congr step
    intro x hx
    have hx' := ha1 x hx
    constructor <;> rw [update_of_ne (by omega), update_of_ne (by omega)]
  · exact hr

def giveBack (m : ℕ → ℕ) (head b : ℕ) : ℕ → ℕ :=
  Function.update (Function.update m b head) (b+8) 1

theorem giveBack_frame {x : ℕ} (h : x<b ∨ b+16≤x) : giveBack m head b x=m x := by
  unfold giveBack
  rw [update_of_ne (by omega), update_of_ne (by omega)]

theorem giveBack_runsAt (hs : 16≤ step) (hb : b≠0)
    (hsp : ∀ x∈blocks step rs, x+step≤b ∨ b+step≤x) (h : RunsAt m head rs) :
    RunsAt (giveBack m head b) b ((b, 1)::rs) := by
  refine ⟨rfl, hb, Nat.one_pos, update_self _ _ _, ?_⟩
  have hn : giveBack m head b b=head := by
    rw [giveBack, update_of_ne (by omega), update_self]
  rw [hn]
  apply h.congr step
  intro x hx
  have hx' := hsp x hx
  exact ⟨giveBack_frame (by omega), giveBack_frame (by omega)⟩

end Faultloggerd.Foundations.FreeRuns
