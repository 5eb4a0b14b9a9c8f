import Mathlib.Data.List.Basic

/-! # Streams that are read and written in pieces

A call on a stream may handle fewer elements than it is asked for: a read gets some of what is left, and at least one
element unless the stream is at its end; a write takes at least one. The loops call until all is done.
-/
namespace Faultloggerd.Foundations.ByteStream
open List

variable {α : Type}

/-- What is left of a stream, how much of it each call finds, and how many calls were made. -/
structure Source (α : Type) where
  left : List α
  found : ℕ → ℕ
  calls : ℕ

namespace Source

def count (limit : ℕ) (s : Source α) : ℕ := min (min limit (max 1 (s.found s.calls))) s.left.length

def skip (n : ℕ) (s : Source α) : Source α := {s with left := s.left.drop n, calls := s.calls+1}

def readLoop (piece : ℕ) : ℕ → ℕ → Source α → Option (List α×Source α)
  | _, 0, s => some ([], s)
  | 0, _+1, _ => none
  | fuel+1, length+1, s =>
    let n := s.count (min piece (length+1))
    if n = 0 then none
    else (readLoop piece fuel (length+1-n) (s.skip n)).map fun more => (s.left.take n++more.1, more.2)

/-- Every read that gets something shortens the way, so `length` rounds are enough. -/
def readExactly (piece length : ℕ) (s : Source α) : Option (List α×Source α) := readLoop piece length length s

def readAll (piece limit : ℕ) : ℕ → List α → Source α → List α × Source α
  | 0, got, s => (got, s)
  | fuel+1, got, s =>
    let n := s.count piece
    if n = 0 then (got, s.skip 0)
    else if (got++s.left.take n).length ≥ limit then (got++s.left.take n, s.skip n)
    else readAll piece limit fuel (got++s.left.take n) (s.skip n)

section Rules
variable {s : Source α} {piece : ℕ} {got left : List α}

theorem count_pos {limit : ℕ} (hl1 : 0<limit) (hl : s.left≠[]) : 0<s.count limit := by
  have := length_pos_iff.mpr hl
  rw [count]
  omega

theorem count_le_limit (limit : ℕ) : s.count limit≤limit := by
  rw [count]
  omega

theorem count_le_length (limit : ℕ) : s.count limit≤ s.left.length := Nat.min_le_right ..

theorem skip_front {n : ℕ} (hn : n≤got.length) (hl : s.left=got++left) : (s.skip n).left=got.drop n++left := by
  change s.left.drop n=_
  rw [hl, drop_append_of_le_length hn]

theorem readLoop_front (hp : 0<piece) {fuel : ℕ} (hf : got.length≤fuel) (hl : s.left=got++left) :
    ∃ s', readLoop piece fuel got.length s=some (got, s') ∧ s'.left=left := by
  induction fuel generalizing got s with
  | zero =>
    obtain rfl : got=[] := length_eq_zero_iff.mp (by omega)
    exact ⟨s, rfl, hl⟩
  | succ fuel ih =>
    cases hl1 : got.length with
    | zero =>
      obtain rfl := length_eq_zero_iff.mp hl1
      exact ⟨s, rfl, hl⟩
    | succ length =>
      have hne : s.left≠[] := by
        rw [hl]
        intro h
        rw [(append_eq_nil_iff.mp h).1] at hl1
        cases hl1
      rw [readLoop]
      generalize hn : s.count (min piece (length+1))=n
      have hp1 : 0<n := hn ▸ count_pos (by omega) hne
      have hle : n≤got.length := by
        have := s.count_le_limit (min piece (length+1))
        omega
      have hf' : (got.drop n).length≤fuel := by
        grind
      obtain ⟨s', hr, hl'⟩ := ih hf' (skip_front hle hl)
      refine ⟨s', ?_, hl'⟩
      rw [length_drop, hl1] at hr
      rw [if_neg (by omega), hr, hl, take_append_of_le_length hle, Option.map_some, take_append_drop]

theorem readExactly_front (hp : 0<piece) (hl : s.left=got++left) :
    ∃ s', s.readExactly piece got.length=some (got, s') ∧ s'.left=left := readLoop_front hp (Nat.le_refl _) hl

theorem readAll_eq (hp : 0<piece) {limit fuel : ℕ} (hl : got.length+s.left.length≤limit) (hf : s.left.length<fuel) :
    (readAll piece limit fuel got s).1=got++s.left ∧ (readAll piece limit fuel got s).2.left=[] := by
  induction fuel generalizing got s with
  | zero => omega
  | succ fuel ih =>
    rw [readAll]
    by_cases hn : s.left=[]
    · have hc : s.count piece=0 := by
        rw [count, hn]
        simp
      rw [if_pos hc, hn, append_nil]
      refine ⟨rfl, ?_⟩
      change s.left.drop 0=[]
      rw [hn, drop_nil]
    · have hp1 := count_pos hp hn
      have hle := s.count_le_length piece
      generalize s.count piece=n at *
      have hs : (s.skip n).left=s.left.drop n := rfl
      rw [if_neg (by omega)]
      split_ifs with hf1
      · -- the limit is reached with the last element
        have ha : s.left.length≤n := by
          grind
        rw [take_of_length_le ha]
        exact ⟨rfl, drop_eq_nil_of_le ha⟩
      · have hlimit' : (got++s.left.take n).length+(s.skip n).left.length≤limit := by
          grind
        have hfuel' : (s.skip n).left.length<fuel := by
          grind
        have hr := ih hlimit' hfuel'
        rwa [hs, append_assoc, take_append_drop] at hr

end Rules

end Source

/-- What was written to a stream, how much each call takes, and how many calls were made. -/
structure Sink (α : Type) where
  written : List α
  taken : ℕ → ℕ
  calls : ℕ

namespace Sink

def writeLoop (piece : ℕ) : ℕ → List α → Sink α → Sink α
  | 0, _, s => s
  | fuel+1, rest, s =>
    if rest = [] then s
    else
      let n := min (min piece rest.length) (max 1 (s.taken s.calls))
      writeLoop piece fuel (rest.drop n) {s with written := s.written++rest.take n, calls := s.calls+1}

def writeAll (piece : ℕ) (elements : List α) (s : Sink α) : Sink α := writeLoop piece elements.length elements s

theorem writeLoop_written {piece : ℕ} (hp : 0<piece) {fuel : ℕ} {rest : List α} {s : Sink α}
    (hf : rest.length≤fuel) : (writeLoop piece fuel rest s).written=s.written++rest := by
  induction fuel generalizing rest s with
  | zero =>
    obtain rfl : rest=[] := length_eq_zero_iff.mp (by omega)
    rw [writeLoop, append_nil]
  | succ fuel ih =>
    rw [writeLoop]
    split_ifs with hn
    · rw [hn, append_nil]
    · rw [ih (by grind), append_assoc, take_append_drop]

theorem writeAll_written {piece : ℕ} (hp : 0<piece) (elts : List α) (s : Sink α) :
    (s.writeAll piece elts).written=s.written++elts := writeLoop_written hp (Nat.le_refl _)

end Sink

end Faultloggerd.Foundations.ByteStream
