import Faultloggerd.Foundations.EventRuns
import Faultloggerd.Minidump.BitmapIndex
import Faultloggerd.Minidump.IntervalTree

/-! # The bitmap filter (`BitmapFilterIndex` in `minidump_index.cpp`)

A bitmap in front of an interval tree answers early where no bit is set. It loses ranges in two ways: what lies beyond
the bitmap is never marked, and `SetGranularity` starts with an empty bitmap while the tree keeps its ranges.
-/
namespace Faultloggerd.Minidump
open List BitmapIndex IntervalNode Foundations.EventRuns

variable {ε : Type}

structure BitmapFilterIndex (ε : Type) where
  bitmap : BitmapIndex
  preciseIndex : IntervalTree ℕ ε

namespace BitmapFilterIndex

def new (addressRange granularity : ℕ) : BitmapFilterIndex ε := ⟨.new addressRange granularity, .empty⟩

inductive Call (ε : Type) where
  | insert (e : IndexEntry ℕ ε)
  | setGranularity (granularity : ℕ)

def step : Call ε → BitmapFilterIndex ε → BitmapFilterIndex ε
  | .insert e, x => ⟨x.bitmap.markRange e.start e.stop, (x.preciseIndex.insert e.start e.stop e.value).2⟩
  | .setGranularity granularity, x => {x with bitmap := .new 0x800000000000 granularity}

def lookup (x : BitmapFilterIndex ε) (address : ℕ) : Option ε :=
  if x.bitmap.size ≠ 0 ∧ ¬x.bitmap.isInRange address then none else x.preciseIndex.search address

def isInRange (x : BitmapFilterIndex ε) (address : ℕ) : Bool :=
  if x.bitmap.size ≠ 0 ∧ ¬x.bitmap.isInRange address then false else (x.preciseIndex.search address).isSome

/-- An accepted range ends within the bitmap, and a new bitmap is for a tree without ranges, unless there is no bitmap.
-/
def Marked (x : BitmapFilterIndex ε) : Call ε → Prop
  | .insert e => (x.preciseIndex.insert e.start e.stop e.value).1 = true → x.bitmap.bitCount ≠ 0 →
    e.stop / x.bitmap.granularity < x.bitmap.bitCount
  | .setGranularity granularity =>
    (BitmapIndex.new 0x800000000000 granularity).bitCount ≠ 0 → x.preciseIndex.root.toList = []

variable {x : BitmapFilterIndex ε}

/-- The bitmap does not hide what the tree holds. -/
structure Covers (x : BitmapFilterIndex ε) : Prop where
  ordered : Ordered x.preciseIndex.root
  avl : Avl x.preciseIndex.root
  sized : x.bitmap.Sized
  granularity : x.bitmap.bitCount ≠ 0 → x.bitmap.granularity ≠ 0
  marked : x.bitmap.bitCount ≠ 0 → ∀ e ∈ toList x.preciseIndex.root, ∀ a, e.Contains a → x.bitmap.isInRange a = true

theorem Covers.step (h : Covers x) (c : Call ε) (hc : Marked x c) : Covers (step c x) := by
  cases c with
  | setGranularity gran =>
    refine ⟨h.ordered, h.avl, sized_new _ _, fun h => (new_lt_bitCount (Nat.zero_le _) h).1, fun hc1 e he => ?_⟩
    exact absurd ((hc hc1) ▸ he) not_mem_nil
  | insert e =>
    have hh : IntervalTree.Holds x.preciseIndex (toList x.preciseIndex.root) := ⟨h.ordered, h.avl, .refl _⟩
    obtain ⟨ho, ha1, he1⟩ := hh.insert e
    refine ⟨ho, ha1, sized_markRange h.sized _ _, ?_, fun hc1 f hf a ha => ?_⟩
    · simpa [BitmapFilterIndex.step] using h.granularity
    · have hb : x.bitmap.bitCount≠0 := by simpa [BitmapFilterIndex.step] using hc1
      have ho1 (hf : f∈toList x.preciseIndex.root) := isInRange_markRange (h.marked hb f hf a ha) e.start e.stop
      have hf := he1.mem_iff.mp hf
      split_ifs at hf with hok
      · obtain rfl | hf := mem_cons.mp hf
        · have hl := hc hok hb
          exact isInRange_marked h.sized ha.1 ha.2 (h.granularity hb) ((Nat.div_le_div_right ha.2).trans_lt hl)
        · exact ho1 hf
      · exact ho1 hf

theorem Covers.transparent (h : Covers x) (a : ℕ) :
    x.lookup a=x.preciseIndex.search a ∧ x.isInRange a=(x.preciseIndex.search a).isSome := by
  rw [lookup, isInRange]
  split_ifs with hs1
  · obtain ⟨hs, -⟩ | ⟨e, he, -, hc, -⟩ := searchNode_spec a h.ordered h.avl.wellMax
    · rw [IntervalTree.search, hs]
      exact ⟨rfl, rfl⟩
    · exact absurd (h.marked hs1.1 e he a hc) hs1.2
  · exact ⟨rfl, rfl⟩

/-- In a run in which every accepted range ends within the bitmap and no bitmap is replaced once there are ranges, the
filter answers as the tree does. -/
theorem bitmap_filter_transparent (addressRange granularity : ℕ) {calls : List (Call ε)}
    (hcalls : Every step Marked calls (new addressRange granularity)) (a : ℕ) :
    (run step calls (new addressRange granularity)).lookup a =
        (run step calls (new addressRange granularity)).preciseIndex.search a ∧
      (run step calls (new addressRange granularity)).isInRange a =
        ((run step calls (new addressRange granularity)).preciseIndex.search a).isSome := by
  have hn : Covers (new addressRange granularity : BitmapFilterIndex ε) :=
    ⟨.nil, trivial, sized_new _ _, fun h => (new_lt_bitCount (Nat.zero_le _) h).1, fun _ => nofun⟩
  exact (run_invariant_of_every Covers (fun _ c h => h.step c) hn hcalls).transparent a

/-- The second range starts where the first does and is refused; that it ends behind the bitmap does no harm. -/
theorem bitmap_filter_transparent_one :
    (run step [.insert ⟨5, 6, 7⟩, .insert ⟨5, 2000, 8⟩] (new 100 10)).lookup 5 =
    (run step [.insert ⟨5, 6, 7⟩, .insert ⟨5, 2000, 8⟩] (new 100 10)).preciseIndex.search 5 := by
  have hm : Every step Marked [.insert ⟨5, 6, 7⟩, .insert ⟨5, 2000, 8⟩] (new 100 10 : BitmapFilterIndex ℕ) :=
    ⟨fun _ _ => by decide, fun h => absurd h (by decide), trivial⟩
  exact (bitmap_filter_transparent 100 10 hm 5).1

/-- A range behind the bitmap, and a new bitmap after a range. -/
theorem bitmap_filter_hides : (run step [.insert ⟨1000, 1010, 7⟩] (new 100 10)).lookup 1005 = none ∧
    (run step [.insert ⟨1000, 1010, 7⟩] (new 100 10)).preciseIndex.search 1005 = some 7 ∧
    (run step [.insert ⟨5, 6, 7⟩, .setGranularity 134217728] (new 100 10)).lookup 5 = none ∧
    (run step [.insert ⟨5, 6, 7⟩, .setGranularity 134217728] (new 100 10)).preciseIndex.search 5 = some 7 := by
  decide +kernel

end BitmapFilterIndex
end Faultloggerd.Minidump
