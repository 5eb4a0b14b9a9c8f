import Mathlib.Data.List.Basic
import Mathlib.Data.Nat.Bitwise

/-! # The address bitmap (`BitmapIndex` in `minidump_optimizer.cpp`)

One bit for every `granularity` bytes of address space, packed into 64-bit words. `markRange` sets
the bits of a closed range with word-sized stores, `isInRange` tests the bit of an address. The
word-level code does what it is for: after `markRange start stop` exactly the old bits and the bits
`start / granularity … stop / granularity` that exist are set (`bit_markRange`).
-/
namespace Faultloggerd.Minidump
open List BitVec Nat Bool

structure BitmapIndex where
  granularity : ℕ
  bitmap : List (BitVec 64)
  bitCount : ℕ

namespace BitmapIndex

def maxBitMapSize : ℕ := 2^20+1

/-- The constructor: a bitmap that would be too large is disabled. -/
def new (addressRange granularity : ℕ) : BitmapIndex :=
  if granularity = 0 then ⟨granularity, [], 0⟩
  else
    let bitmapSize64 := addressRange/granularity+1
    if bitmapSize64 > maxBitMapSize then ⟨0, [], 0⟩
    else ⟨granularity, List.replicate ((bitmapSize64+63)/64) 0, bitmapSize64⟩

def allBits : BitVec 64 := ~~~0#64

/-- The mask of the bits `startIdx … endIdx` of one word, collected bit by bit. -/
def wordMask (startIdx endIdx : ℕ) : BitVec 64 :=
  (List.range' startIdx (endIdx+1-startIdx)).foldl
    (fun mask i => mask ||| (1#64 <<< (i % 64))) 0

/-- `for (w = startWord + 1; w < endWord; ++w) bitmap_[w] = ~0ULL`. -/
def fillWords (words : List (BitVec 64)) (startWord endWord : ℕ) : List (BitVec 64) :=
  (List.range' (startWord+1) (endWord-(startWord+1))).foldl
    (fun ws w => ws.set w allBits) words

def markWords (words : List (BitVec 64)) (startIdx endIdx : ℕ) : List (BitVec 64) :=
  let startWord := startIdx/64
  let endWord := endIdx/64
  if startWord = endWord then words.modify startWord (· ||| wordMask startIdx endIdx)
  else
    let startBit := startIdx % 64
    let endBit := endIdx % 64
    let words := words.modify startWord (· ||| ~~~((1#64 <<< startBit)-1))
    let words := fillWords words startWord endWord
    if endBit = 63 then words.set endWord allBits
    else words.modify endWord (· ||| ((1#64 <<< (endBit+1))-1))

def markRange (b : BitmapIndex) (start stop : ℕ) : BitmapIndex :=
  if b.granularity = 0 ∨ b.bitCount = 0 then b
  else
    let startIdx := start/b.granularity
    let endIdx := stop/b.granularity
    if startIdx ≥ b.bitCount then b
    else
      let endIdx := if endIdx ≥ b.bitCount then b.bitCount-1 else endIdx
      {b with bitmap := markWords b.bitmap startIdx endIdx}

def isInRange (b : BitmapIndex) (address : ℕ) : Bool :=
  if b.granularity = 0 ∨ b.bitCount = 0 then false
  else
    let idx := address/b.granularity
    if idx ≥ b.bitCount then false
    else b.bitmap.getD (idx/64) 0 &&& (1#64 <<< (idx % 64)) ≠ 0

def clear (b : BitmapIndex) : BitmapIndex := {b with bitmap := b.bitmap.map fun _ => 0}

def size (b : BitmapIndex) : ℕ := b.bitCount

def wordsBit (words : List (BitVec 64)) (i : ℕ) : Bool := (words.getD (i/64) 0).getLsbD (i % 64)

@[simp] theorem getLsbD_allBits (j : ℕ) : allBits.getLsbD j=decide (j<64) := by
  simp only [allBits, getLsbD_not, getLsbD_zero, Bool.not_false, Bool.and_true]

theorem getLsbD_low (k j : ℕ) (hk : k<64) : ((1#64 <<< k)-1).getLsbD j=decide (j<k) := by
  have hlt : 2^k<2^64 := Nat.pow_lt_pow_right (by decide) hk
  have hp : 0<2^k := Nat.two_pow_pos k
  have h : (1#64 <<< k)-1=BitVec.ofNat 64 (2^k-1) := by
    apply eq_of_toNat_eq
    have h1 : (1 : BitVec 64).toNat=1 := rfl
    simp only [toNat_sub, toNat_shiftLeft, toNat_ofNat]
    omega
  grind

theorem getLsbD_foldl_bits (l : List ℕ) (mask : BitVec 64) (j : ℕ) :
    (l.foldl (fun m i => m|||(1#64 <<< (i % 64))) mask).getLsbD j=(mask.getLsbD j || l.any fun i => i % 64=j) := by
  induction l generalizing mask with
  | nil => simp
  | cons i l ih =>
    grind

theorem getLsbD_wordMask (s e i : ℕ) (hs : s/64=i/64) (he : e/64=i/64) :
    (wordMask s e).getLsbD (i % 64)=(decide (s≤ i) && decide (i≤e)) := by
  rw [wordMask, getLsbD_foldl_bits, Bool.eq_iff_iff]
  simp only [ofNat_eq_ofNat, getLsbD_zero, Bool.false_or, any_eq_true, mem_range'_1, decide_eq_true_eq,
    Bool.and_eq_true]
  constructor
  · omega
  · intro h
    exact ⟨i, by omega, rfl⟩

variable (words : List (BitVec 64))

theorem wordsBit_or (w i : ℕ) (m : BitVec 64) (hw : w<words.length) : wordsBit (words.modify w (·|||m)) i =
      (wordsBit words i || (decide (w=i/64) && m.getLsbD (i % 64))) := by
  unfold wordsBit
  by_cases h : w=i/64
  · subst h
    simp [List.getElem?_eq_getElem hw]
  · simp [h]

theorem wordsBit_set_allBits (w i : ℕ) (hw : w<words.length) :
    wordsBit (words.set w allBits) i=(wordsBit words i || decide (w=i/64)) := by
  unfold wordsBit
  by_cases h : w=i/64
  · subst h
    simp [hw, mod_lt]
  · simp [h]

theorem fillWords_length (s e : ℕ) : (fillWords words s e).length=words.length := by
  unfold fillWords
  generalize range' _ _=l
  induction l generalizing words with
  | nil => rfl
  | cons w l ih => simp [ih]

theorem wordsBit_fillWords (s e i : ℕ) (he : e≤words.length) : wordsBit (fillWords words s e) i =
      (wordsBit words i || (decide (s< i/64) && decide (i/64<e))) := by
  have key : ∀ (l : List ℕ) (words : List (BitVec 64)), (∀ w∈l, w<words.length) →
      wordsBit (l.foldl (fun ws w => ws.set w allBits) words) i = (wordsBit words i || l.any fun w => w=i/64) := by
    intro l
    induction l with
    | nil => simp
    | cons w l ih =>
      intro words h
      rw [foldl_cons, ih _ (by simpa using fun x hx => h x (by simp [hx])),
        wordsBit_set_allBits _ _ _ (h w (by simp)), any_cons, Bool.or_assoc]
  rw [fillWords, key _ _ (fun w hw => by rw [mem_range'_1] at hw; omega)]
  congr 1
  rw [Bool.eq_iff_iff]
  simp only [any_eq_true, mem_range'_1, decide_eq_true_eq, Bool.and_eq_true]
  constructor
  · omega
  · intro h
    exact ⟨i/64, by omega, rfl⟩

theorem markWords_length (s e : ℕ) : (markWords words s e).length=words.length := by
  unfold markWords
  dsimp only
  split_ifs <;> simp [fillWords_length]

theorem or_out_of_range (x : Bool) {s e i : ℕ} (h : ¬(s≤ i ∧ i≤e)) : (x || (decide (s≤ i) && decide (i≤e)))=x := by
  rw [←Bool.decide_and, decide_eq_false h, Bool.or_false]

theorem wordsBit_markWords (s e i : ℕ) (hse : s≤e) (he : e/64<words.length) :
    wordsBit (markWords words s e) i=(wordsBit words i || (decide (s≤ i) && decide (i≤e))) := by
  have hs : s % 64<64 := mod_lt _ (by decide)
  unfold markWords
  dsimp only
  split_ifs with h1 h2
  · rw [wordsBit_or _ _ _ _ (by omega)]
    by_cases hi : s/64=i/64
    · simp [hi, getLsbD_wordMask _ _ _ hi (h1 ▸ hi)]
    · rw [decide_eq_false hi, Bool.false_and, Bool.or_false]
      symm
      apply or_out_of_range
      omega
  · rw [wordsBit_set_allBits _ _ _ (by simpa [fillWords_length] using he),
      wordsBit_fillWords _ _ _ _ (by simpa using he.le), wordsBit_or _ _ _ _ (by omega), getLsbD_not,
      getLsbD_low _ _ hs]
    grind
  · rw [wordsBit_or _ _ _ _ (by simpa [fillWords_length] using he),
      wordsBit_fillWords _ _ _ _ (by simpa using he.le), wordsBit_or _ _ _ _ (by omega),
      getLsbD_not, getLsbD_low _ _ hs, getLsbD_low _ _ (by omega)]
    grind

def Sized (b : BitmapIndex) : Prop := b.bitmap.length = (b.bitCount+63)/64

def bit (b : BitmapIndex) (i : ℕ) : Bool := wordsBit b.bitmap i

theorem sized_new (range gran : ℕ) : Sized (new range gran) := by
  unfold new Sized
  dsimp only
  split_ifs <;> simp

theorem sized_markRange {b : BitmapIndex} (h : Sized b) (start stop : ℕ) : Sized (b.markRange start stop) := by
  unfold markRange
  dsimp only
  split_ifs
  · exact h
  · exact h
  all_goals exact (markWords_length _ _ _).trans h

variable (b : BitmapIndex) (start stop : ℕ)

@[simp] theorem markRange_granularity : (b.markRange start stop).granularity=b.granularity := by
  unfold markRange
  dsimp only
  split_ifs <;> rfl

@[simp] theorem markRange_bitCount : (b.markRange start stop).bitCount=b.bitCount := by
  unfold markRange
  dsimp only
  split_ifs <;> rfl

theorem bit_markRange {b : BitmapIndex} (h : Sized b) {start stop : ℕ} (hle : start≤ stop)
    (hg : b.granularity≠0) {i : ℕ} (hi : i<b.bitCount) : (b.markRange start stop).bit i=(b.bit i ||
      (decide (start/b.granularity≤ i) && decide (i≤ stop/b.granularity))) := by
  have hd : start/b.granularity≤ stop/b.granularity := Nat.div_le_div_right hle
  have hw : (b.bitCount-1)/64<b.bitmap.length := by rw [h]; omega
  unfold markRange
  dsimp only
  split_ifs with h1 h2 h3
  · omega
  · exact (or_out_of_range _ (by omega)).symm
  · rw [bit, wordsBit_markWords _ _ _ _ (by omega) hw]
    congr 2
    rw [decide_eq_true (by omega), decide_eq_true (by omega)]
  · have he : stop/b.granularity/64<b.bitmap.length := by
      omega
    rw [bit, wordsBit_markWords _ _ _ _ hd he]
    rfl

theorem and_bit_ne_zero (word : BitVec 64) {k : ℕ} (hk : k<64) : decide (word&&&(1#64 <<< k)≠0)=word.getLsbD k := by
  rw [←twoPow_eq, and_twoPow]
  have hne : twoPow 64 k≠0 := by
    intro h0
    have hb1 : (twoPow 64 k).getLsbD k=false := by rw [h0]; exact getLsbD_zero
    simp [hk] at hb1
  split_ifs with hb
  · rw [hb, decide_eq_true hne]
  · rw [eq_false_iff.mpr hb]
    rfl

theorem isInRange_eq (addr : ℕ) (hg : b.granularity≠0) (hi : addr/b.granularity<b.bitCount) :
    b.isInRange addr=b.bit (addr/b.granularity) := by
  have hc : b.bitCount≠0 := ne_of_gt (zero_lt_of_lt hi)
  unfold isInRange
  rw [if_neg (not_or.mpr ⟨hg, hc⟩)]
  rw [if_neg (not_le.mpr hi), and_bit_ne_zero _ (mod_lt _ (by decide))]
  rfl

@[simp] theorem clear_clear : b.clear.clear=b.clear := by
  simp [clear]

@[simp] theorem clear_new (range gran : ℕ) : (new range gran).clear=new range gran := by
  unfold new
  dsimp only
  split_ifs <;> simp [clear]

theorem clear_markRange : (b.markRange start stop).clear=b.clear := by
  have hw : ∀ s e, (markWords b.bitmap s e).map (fun _ => (0 : BitVec 64)) = b.bitmap.map fun _ => 0 := by
    intro s e
    rw [map_const', map_const', markWords_length]
  unfold markRange
  dsimp only
  split_ifs
  · rfl
  · rfl
  all_goals simp only [clear, hw]

section

variable {words : List (BitVec 64)} {i : ℕ}

section

variable (h : wordsBit words i=true)
include h

theorem wordsBit_modify (w : ℕ) (m : BitVec 64) :
    wordsBit (words.modify w (·|||m)) i=true := by
  by_cases hw : w<words.length
  · rw [wordsBit_or _ _ _ _ hw, h, Bool.true_or]
  · rwa [modify_eq_self (not_lt.mp hw)]

theorem wordsBit_set (w : ℕ) : wordsBit (words.set w allBits) i=true := by
  by_cases hw : w<words.length
  · rw [wordsBit_set_allBits _ _ _ hw, h, Bool.true_or]
  · rwa [set_eq_of_length_le (not_lt.mp hw)]

theorem wordsBit_fill (s e : ℕ) : wordsBit (fillWords words s e) i=true :=
  foldlRecOn _ _ (motive := fun ws => wordsBit ws i=true) h fun _ h w _ => wordsBit_set h w

theorem wordsBit_mark (s e : ℕ) : wordsBit (markWords words s e) i=true := by
  unfold markWords
  dsimp only
  split_ifs
  · exact wordsBit_modify h _ _
  · exact wordsBit_set (wordsBit_fill (wordsBit_modify h _ _) _ _) _
  · exact wordsBit_modify (wordsBit_fill (wordsBit_modify h _ _) _ _) _ _

end

theorem isInRange_iff {b : BitmapIndex} {a : ℕ} : b.isInRange a=true ↔
    b.granularity≠0 ∧ a/b.granularity<b.bitCount ∧ b.bit (a/b.granularity)=true := by
  by_cases hg : b.granularity=0
  · simp [isInRange, hg]
  by_cases hi : a/b.granularity<b.bitCount
  · rw [isInRange_eq b a hg hi]
    simp [hg, hi]
  · simp [isInRange, not_lt.mp hi]

theorem isInRange_markRange {b : BitmapIndex} {a : ℕ} (h : b.isInRange a=true) (start stop : ℕ) :
    (b.markRange start stop).isInRange a=true := by
  obtain ⟨hg, hi, hb⟩ := isInRange_iff.mp h
  rw [isInRange_iff, markRange_granularity, markRange_bitCount]
  refine ⟨hg, hi, ?_⟩
  unfold markRange
  dsimp only
  split_ifs
  · exact hb
  · exact hb
  all_goals exact wordsBit_mark hb _ _

theorem isInRange_marked {b : BitmapIndex} (hs : b.Sized) {start stop a : ℕ} (hs1 : start≤a) (hs2 : a≤ stop)
    (hg : b.granularity≠0) (hi : a/b.granularity<b.bitCount) : (b.markRange start stop).isInRange a=true := by
  rw [isInRange_iff, markRange_granularity, markRange_bitCount, bit_markRange hs (hs1.trans hs2) hg hi]
  refine ⟨hg, hi, ?_⟩
  simp [Nat.div_le_div_right hs1, Nat.div_le_div_right hs2]

theorem new_lt_bitCount {range gran addr : ℕ} (ha : addr≤ range)
    (hs : (new range gran).bitCount≠0) : (new range gran).granularity≠0 ∧
      addr/(new range gran).granularity<(new range gran).bitCount := by
  unfold new at hs ⊢
  dsimp only at hs ⊢
  split_ifs at hs ⊢ with h1 h2
  · exact absurd rfl hs
  · exact absurd rfl hs
  · exact ⟨h1, Nat.lt_succ_of_le (Nat.div_le_div_right ha)⟩

end

end BitmapIndex
end Faultloggerd.Minidump
