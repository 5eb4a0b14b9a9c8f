import Mathlib.Algebra.Group.Int.Defs
import Mathlib.Algebra.Group.Nat.Defs
import Mathlib.Tactic.ByContra

/-! # LEB128

A number as bytes of seven bits each, lowest first, every byte but the last with its top bit set. The format does not
ask for the shortest form. A decoder that collects the groups in a word computes the number modulo the word size.
-/
namespace Faultloggerd.Foundations.Leb128
open BitVec Nat

inductive IsLeb : List (BitVec 8) → Prop where
  | last {b : BitVec 8} (h : b.toNat<128) : IsLeb [b]
  | more {b : BitVec 8} {bs : List (BitVec 8)} (h : 128≤b.toNat) (hbs : IsLeb bs) : IsLeb (b :: bs)

theorem isLeb_cons_iff {b : BitVec 8} {bs : List (BitVec 8)} :
    IsLeb (b::bs) ↔ bs=[] ∧ b.toNat<128 ∨ 128≤b.toNat ∧ IsLeb bs := by
  constructor
  · intro h
    cases h with
    | last h => exact .inl ⟨rfl, h⟩
    | more h hbs => exact .inr ⟨h, hbs⟩
  · rintro (⟨rfl, h⟩ | ⟨h, hbs⟩)
    · exact .last h
    · exact .more h hbs

instance decidableIsLeb : (bs : List (BitVec 8)) → Decidable (IsLeb bs)
  | [] => isFalse nofun
  | _ :: bs =>
    have := decidableIsLeb bs
    decidable_of_iff _ isLeb_cons_iff.symm

def group (b : BitVec 8) : ℕ := b.toNat % 128

def unsignedValue : List (BitVec 8) → ℕ
  | [] => 0
  | b :: bs => group b+128*unsignedValue bs

def Negative (bs : List (BitVec 8)) : Prop := ∃ b ∈ bs.getLast?, 64 ≤ group b

instance (bs : List (BitVec 8)) : Decidable (Negative bs) := by
  unfold Negative
  infer_instance

def signedValue (bs : List (BitVec 8)) : ℤ :=
  unsignedValue bs-if Negative bs then 128^bs.length else 0

theorem group_lt (b : BitVec 8) : group b<128 := mod_lt _ (by decide)

theorem unsignedValue_lt (bs : List (BitVec 8)) : unsignedValue bs<128^bs.length := by
  induction bs with
  | nil => exact Nat.one_pos
  | cons b bs ih =>
    have hb := group_lt b
    rw [unsignedValue, List.length_cons]
    omega

theorem signedValue_neg_iff {bs : List (BitVec 8)} : signedValue bs<0 ↔ Negative bs := by
  have hlt := unsignedValue_lt bs
  unfold signedValue
  constructor
  · grind
  · intro hn
    rw [if_pos hn]
    have hc : (unsignedValue bs : ℤ)<128^bs.length := by exact_mod_cast hlt
    omega

section Collect

variable {w : ℕ} {val : BitVec w} {shift : ℕ}

theorem or_shiftLeft (h : val.toNat<2^shift) (x : BitVec w) : val|||x <<< shift=val+x <<< shift := by
  refine (add_eq_or_of_and_eq_zero _ _ ?_).symm
  ext i hi
  rw [getElem_and, getElem_zero]
  by_cases his : i<shift
  · simp [his]
  · have hb : val.getLsbD i=false := by
      exact Nat.testBit_lt_two_pow (Nat.lt_of_lt_of_le h (Nat.pow_le_pow_right (by decide) (by omega)))
    rw [getLsbD_eq_getElem hi] at hb
    rw [hb, Bool.false_and]

def collect (val : BitVec w) (shift : ℕ) (b : BitVec 8) : BitVec w :=
  val ||| BitVec.ofNat w (group b) <<< shift

theorem collect_eq (h : val.toNat<2^shift) (b : BitVec 8) :
    collect val shift b=val+BitVec.ofNat w (2^shift*group b) := by
  rw [collect, or_shiftLeft h]
  congr 1
  apply eq_of_toNat_eq
  rw [toNat_shiftLeft, toNat_ofNat, toNat_ofNat, Nat.shiftLeft_eq, Nat.mod_mul_mod, Nat.mul_comm]

theorem collect_lt (h : val.toNat<2^shift) (b : BitVec 8) : (collect val shift b).toNat<2^(shift+7) := by
  have hb := group_lt b
  rw [collect_eq h, toNat_add]
  have hs : val.toNat+2^shift*group b<2^(shift+7) := by
    rw [Nat.pow_add]
    have hm : 2^shift*group b≤2^shift*127 := mul_le_mul_left _ (by omega)
    omega
  calc (val.toNat+2^shift*group b % 2^w) % 2^w
      ≤ val.toNat+2^shift*group b % 2^w := mod_le _ _
    _≤val.toNat+2^shift*group b := Nat.add_le_add_left (Nat.mod_le _ _) _
    _<2^(shift+7) := hs

theorem collect_add (h : val.toNat<2^shift) (b : BitVec 8) (bs : List (BitVec 8)) :
    collect val shift b+BitVec.ofNat w (2^(shift+7)*unsignedValue bs) =
      val+BitVec.ofNat w (2^shift*unsignedValue (b::bs)) := by
  rw [collect_eq h, BitVec.add_assoc, ←BitVec.ofNat_add, unsignedValue, Nat.mul_add, Nat.pow_add, Nat.mul_assoc]

theorem allOnes_shiftLeft (w shift : ℕ) : BitVec.allOnes w <<< shift=-BitVec.ofNat w (2^shift) := by
  have hp : BitVec.twoPow w shift=BitVec.ofNat w (2^shift) := by
    apply BitVec.eq_of_toNat_eq
    rw [BitVec.toNat_twoPow, BitVec.toNat_ofNat]
  rw [BitVec.shiftLeft_eq_mul_twoPow, ←BitVec.neg_one_eq_allOnes, BitVec.neg_mul, BitVec.one_mul, hp]

/-- With the sign bits above the groups, if the number is negative, the word holds the number. -/
theorem ofInt_signedValue (bs : List (BitVec 8)) (h : (BitVec.ofNat w (unsignedValue bs)).toNat<2^(7*bs.length)) :
    BitVec.ofInt w (signedValue bs) =
      if Negative bs then BitVec.ofNat w (unsignedValue bs)|||BitVec.allOnes w <<< (7*bs.length)
      else BitVec.ofNat w (unsignedValue bs) := by
  unfold signedValue
  by_cases hn : Negative bs
  · have hp : ((2^(7*bs.length) : ℕ) : ℤ)=128^bs.length := by
      rw [Nat.pow_mul]
      exact_mod_cast rfl
    rw [if_pos hn, if_pos hn, or_shiftLeft h, allOnes_shiftLeft, Int.sub_eq_add_neg, ofInt_add,
      ofInt_neg, ←hp, ofInt_natCast, ofInt_natCast]
  · rw [if_neg hn, if_neg hn, Int.sub_zero, ofInt_natCast]

end Collect

end Faultloggerd.Foundations.Leb128
