import Mathlib.Algebra.Group.Nat.Defs

/-! # Masked words -/
namespace Faultloggerd.Foundations.BitMasks
open BitVec

/-- A word is what a mask takes from it and what the mask leaves. -/
theorem toNat_and_not_add_and {n : ℕ} (w mask : BitVec n) : (w&&&~~~mask).toNat+(w&&&mask).toNat=w.toNat := by
  have hd : w &&& ~~~mask &&& (w &&& mask)=0 := by grind
  rw [←toNat_add_of_and_eq_zero hd, add_eq_or_of_and_eq_zero _ _ hd]
  congr 1
  ext i hi
  simp only [getElem_or, getElem_and, getElem_not]
  cases w[i] <;> cases mask[i] <;> rfl

end Faultloggerd.Foundations.BitMasks
