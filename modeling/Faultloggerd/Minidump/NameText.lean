import Faultloggerd.Minidump.Streams
import Mathlib.Data.List.TakeWhile

/-! # Names from UTF-16 to UTF-8

`ConvertUTF16ToUTF8` ends at the first zero unit. A text is well formed UTF-16 if it is the encoding of code points; a
text with an unpaired surrogate is the encoding of none.
-/
namespace Faultloggerd.Minidump.MinidumpMemoryReader
open List String

def utf16 (c : Char) : List ℕ :=
  if c.toNat < 0x10000 then [c.toNat] else [0xD800+(c.toNat-0x10000)/0x400, 0xDC00+(c.toNat-0x10000)%0x400]

theorem encodeUTF8_toNat (c : Char) : encodeUTF8 c.toNat=some (utf8EncodeChar c) := by
  have hv : c.toNat<0xD800 ∨ 0xDFFF<c.toNat ∧ c.toNat<0x110000 := c.valid
  have hor : ∀ k a n, n<2^k → 2^k*a ||| n=n%2^k+2^k*a := by
    intro k a n h
    rw [←Nat.two_pow_add_eq_or_of_lt h, Nat.mod_eq_of_lt h, Nat.add_comm]
  have ht : ∀ n, 0x80 ||| n &&& 0x3F=n%64+128 := by
    intro n
    rw [Nat.and_two_pow_sub_one_eq_mod n 6]
    exact (hor 6 2 _ (Nat.mod_lt n (by decide))).trans (congrArg (·+128) (Nat.mod_mod n 64))
  unfold encodeUTF8 utf8EncodeChar
  simp only [Char.toNat_val, Nat.shiftRight_eq_div_pow, ht]
  split_ifs <;> try omega
  · rfl
  · rw [show 192 ||| c.toNat/2^6=c.toNat/64%32+192 from hor 5 6 _ (by omega)]
  · rw [show 224 ||| c.toNat/2^12=c.toNat/4096%16+224 from hor 4 14 _ (by omega)]
  · rw [show 240 ||| c.toNat/2^18=c.toNat/262144%8+240 from hor 3 30 _ (by omega)]

theorem convertLoop_low {unit : ℕ} (h : 0xDC00≤unit ∧ unit≤0xDFFF) (rest : List ℕ) : convertLoop (unit::rest)=none := by
  rw [convertLoop.eq_def]
  dsimp only
  rw [if_neg (by omega), if_neg (by omega), if_pos h]

theorem convertLoop_scalar {unit : ℕ} (hne : unit≠0) (h : ¬(0xD800≤unit ∧ unit≤0xDFFF)) (rest : List ℕ) :
    convertLoop (unit::rest)=(encodeUTF8 unit).bind fun bytes => (convertLoop rest).map (bytes ++ ·) := by
  rw [convertLoop.eq_def]
  dsimp only
  rw [if_neg hne, if_neg (by omega), if_neg (by omega)]

theorem convertLoop_utf16 {c : Char} (h : c.toNat≠0) (rest : List ℕ) :
    convertLoop (utf16 c++rest)=(convertLoop rest).map (utf8EncodeChar c ++ ·) := by
  have hv : c.toNat<0xD800 ∨ 0xDFFF<c.toNat ∧ c.toNat<0x110000 := c.valid
  unfold utf16
  split
  · rw [singleton_append, convertLoop_scalar h (by omega), encodeUTF8_toNat]
    rfl
  · have hp : (0xD800+(c.toNat-0x10000)/0x400) <<< 10+(0xDC00+(c.toNat-0x10000)%0x400)-0x35FDC00=c.toNat := by
      omega
    rw [cons_append, singleton_append, convertLoop, if_neg (by omega), if_pos (by omega), if_pos (by omega), hp,
      encodeUTF8_toNat]
    rfl

theorem convertLoop_flatMap_utf16 {chars : List Char} (h : ∀ c∈chars, c.toNat≠0) :
    convertLoop (chars.flatMap utf16)=some (chars.flatMap utf8EncodeChar) := by
  induction chars with
  | nil => rfl
  | cons c chars ih =>
    obtain ⟨hc, hc1⟩ := forall_mem_cons.mp h
    rw [flatMap_cons, convertLoop_utf16 hc, ih hc1]
    rfl

theorem exists_utf16 {units : List ℕ} (h : convertLoop units≠none) (hz : 0∉units) (hlt : ∀ unit∈units, unit<0x10000) :
    ∃ chars : List Char, chars.flatMap utf16=units := by
  have hc1 : ∀ n, n<0xD800 ∨ 0xDFFF<n ∧ n<0x110000 → ∃ c : Char, c.toNat=n := fun n hn => ⟨.ofNatAux n hn, rfl⟩
  induction units using convertLoop.induct with
  | case1 => exact ⟨[], rfl⟩
  | case2 rest => exact absurd mem_cons_self hz
  | case4 high hne hh low rest hl ih =>
    have hr : convertLoop rest≠none := by
      intro hn1
      simp [convertLoop, hne, hh, hn1] at h
    obtain ⟨chars, rfl⟩ := ih hr (by simp_all) (by simp_all)
    obtain ⟨c, hc⟩ := hc1 (0x10000+(high-0xD800)*0x400+(low-0xDC00)) (.inr (by omega))
    have hh : 0xD800+(c.toNat-0x10000)/0x400=high := by omega
    have hl : 0xDC00+(c.toNat-0x10000)%0x400=low := by omega
    exact ⟨c::chars, by rw [flatMap_cons, utf16, if_neg (by omega), hh, hl]; rfl⟩
  | case6 low rest hne hh hl => exact absurd (convertLoop_low hl rest) h
  | case7 unit rest hne hh hl ih =>
    have hr : convertLoop rest≠none := by
      intro hn1
      simp [convertLoop_scalar hne (by omega), hn1] at h
    obtain ⟨chars, rfl⟩ := ih hr (by simp_all) (by simp_all)
    have hu := hlt unit mem_cons_self
    obtain ⟨c, rfl⟩ := hc1 unit (by omega)
    exact ⟨c::chars, by rw [flatMap_cons, utf16, if_pos hu]; rfl⟩
  | _ => grind [convertLoop]

theorem convertLoop_takeWhile (units : List ℕ) : convertLoop (units.takeWhile (·≠0))=convertLoop units := by
  induction units using convertLoop.induct with
  | case2 rest => rw [convertLoop.eq_def (0::rest)]; rfl
  | case6 low rest hne hh hl =>
    rw [takeWhile_cons_of_pos (by simpa using hne), convertLoop_low hl, convertLoop_low hl]
  | case7 unit rest hne hh hl ih =>
    rw [takeWhile_cons_of_pos (by simpa using hne), convertLoop_scalar hne (by omega),
      convertLoop_scalar hne (by omega), ih]
  | _ => grind [convertLoop, takeWhile_cons, takeWhile_nil]

/-- The result is the UTF-8 encoding of the text before the first zero, from which a decoder gets its code points back;
it is empty if the text is not well formed. -/
theorem convertUTF16ToUTF8_law (units : List UInt16) :
    let text := (units.map UInt16.toNat).takeWhile (· ≠ 0)
    let converted := convertUTF16ToUTF8 (units.map UInt16.toNat)
    (∀ chars : List Char, chars.flatMap utf16 = text → converted = chars.flatMap utf8EncodeChar ∧
      converted.toByteArray.utf8Decode? = some chars.toArray) ∧
    ((¬∃ chars : List Char, chars.flatMap utf16 = text) → converted = []) := by
  intro text converted
  have hc1 : converted=(convertLoop text).getD [] := congrArg (Option.getD · []) (convertLoop_takeWhile _).symm
  have hz : 0 ∉ text := by
    intro h
    have hne := mem_takeWhile_imp h
    simp at hne
  constructor
  · intro chars ht
    have hc2 : ∀ c∈chars, c.toNat≠0 := by
      intro c hc hn1
      refine hz (ht ▸ mem_flatMap.mpr ⟨c, hc, ?_⟩)
      simp [utf16, hn1]
    rw [hc1, ←ht, convertLoop_flatMap_utf16 hc2]
    exact ⟨rfl, utf8Decode?_utf8Encode⟩
  · intro hn
    rw [hc1]
    by_contra hne
    refine hn (exists_utf16 (fun h => hne (by rw [h]; rfl)) hz fun unit hu => ?_)
    obtain ⟨u, -, rfl⟩ := mem_map.mp (( takeWhile_prefix _).subset hu)
    exact u.toNat_lt

end Faultloggerd.Minidump.MinidumpMemoryReader
