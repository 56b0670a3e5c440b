import SchemaCanvas.Number.Numeral
import SchemaCanvas.Proofs.Number.Whole

/-!
# Decimals read as floats

A decimal is read as a product or a quotient of two floats where both are exact, and otherwise from
its mantissa and a power of ten of any size. Either way the exact value is rounded once, so a float
other than zero is near to the decimal: two decimals that are a factor of ten apart are never read
as the same float, unless both are read as zero.

* `Binary.Near` : a number and a float that it may have been rounded to;
* `Binary.near_scaled` : a decimal is read as a float near to it.
-/

namespace SchemaCanvas

open Float.Model Float.Model.UnpackedFloat

namespace Binary

variable {a b : ℚ}

/-- A number and a float to which it may have been rounded, of which only the magnitude is known. -/
def Near (x y : ℚ) : Prop := y = 0 ∨ |y| ≤ 2 * |x| ∧ 2 * |x| ≤ 3 * |y|

theorem IsRounded.near {v : Binary} (h : IsRounded a v) (hv : v.value? = some b) : Near a b := by
  obtain ⟨y, hy, hrounds⟩ | ⟨rfl, -⟩ := h
  · cases hv.symm.trans hy
    by_cases hb : b = 0
    · exact .inl hb
    · exact .inr (hrounds.near hb)
  · cases hv

/-- No float but zero is near to two decimals that are a power of ten apart. -/
theorem Near.eq_zero {x y : ℚ} {e : ℤ} (h : Near x y) (h' : Near (x * 10 ^ e) y) (he : e ≠ 0) :
    y = 0 := by
  by_contra hy
  obtain ⟨hlow, hhigh⟩ := h.resolve_left hy
  obtain ⟨hlow', hhigh'⟩ := h'.resolve_left hy
  rw [abs_mul, abs_of_pos (show (0 : ℚ) < 10 ^ e by positivity)] at hlow' hhigh'
  have hpos := abs_pos.2 hy
  rcases lt_or_gt_of_ne he with hneg | hpositive
  · have hten : (10 : ℚ) ^ e ≤ 10 ^ (-1 : ℤ) := zpow_le_zpow_right₀ (by norm_num) (by omega)
    have := mul_le_mul_of_nonneg_left hten (abs_nonneg x)
    rw [zpow_neg_one] at this
    linarith
  · have hten : (10 : ℚ) ^ (1 : ℤ) ≤ 10 ^ e := zpow_le_zpow_right₀ (by norm_num) (by omega)
    have := mul_le_mul_of_nonneg_left hten (abs_nonneg x)
    rw [zpow_one] at this
    linarith

theorem whole?_powerOfTen : ∀ k : Fin 23,
    (ofFloat Float.exactlyRepresentablePowersOfTen[k]).whole? = some (10 ^ k.val) := by
  decide +kernel

theorem unpack_powerOfTen (k : Fin 23) :
    ∃ m e hpos, Float.exactlyRepresentablePowersOfTen[k].toModel.unpack =
      .finite .positive m e hpos ∧ (m * 2 ^ e : ℚ) = 10 ^ k.val := by
  have hvalue := whole?_eq_some_iff.1 (whole?_powerOfTen k)
  have hten : (0 : ℚ) < 10 ^ k.val := by positivity
  push_cast at hvalue
  obtain ⟨s, hs, hzero⟩ | ⟨s, m, e, hpos, hs, -, hm⟩ := unpack_of_value? hvalue
  · exact absurd hzero hten.ne'
  · have hm' : (0 : ℚ) < m * 2 ^ e := by positivity
    cases s with
    | positive => exact ⟨m, e, hpos, hs, hm.symm⟩
    | negative =>
      rw [hm] at hten
      exact absurd (neg_pos.1 hten) hm'.le.not_gt

theorem mul_two_pow_log2 {n : ℕ} (hn : n < 0x20000000000000) :
    ((n * 2 ^ (52 - n.log2) : ℕ) : ℚ) * 2 ^ ((n.log2 : ℤ) - 52) = n := by
  have hlog : n.log2 ≤ 52 := by
    by_cases hzero : n = 0
    · subst hzero
      decide
    · exact Nat.le_of_lt_succ ((Nat.log2_lt hzero).2 hn)
  have := cast_shiftLeft_mul n (52 - n.log2) 0
  rw [Nat.shiftLeft_eq, zpow_zero, mul_one] at this
  rwa [show (n.log2 : ℤ) - 52 = 0 - (52 - n.log2 : ℕ) by omega]

theorem ofFloat_zero_powerOfTen : ∀ k : Fin 23,
    ofFloat ((0 : ℕ).toUInt64.toFloat * Float.exactlyRepresentablePowersOfTen[k]) =
        finite false 0 (-1074) ∧
      ofFloat ((0 : ℕ).toUInt64.toFloat / Float.exactlyRepresentablePowersOfTen[k]) =
        finite false 0 (-1074) := by
  decide +kernel

/-- A decimal of at most 53 bits and a small power of ten is a product or a quotient of floats. -/
theorem isRounded_scaled_of_small {n : ℕ} (hn : n < 0x20000000000000) (k : Fin 23) :
    IsRounded (n * 10 ^ k.val)
        (ofFloat (n.toUInt64.toFloat * Float.exactlyRepresentablePowersOfTen[k])) ∧
      IsRounded (n / 10 ^ k.val)
        (ofFloat (n.toUInt64.toFloat / Float.exactlyRepresentablePowersOfTen[k])) := by
  by_cases hzero : n = 0
  · subst hzero
    obtain ⟨hmul, hdiv⟩ := ofFloat_zero_powerOfTen k
    rw [hmul, hdiv, Nat.cast_zero, zero_mul, zero_div]
    exact ⟨.inl ⟨0, by simp [value?, withSign], .zero⟩, .inl ⟨0, by simp [value?, withSign], .zero⟩⟩
  · obtain ⟨hlow, -, -⟩ := ofNat_eq hzero hn
    obtain ⟨hpos, hunpack⟩ := unpack_toUInt64_of_lt hzero hn
    obtain ⟨m, e, hpos', hpower, hvalue⟩ := unpack_powerOfTen k
    rw [ofFloat_eq, ofFloat_eq, ← hvalue, ← mul_two_pow_log2 hn]
    constructor
    · have := isRounded_mul (n.log2 - 52) e hpos hpos' hlow
      rwa [← hunpack, ← hpower] at this
    · have := isRounded_div (n.log2 - 52) e hpos hpos'
      rwa [← hunpack, ← hpower] at this

theorem ten_pow_toNat {e : ℤ} (h : 0 ≤ e) : ((10 ^ e.toNat : ℕ) : ℚ) = 10 ^ e := by
  obtain ⟨k, rfl⟩ := Int.eq_ofNat_of_zero_le h
  rw [Int.toNat_natCast, zpow_natCast]
  push_cast
  rfl

theorem div_ten_pow_toNat (n : ℕ) {e : ℤ} (h : e < 0) :
    (n / (10 ^ (-e).toNat : ℕ) : ℚ) = n * 10 ^ e := by
  rw [ten_pow_toNat (by omega), zpow_neg, div_inv_eq_mul]

/-- A decimal that is not read by way of floats. One that is far too small is read as zero. -/
theorem near_ofScientific {n : ℕ} {e : ℤ}
    (h : (ofFloat ⟨Float.Model.ofScientific n e⟩).value? = some b) : Near (n * 10 ^ e) b := by
  rw [ofFloat_eq] at h
  change (ofUnpacked
    (Float.Model.pack (UnpackedFloat.ofScientific .binary64 n e)).unpack).value? = some b at h
  have hzero (h : (ofUnpacked (Float.Model.pack (.zero .positive)).unpack).value? = some b) :
      Near (n * 10 ^ e) b :=
    .inl (Option.some.inj (h.symm.trans (value?_pack_zero .positive)))
  have hten (k : ℕ) : 0 < 10 ^ k := Nat.pow_pos (by decide)
  rw [UnpackedFloat.ofScientific] at h
  split_ifs at h with hn hgreat hsmall he
  · exact hzero h
  · cases h
  · exact hzero h
  · have hlow : 0x10000000000000 ≤ n <<< 53 := by
      rw [Nat.shiftLeft_eq]
      omega
    have hrounded := isRounded_mul (-53) 0 (by omega) (hten e.toNat) hlow
    have hvalue := cast_shiftLeft_mul n 53 0
    rw [zpow_zero, mul_one, show (0 : ℤ) - (53 : ℕ) = -53 by decide] at hvalue
    rw [hvalue, zpow_zero, mul_one, ten_pow_toNat he] at hrounded
    exact hrounded.near h
  · have hrounded := isRounded_div 0 0 (Nat.pos_of_ne_zero hn) (hten (-e).toNat)
    rw [zpow_zero, mul_one, mul_one, div_ten_pow_toNat n (by omega)] at hrounded
    exact hrounded.near h

/-- **A decimal is read as a float near to it,** if it is not read as zero. -/
theorem near_scaled {n : ℕ} {e : ℤ} (h : (ofFloat (Numeral.scaled n e)).value? = some b) :
    Near (n * 10 ^ e) b := by
  rw [Numeral.scaled, Float.ofScientific] at h
  by_cases hneg : e < 0
  · obtain ⟨k, hk⟩ := Int.eq_ofNat_of_zero_le (show 0 ≤ -e by omega)
    obtain rfl : e = -k := by omega
    rw [Int.natAbs_neg, Int.natAbs_natCast, decide_eq_true hneg] at h
    rw [zpow_neg, zpow_natCast, ← div_eq_mul_inv]
    split at h
    · next hsmall => exact (isRounded_scaled_of_small hsmall.1 ⟨k, by omega⟩).2.near h
    · have := near_ofScientific (e := -k) h
      rwa [zpow_neg, zpow_natCast, ← div_eq_mul_inv] at this
  · obtain ⟨k, rfl⟩ := Int.eq_ofNat_of_zero_le (Int.not_lt.1 hneg)
    rw [Int.natAbs_natCast, decide_eq_false hneg] at h
    rw [zpow_natCast]
    split at h
    · next hsmall => exact (isRounded_scaled_of_small hsmall.1 ⟨k, by omega⟩).1.near h
    · have := near_ofScientific (e := k) h
      rwa [zpow_natCast] at this

end Binary

end SchemaCanvas
