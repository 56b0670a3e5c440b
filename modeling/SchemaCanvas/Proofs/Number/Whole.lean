import SchemaCanvas.Proofs.Number.Arithmetic
import SchemaCanvas.Proofs.Number.Digits

/-!
# Floats as integers

The integer part of a float is the floor of its magnitude. A float is compared with zero as the
number that it stands for, and a sum of integers below `2 ^ 53` is exact.

* `Binary.whole?_eq_some_iff` : a float stands for an integer;
* `Binary.toIndex_of_value?` : a float as a position;
* `Binary.lt_zero_iff` : a float is below zero;
* `Binary.whole?_add` : a sum of integers.
-/

namespace SchemaCanvas

open Float.Model Float.Model.UnpackedFloat

namespace Binary

variable {m : ℕ} {e : ℤ} {x y : Float} {a : ℚ} {v : Binary} {k : ℤ}

/-! ### The integer part -/

theorem wholePart_natCast (m shift : ℕ) : wholePart m shift = m * 2 ^ shift := by
  rw [wholePart, if_pos (Int.natCast_nonneg _), Int.toNat_natCast, Nat.shiftLeft_eq]

theorem wholePart_neg (m shift : ℕ) : wholePart m (-shift) = m / 2 ^ shift := by
  rw [wholePart, Nat.shiftRight_eq_div_pow, neg_neg, Int.toNat_natCast]
  split
  · obtain rfl : shift = 0 := by omega
    simp
  · rfl

theorem isWhole_natCast (m shift : ℕ) : isWhole m shift := by
  rw [isWhole, decide_eq_true (Int.natCast_nonneg _), Bool.true_or]

theorem isWhole_neg_iff (m shift : ℕ) : isWhole m (-shift) ↔ 2 ^ shift ∣ m := by
  rw [isWhole, Bool.or_eq_true, decide_eq_true_eq, beq_iff_eq, Nat.shiftLeft_eq, Nat.one_mul,
    neg_neg, Int.toNat_natCast, ← Nat.dvd_iff_mod_eq_zero]
  refine or_iff_right_of_imp fun h => ?_
  obtain rfl : shift = 0 := by omega
  exact one_dvd m

theorem mul_two_pow_neg (m shift : ℕ) : (m * 2 ^ (-shift : ℤ) : ℚ) = m / (2 ^ shift : ℕ) := by
  rw [zpow_neg, zpow_natCast, ← div_eq_mul_inv]
  push_cast
  rfl

theorem floor_mul_two_pow (m : ℕ) (e : ℤ) : ⌊(m * 2 ^ e : ℚ)⌋ = wholePart m e := by
  obtain ⟨shift, rfl | rfl⟩ := e.eq_nat_or_neg
  · have hcast : (m * 2 ^ (shift : ℤ) : ℚ) = (m * 2 ^ shift : ℕ) := by
      rw [zpow_natCast]
      push_cast
      rfl
    rw [hcast, wholePart_natCast, Int.floor_natCast]
  · rw [mul_two_pow_neg, wholePart_neg]
    exact Rat.floor_natCast_div_natCast m (2 ^ shift)

/-- A mantissa has no fraction behind it if what it stands for is its integer part. -/
theorem isWhole_iff (m : ℕ) (e : ℤ) : isWhole m e ↔ (m * 2 ^ e : ℚ) = wholePart m e := by
  obtain ⟨shift, rfl | rfl⟩ := e.eq_nat_or_neg
  · refine iff_of_true (isWhole_natCast m shift) ?_
    rw [wholePart_natCast, zpow_natCast]
    push_cast
    rfl
  · have hpow : ((2 ^ shift : ℕ) : ℚ) ≠ 0 := by positivity
    rw [isWhole_neg_iff, mul_two_pow_neg, wholePart_neg, div_eq_iff hpow]
    constructor
    · intro h
      exact_mod_cast (Nat.div_mul_cancel h).symm
    · intro h
      exact ⟨m / 2 ^ shift, by rw [mul_comm]; exact_mod_cast h⟩

/-- **A float stands for an integer if that is its number.** -/
theorem whole?_eq_some_iff : v.whole? = some k ↔ v.value? = some (k : ℚ) := by
  cases v with
  | nan | infinite => exact iff_of_false (by rintro ⟨⟩) (by rintro ⟨⟩)
  | finite negative m e =>
    have hsigned : (signed negative (wholePart m e) : ℚ) = withSign negative (wholePart m e) := by
      cases negative <;> simp [withSign, signed]
    rw [whole?, value?, Option.some_inj]
    split
    · next hwhole =>
      rw [Option.some_inj, (isWhole_iff m e).1 hwhole, ← hsigned, Int.cast_inj]
    · next hwhole =>
      refine iff_of_false (by rintro ⟨⟩) fun hk => hwhole ((isWhole_iff m e).2 ?_)
      -- an integer is its own integer part
      have hint : (m * 2 ^ e : ℚ) = (signed negative 1 * k : ℤ) := by
        cases negative <;> simp [withSign, signed] at hk ⊢ <;> linarith
      have hfloor := floor_mul_two_pow m e
      rw [hint, Int.floor_intCast] at hfloor
      rw [hint, hfloor, Int.cast_natCast]

/-! ### Infinities and what is no number -/

theorem unpack_of_infinite {negative : Bool} (h : ofFloat x = infinite negative) :
    ∃ s, x.toModel.unpack = .infinity s ∧ isNegative s = negative := by
  rw [ofFloat_eq] at h
  cases hunpack : x.toModel.unpack with
  | infinity s =>
    rw [hunpack] at h
    cases h
    exact ⟨s, rfl, rfl⟩
  | notANumber | zero | finite => rw [hunpack] at h; cases h

theorem isNaN_iff : x.isNaN ↔ ofFloat x = nan := by
  change x.toModel.unpack.isNaN = true ↔ _
  rw [ofFloat_eq]
  cases x.toModel.unpack <;> simp [UnpackedFloat.isNaN, ofUnpacked]

theorem not_isNaN (h : (ofFloat x).value? = some a) : ¬ x.isNaN := by
  rw [isNaN_iff]
  intro hx
  rw [hx] at h
  cases h

theorem ofFloat_add_of_infinite {negative : Bool} (hx : (ofFloat x).value? = some a)
    (hy : ofFloat y = infinite negative) : ofFloat (x + y) = infinite negative := by
  obtain ⟨s, hs, rfl⟩ := unpack_of_infinite hy
  rw [ofFloat_eq]
  change ofUnpacked
    (Float.Model.pack (UnpackedFloat.add .binary64 x.toModel.unpack y.toModel.unpack)).unpack = _
  have hadd : UnpackedFloat.add .binary64 x.toModel.unpack y.toModel.unpack = .infinity s := by
    obtain ⟨s', hs', -⟩ | ⟨s', m, e, hpos, hs', -⟩ := unpack_of_value? hx <;> rw [hs, hs'] <;> rfl
  have hunpack : (Float.Model.pack (.infinity s)).unpack = .infinity s := by cases s <;> rfl
  rw [hadd, hunpack, ofUnpacked]

/-! ### Comparison with zero -/

theorem lt_zero_iff_lt : x < 0 ↔ UnpackedFloat.lt x.toModel.unpack (.zero .positive) = true := by
  change Float.lt x 0 = true ↔ _
  rw [Float.lt, decide_eq_true_eq]
  rfl

/-- **A float is below zero as the number for which it stands.** -/
theorem lt_zero_iff (h : (ofFloat x).value? = some a) : x < 0 ↔ a < 0 := by
  rw [lt_zero_iff_lt]
  obtain ⟨s, hs, rfl⟩ | ⟨s, m, e, hpos, hs, -, rfl⟩ := unpack_of_value? h
  · rw [hs]
    simp [UnpackedFloat.lt, UnpackedFloat.compare]
  · have hm : (0 : ℚ) < m * 2 ^ e := by positivity
    rw [hs]
    cases s <;> simp [UnpackedFloat.lt, UnpackedFloat.compare, withSign, isNegative, hm, hm.le]

theorem lt_zero_iff_of_infinite {negative : Bool} (h : ofFloat x = infinite negative) :
    x < 0 ↔ negative := by
  obtain ⟨s, hs, rfl⟩ := unpack_of_infinite h
  rw [lt_zero_iff_lt, hs]
  cases s <;> simp [UnpackedFloat.lt, UnpackedFloat.compare, isNegative]

theorem zero_le_iff (h : (ofFloat x).value? = some a) : 0 ≤ x ↔ 0 ≤ a := by
  have hle : 0 ≤ x ↔ UnpackedFloat.le (.zero .positive) x.toModel.unpack = true := by
    change Float.le 0 x = true ↔ _
    rw [Float.le, decide_eq_true_eq]
    rfl
  rw [hle]
  obtain ⟨s, hs, rfl⟩ | ⟨s, m, e, hpos, hs, -, rfl⟩ := unpack_of_value? h
  · rw [hs]
    simp [UnpackedFloat.le, UnpackedFloat.compare]
  · have hm : (0 : ℚ) < m * 2 ^ e := by positivity
    rw [hs]
    cases s <;> simp [UnpackedFloat.le, UnpackedFloat.compare, withSign, isNegative, hm, hm.le]

/-! ### Positions -/

/-- **A position is the integer part, cut to 64 bits,** and zero for negative numbers. -/
theorem toIndex_of_value? (h : (ofFloat x).value? = some a) :
    toIndex x = (min ⌊a⌋ Word.maxUnsigned).toNat := by
  rw [toIndex]
  cases hx : ofFloat x with
  | nan | infinite => rw [hx] at h; cases h
  | finite negative m e =>
    rw [hx] at h
    cases h
    cases negative with
    | false =>
      rw [withSign, if_neg (by decide), floor_mul_two_pow, clamp, signed, if_neg (by decide)]
      rw [Word.maxUnsigned]
      omega
    | true =>
      have hneg : ⌊-(m * 2 ^ e : ℚ)⌋ ≤ 0 := Int.floor_nonpos (by
        rw [neg_nonpos]
        positivity)
      rw [withSign, if_pos rfl, clamp, signed, if_pos rfl]
      rw [Word.maxUnsigned]
      omega

theorem toIndex_of_infinite {negative : Bool} (h : ofFloat x = infinite negative) :
    toIndex x = if negative then 0 else 18446744073709551615 := by
  rw [toIndex, h]
  cases negative <;> rfl

/-! ### Natural numbers -/

theorem value?_ofNat {n : ℕ} (h : n < 2 ^ 53) :
    (ofFloat (Float.ofNat n)).value? = some (n : ℚ) := by
  have := whole?_eq_some_iff.1 (whole?_ofNat h)
  exact_mod_cast this

/-- A sum of integers is exact if it is below `2 ^ 53`. -/
theorem whole?_add {i j : ℤ} (hx : (ofFloat x).whole? = some i) (hy : (ofFloat y).whole? = some j)
    (h : |i + j| < 2 ^ 53) : (ofFloat (x + y)).whole? = some (i + j) := by
  have habs : |((i + j : ℤ) : ℚ)| < 2 ^ 53 := by exact_mod_cast h
  have hsum := isRounded_add (whole?_eq_some_iff.1 hx) (whole?_eq_some_iff.1 hy)
  rw [← Int.cast_add] at hsum
  obtain ⟨c, hc, hrounds⟩ := hsum.exists_of_lt habs
  rw [whole?_eq_some_iff, hc, hrounds.eq_intCast habs]

end Binary

end SchemaCanvas
