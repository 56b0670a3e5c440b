import SchemaCanvas.Proofs.Number.Nearest

/-!
# Sums, products and quotients of floats

The bits of a float hold a mantissa of at most 53 bits, so a float is its own rounded number. The
model computes a sum, a product or a quotient exactly, as a mantissa with an exponent and what is
known of the fraction behind it, and rounds it once.

* `Binary.RoundsTo.of_value?` : a float is its own rounded number;
* `Binary.isRounded_add` : a sum stands for the rounded sum;
* `Binary.isRounded_mul`, `Binary.isRounded_div` : the same of products and quotients of positive
  floats.
-/

namespace SchemaCanvas

open Float.Model Float.Model.UnpackedFloat

namespace Binary

variable {m m' : ℕ} {e e' : ℤ} {x y : Float} {a b : ℚ}

/-! ### Finite floats -/

theorem canonical_of_ofFloat {negative : Bool} (h : ofFloat x = finite negative m e) :
    Canonical m e := by
  unfold ofFloat at h
  dsimp only at h
  have hmod := Nat.mod_lt x.toBits.toNat (show 0 < 0x10000000000000 by decide)
  split at h
  · split at h <;> cases h
  · split at h
    · cases h
      exact ⟨by omega, by decide, .inl rfl⟩
    · cases h
      exact ⟨by omega, by omega, .inr (by omega)⟩

theorem RoundsTo.of_value? (h : (ofFloat x).value? = some a) : RoundsTo a a := by
  cases hx : ofFloat x with
  | nan | infinite => rw [hx] at h; cases h
  | finite negative m e =>
    rw [hx] at h
    cases h
    obtain ⟨-, -, hm⟩ := canonical_of_ofFloat hx
    refine RoundsTo.withSign ⟨e, m, by push_cast; rfl, ?_, ?_⟩ negative
    · rw [sub_self, abs_zero]
      positivity
    · refine hm.imp_right fun hm => ?_
      have hm : (2 : ℚ) ^ (52 : ℤ) ≤ m := by exact_mod_cast hm
      rw [zpow_add₀ (by norm_num), mul_comm, abs_of_nonneg (by positivity)]
      exact mul_le_mul_of_nonneg_right hm (by positivity)

theorem unpack_of_value? (h : (ofFloat x).value? = some a) :
    (∃ s, x.toModel.unpack = .zero s ∧ a = 0) ∨
      ∃ s m e hpos, x.toModel.unpack = .finite s m e hpos ∧ Canonical m e ∧
        a = withSign (isNegative s) (m * 2 ^ e) := by
  have hx := ofFloat_eq x
  cases hunpack : x.toModel.unpack with
  | notANumber | infinity => rw [hx, hunpack] at h; cases h
  | zero s =>
    rw [hx, hunpack] at h
    refine .inl ⟨s, rfl, ?_⟩
    cases h
    cases s <;> simp [withSign, isNegative]
  | finite s m e hpos =>
    rw [hunpack] at hx
    rw [hx] at h
    exact .inr ⟨s, m, e, hpos, rfl, canonical_of_ofFloat hx, (Option.some.inj h).symm⟩

theorem pack_unpack_toModel (x : Float) : Float.Model.pack x.toModel.unpack = x.toModel := by
  obtain ⟨⟨⟨bits⟩, valid⟩⟩ := x
  exact (Float.Model.mk.injEq ..).mpr (congrArg UInt64.ofBitVec (pack_unpack_of_valid valid))

/-! ### Negatives -/

theorem unpack_neg (x : Float) : (-x).toModel.unpack = x.toModel.unpack.neg := by
  change (Float.Model.pack x.toModel.unpack.neg).unpack = _
  have hx := ofFloat_eq x
  have hpack := congrArg Float.Model.unpack (pack_unpack_toModel x)
  cases hunpack : x.toModel.unpack with
  | notANumber => rfl
  | infinity s | zero s => cases s <;> rfl
  | finite s m e hpos =>
    rw [hunpack] at hx hpack
    have hcanonical := canonical_of_ofFloat hx
    have hle : ¬ 971 < e := by
      intro hlt
      rw [unpack_pack_canonical hpos hcanonical, if_pos hlt] at hpack
      cases hpack
    rw [UnpackedFloat.neg, unpack_pack_canonical hpos hcanonical, if_neg hle]

theorem value?_neg (x : Float) : (ofFloat (-x)).value? = (ofFloat x).value?.map (- ·) := by
  have hsign (s : Sign) : isNegative (-s) = !isNegative s := by cases s <;> rfl
  rw [ofFloat_eq, unpack_neg, ofFloat_eq]
  cases x.toModel.unpack with
  | notANumber | infinity => rfl
  | zero s => simp [UnpackedFloat.neg, ofUnpacked, value?, withSign]
  | finite s m e hpos =>
    rw [UnpackedFloat.neg, ofUnpacked, ofUnpacked, value?, value?, hsign, withSign, withSign]
    cases isNegative s <;> simp

/-! ### Sums -/

/-- Zeros behind a mantissa make up for a smaller exponent. -/
theorem cast_shiftLeft_mul (m shift : ℕ) (e : ℤ) :
    ((m <<< shift : ℕ) : ℚ) * 2 ^ (e - shift) = m * 2 ^ e := by
  rw [Nat.shiftLeft_eq, zpow_sub₀ (by norm_num), zpow_natCast]
  push_cast
  field_simp

/-- A mantissa that is not zero is rounded, however many bits it has. -/
theorem isRounded_round (s : Sign) (hm : m ≠ 0) (e : ℤ) :
    IsRounded (withSign (isNegative s) (m * 2 ^ e))
      (ofUnpacked (Float.Model.pack (UnpackedFloat.round .binary64 s m e)).unpack) := by
  have hplace : Format.binary64.targetExponent (totalExponent m e) = lastPlace m e :=
    targetExponent_eq m e
  rw [UnpackedFloat.round, hplace, decreaseExponent]
  dsimp only
  generalize hshift : (e - lastPlace m e).toNat = shift
  have hlast : lastPlace (m <<< shift) (e - shift) = lastPlace m e := by
    rw [lastPlace, lastPlace, Nat.shiftLeft_eq, log2_mul_two_pow hm]
    omega
  rw [← cast_shiftLeft_mul m shift e]
  exact isRounded_roundWithAccuracy s rfl (by omega)

theorem value?_pack_zero (s : Sign) :
    (ofUnpacked (Float.Model.pack (.zero s)).unpack).value? = some 0 := by
  have hunpack : (Float.Model.pack (.zero s)).unpack = .zero s := by cases s <;> rfl
  rw [hunpack]
  cases s <;> simp [ofUnpacked, value?, withSign]

theorem isRounded_zero (s : Sign) :
    IsRounded 0 (ofUnpacked (Float.Model.pack (.zero s)).unpack) :=
  .inl ⟨0, value?_pack_zero s, RoundsTo.zero⟩

theorem isRounded_normalize (n e : ℤ) (s : Sign) :
    IsRounded (n * 2 ^ e)
      (ofUnpacked (Float.Model.pack (UnpackedFloat.normalize .binary64 n e s)).unpack) := by
  rw [UnpackedFloat.normalize]
  cases n with
  | ofNat n =>
    by_cases hn : n = 0
    · subst hn
      simpa using isRounded_zero s
    · rw [Int.compare_eq_gt.2 (by simp only [Int.ofNat_eq_natCast]; omega)]
      exact isRounded_round .positive hn e
  | negSucc n =>
    rw [Int.compare_eq_lt.2 (Int.negSucc_lt_zero n), Int.cast_negSucc, neg_mul]
    exact isRounded_round .negative (Nat.succ_ne_zero n) e

theorem apply_decreaseExponent (s : Sign) (m : ℕ) {e low : ℤ} (h : low ≤ e) :
    (s.apply ((decreaseExponent m e low).1 : ℤ) : ℚ) * 2 ^ low =
      withSign (isNegative s) (m * 2 ^ e) := by
  have hlow : low = e - (e - low).toNat := by omega
  have hvalue := cast_shiftLeft_mul m (e - low).toNat e
  rw [← hlow] at hvalue
  rw [decreaseExponent, ← hvalue]
  cases s with
  | positive => rfl
  | negative =>
    change ((-((m <<< (e - low).toNat : ℕ) : ℤ) : ℤ) : ℚ) * 2 ^ low = -_
    rw [Int.cast_neg, Int.cast_natCast, neg_mul]

/-- **A sum stands for the rounded sum.** -/
theorem isRounded_add (hx : (ofFloat x).value? = some a) (hy : (ofFloat y).value? = some b) :
    IsRounded (a + b) (ofFloat (x + y)) := by
  have hself {z : Float} {c : ℚ} (h : (ofFloat z).value? = some c) :
      IsRounded c (ofUnpacked (Float.Model.pack z.toModel.unpack).unpack) := by
    rw [pack_unpack_toModel, ← ofFloat_eq]
    exact .inl ⟨c, h, RoundsTo.of_value? h⟩
  rw [ofFloat_eq]
  change IsRounded _ (ofUnpacked
    (Float.Model.pack (UnpackedFloat.add .binary64 x.toModel.unpack y.toModel.unpack)).unpack)
  obtain ⟨s, hs, rfl⟩ | ⟨s, m, e, hpos, hs, -, ha⟩ := unpack_of_value? hx
  · obtain ⟨s', hs', rfl⟩ | ⟨s', m', e', hpos', hs', -, hb⟩ := unpack_of_value? hy
    · rw [hs, hs', add_zero]
      cases s <;> cases s' <;> exact isRounded_zero _
    · have := hself hy
      rw [hs'] at this
      rw [hs, hs', zero_add]
      exact this
  · obtain ⟨s', hs', rfl⟩ | ⟨s', m', e', hpos', hs', -, hb⟩ := unpack_of_value? hy
    · have := hself hx
      rw [hs] at this
      rw [hs, hs', add_zero]
      exact this
    · rw [hs, hs', ha, hb, ← apply_decreaseExponent s m (min_le_left e e'),
        ← apply_decreaseExponent s' m' (min_le_right e e'), ← add_mul, ← Int.cast_add]
      exact isRounded_normalize _ _ _

/-! ### Products and quotients -/

theorem isRounded_mul (e e' : ℤ) (hpos : 0 < m) (hpos' : 0 < m') (hm : 0x10000000000000 ≤ m) :
    IsRounded (m * 2 ^ e * (m' * 2 ^ e')) (ofUnpacked (Float.Model.pack (UnpackedFloat.mul .binary64
      (.finite .positive m e hpos) (.finite .positive m' e' hpos'))).unpack) := by
  have hwide : 52 ≤ (m * m').log2 := by
    rw [Nat.le_log2 (Nat.mul_pos hpos hpos').ne']
    exact hm.trans (Nat.le_mul_of_pos_right m hpos')
  have hvalue : (m * 2 ^ e * (m' * 2 ^ e') : ℚ) = (m * m' : ℕ) * 2 ^ (e + e') := by
    rw [zpow_add₀ (by norm_num)]
    push_cast
    ring
  rw [mul_finite, hvalue]
  refine isRounded_roundWithAccuracy .positive rfl ?_
  rw [lastPlace]
  omega

/-- The fraction that a division leaves. -/
theorem extends_div (n : ℕ) {d : ℕ} (hd : 0 < d) :
    Extends (n / d) (accuracyOfFraction (n % d) d) ((n : ℚ) / d) := by
  have hd' : (0 : ℚ) < d := by exact_mod_cast hd
  have hn : (n : ℚ) = d * (n / d : ℕ) + (n % d : ℕ) := by exact_mod_cast (Nat.div_add_mod n d).symm
  have hlt : ((n % d : ℕ) : ℚ) < d := by exact_mod_cast Nat.mod_lt n hd
  generalize n % d = r at *
  generalize n / d = q at *
  rw [accuracyOfFraction]
  split
  · next hzero =>
    subst hzero
    rw [Extends, hn]
    field_simp
    simp
  · next hzero =>
    have hr : (0 : ℚ) < r := by exact_mod_cast Nat.pos_of_ne_zero hzero
    rcases lt_trichotomy (2 * r) d with h | h | h
    · rw [Nat.compare_eq_lt.2 h]
      have h : (2 * r : ℚ) < d := by exact_mod_cast h
      constructor
      · rw [lt_div_iff₀ hd', hn]; linarith
      · rw [div_lt_iff₀ hd', hn]; linarith
    · rw [Nat.compare_eq_eq.2 h]
      have h : (2 * r : ℚ) = d := by exact_mod_cast h
      rw [Extends, div_eq_iff hd'.ne', hn]; linarith
    · rw [Nat.compare_eq_gt.2 h]
      have h : (d : ℚ) < 2 * r := by exact_mod_cast h
      constructor
      · rw [lt_div_iff₀ hd', hn]; linarith
      · rw [div_lt_iff₀ hd', hn]; linarith

/-- A dividend is shifted until its quotient has 53 bits, or ends below the least place. -/
theorem log2_div_two_pow (hpos : 0 < m) (hpos' : 0 < m') {shift : ℕ}
    (h : m'.log2 + 53 ≤ m.log2 + shift) : 52 ≤ (m <<< shift / m').log2 := by
  have hlow : 2 ^ m.log2 ≤ m := Nat.log2_self_le hpos.ne'
  have hhigh : m' < 2 ^ (m'.log2 + 1) := Nat.lt_log2_self
  have hdiv : 2 ^ 52 ≤ m <<< shift / m' := by
    rw [Nat.le_div_iff_mul_le hpos', Nat.shiftLeft_eq]
    calc 2 ^ 52 * m' ≤ 2 ^ 52 * 2 ^ (m'.log2 + 1) := Nat.mul_le_mul_left _ hhigh.le
      _ = 2 ^ (m'.log2 + 53) := by rw [← Nat.pow_add]; congr 1; omega
      _ ≤ 2 ^ (m.log2 + shift) := Nat.pow_le_pow_right (by decide) h
      _ = 2 ^ m.log2 * 2 ^ shift := Nat.pow_add ..
      _ ≤ m * 2 ^ shift := Nat.mul_le_mul_right _ hlow
  exact (Nat.le_log2 (by omega)).2 hdiv

theorem isRounded_div (e e' : ℤ) (hpos : 0 < m) (hpos' : 0 < m') :
    IsRounded (m * 2 ^ e / (m' * 2 ^ e')) (ofUnpacked (Float.Model.pack (UnpackedFloat.div .binary64
      (.finite .positive m e hpos) (.finite .positive m' e' hpos'))).unpack) := by
  have htarget : Format.binary64.targetExponent (totalExponent m e - totalExponent m' e') =
      max ((m.log2 : ℤ) + e - (m'.log2 + e') - 53) (-1074) := by
    simp only [Format.targetExponent, totalExponent, Format.mantissaBits, Format.minExponent]
    omega
  rw [UnpackedFloat.div, divCore, htarget]
  dsimp only
  generalize hlow : min (e - e') (max ((m.log2 : ℤ) + e - (m'.log2 + e') - 53) (-1074)) = low
  generalize hshift : (e - e' - low).toNat = shift
  have hexponent : low = e - shift - e' := by omega
  have hvalue : (m * 2 ^ e / (m' * 2 ^ e') : ℚ) = (m <<< shift : ℕ) / m' * 2 ^ low := by
    rw [← cast_shiftLeft_mul m shift e, hexponent, zpow_sub₀ (by norm_num) (e - shift)]
    field_simp
  rw [hvalue]
  refine isRounded_roundWithAccuracy .positive (extends_div _ hpos') ?_
  -- the quotient ends at or below the least place, or it has 53 bits
  by_cases hleast : low ≤ -1074
  · exact hleast.trans (le_max_right _ _)
  · have hwide : m'.log2 + 53 ≤ m.log2 + shift := by omega
    have := log2_div_two_pow hpos hpos' hwide
    rw [lastPlace]
    omega

end Binary

end SchemaCanvas
