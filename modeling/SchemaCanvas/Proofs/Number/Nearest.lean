import SchemaCanvas.Proofs.Number.Rounding
import Mathlib

/-!
# Rounding to the nearest float

A finite float stands for a rational number. The model of floats rounds a mantissa of which it may
know only what kind of fraction follows; the mantissa keeps its first 53 bits, or fewer where these
would end below the least power of two, and goes to the nearest of the two neighbours.

* `Binary.value?` : the number that a float stands for;
* `Binary.RoundsTo` : a number and what it is rounded to, with the bounds `RoundsTo.le_of_le` and
  `RoundsTo.near` that all later results are read off;
* `Binary.isRounded_roundWithAccuracy` : what is rounded and packed is a float of the rounded
  number, or an infinity in place of a number that is too great.
-/

namespace SchemaCanvas

open Float.Model Float.Model.UnpackedFloat

namespace Binary

/-- A number with the given sign. -/
def withSign (negative : Bool) (x : ℚ) : ℚ := if negative then -x else x

/-- The number that a finite value stands for. -/
def value? : Binary → Option ℚ
  | finite negative m e => some (withSign negative (m * 2 ^ e))
  | _ => none

/-! ### Rounded numbers -/

/-- `y` is `x` rounded to a multiple of a power of two: of the least one, or of one that is so small
that `x` has 53 bits. -/
def RoundsTo (x y : ℚ) : Prop :=
  ∃ place n : ℤ, y = n * 2 ^ place ∧ |x - y| ≤ 2 ^ place / 2 ∧
    (place = -1074 ∨ 2 ^ (place + 52) ≤ |x|)

namespace RoundsTo

variable {x y : ℚ}

theorem zero : RoundsTo 0 0 := ⟨-1074, 0, by simp, by rw [sub_zero, abs_zero]; positivity, .inl rfl⟩

theorem neg (h : RoundsTo x y) : RoundsTo (-x) (-y) := by
  obtain ⟨place, n, rfl, herror, hplace⟩ := h
  refine ⟨place, -n, by push_cast; ring, ?_, by rwa [abs_neg]⟩
  rwa [← neg_sub', abs_neg]

/-- What is nearest to a number lies on the same side of every multiple of the same unit. -/
theorem le_of_mul_le {unit : ℚ} (hunit : 0 < unit) {k n : ℤ} (hk : k * unit ≤ x)
    (herror : |x - n * unit| ≤ unit / 2) : k ≤ n := by
  have hbelow : k * unit ≤ (n + 1 / 2) * unit := by
    have := (abs_le.1 herror).2
    linarith
  have hle := le_of_mul_le_mul_right hbelow hunit
  have hlt : (k : ℚ) < ((n + 1 : ℤ) : ℚ) := by
    push_cast
    linarith
  exact Int.lt_add_one_iff.1 (Int.cast_lt.1 hlt)

theorem nonneg (h : RoundsTo x y) (hx : 0 ≤ x) : 0 ≤ y := by
  obtain ⟨place, n, rfl, herror, -⟩ := h
  have hunit : (0 : ℚ) < 2 ^ place := by positivity
  have hn : 0 ≤ n := le_of_mul_le hunit (by simpa using hx) herror
  exact mul_nonneg (by exact_mod_cast hn) hunit.le

theorem le_of_le (h : RoundsTo x y) (hx : |x| < 2 ^ 53) {k : ℤ} (hk : k ≤ x) : k ≤ y := by
  obtain ⟨place, n, rfl, herror, hplace⟩ := h
  have hle : place ≤ 0 := by
    rcases hplace with rfl | hlow
    · decide
    · have hlt : (2 : ℚ) ^ (place + 52) < 2 ^ (53 : ℤ) := hlow.trans_lt (by exact_mod_cast hx)
      have := (zpow_lt_zpow_iff_right₀ (by norm_num : (1 : ℚ) < 2)).1 hlt
      omega
  have hunit : (0 : ℚ) < 2 ^ place := by positivity
  -- the bound is a multiple of the same power of two
  obtain ⟨shift, hshift⟩ := Int.eq_ofNat_of_zero_le (Int.neg_nonneg_of_nonpos hle)
  have hmultiple : (k : ℚ) = (k * 2 ^ shift : ℤ) * 2 ^ place := by
    have hone : (2 : ℚ) ^ shift * 2 ^ place = 1 := by
      rw [← zpow_natCast, ← hshift, ← zpow_add₀ (by norm_num), neg_add_cancel, zpow_zero]
    push_cast
    rw [mul_assoc, hone, mul_one]
  rw [hmultiple] at hk ⊢
  have hint := le_of_mul_le hunit hk herror
  exact mul_le_mul_of_nonneg_right (by exact_mod_cast hint) hunit.le

theorem le_of_ge (h : RoundsTo x y) (hx : |x| < 2 ^ 53) {k : ℤ} (hk : x ≤ k) : y ≤ k := by
  have := h.neg.le_of_le (by rwa [abs_neg]) (k := -k) (by push_cast; linarith)
  push_cast at this
  linarith

theorem eq_intCast {k : ℤ} (h : RoundsTo k y) (hk : |(k : ℚ)| < 2 ^ 53) : y = k :=
  le_antisymm (h.le_of_ge hk le_rfl) (h.le_of_le hk le_rfl)

/-- What is not rounded to zero is changed by half of the result at most. -/
theorem near (h : RoundsTo x y) (hy : y ≠ 0) : |y| ≤ 2 * |x| ∧ 2 * |x| ≤ 3 * |y| := by
  obtain ⟨place, n, rfl, herror, -⟩ := h
  have hunit : (0 : ℚ) < 2 ^ place := by positivity
  have hn : (1 : ℚ) ≤ |(n : ℚ)| := by
    have hzero : n ≠ 0 := by
      rintro rfl
      simp at hy
    exact_mod_cast Int.one_le_abs hzero
  have hleast : (2 : ℚ) ^ place ≤ |(n : ℚ) * 2 ^ place| := by
    rw [abs_mul, abs_of_pos hunit]
    exact le_mul_of_one_le_left hunit.le hn
  have hdiff := abs_sub_abs_le_abs_sub x ((n : ℚ) * 2 ^ place)
  have hdiff' := abs_sub_abs_le_abs_sub ((n : ℚ) * 2 ^ place) x
  rw [abs_sub_comm] at hdiff'
  constructor <;> linarith

end RoundsTo

/-! ### Mantissas with what was cut off -/

/-- A mantissa and what is known of its fraction fit a number. -/
def Extends (m : ℕ) : Accuracy → ℚ → Prop
  | .exact, x => x = m
  | .inexact .lt, x => m < x ∧ x < m + 1 / 2
  | .inexact .eq, x => x = m + 1 / 2
  | .inexact .gt, x => m + 1 / 2 < x ∧ x < m + 1

theorem extends_shiftRightOne {em : ExtendedMantissa} {x : ℚ}
    (h : Extends em.mantissa em.accuracy x) :
    Extends em.shiftRightOne.mantissa em.shiftRightOne.accuracy (x / 2) := by
  obtain ⟨m, r, s⟩ := em
  have hm : (m : ℚ) = 2 * (m / 2 : ℕ) + (m % 2 : ℕ) := by exact_mod_cast (Nat.div_add_mod m 2).symm
  rcases Nat.mod_two_eq_zero_or_one m with hbit | hbit <;> rw [hbit] at hm <;>
    cases r <;> cases s <;>
    simp only [ExtendedMantissa.shiftRightOne, ExtendedMantissa.accuracy, Extends, hbit] at h ⊢ <;>
    simp <;> grind

theorem extends_shiftRight {em : ExtendedMantissa} {x : ℚ} (h : Extends em.mantissa em.accuracy x)
    (shift : ℕ) : Extends (em >>> shift).mantissa (em >>> shift).accuracy (x / 2 ^ shift) := by
  induction shift with
  | zero => rwa [pow_zero, div_one]
  | succ shift ih =>
    rw [pow_succ, ← div_div]
    exact extends_shiftRightOne ih

theorem abs_sub_roundedMantissa_le {em : ExtendedMantissa} {x : ℚ}
    (h : Extends em.mantissa em.accuracy x) : |x - em.roundedMantissa| ≤ 1 / 2 := by
  rw [ExtendedMantissa.roundedMantissa]
  have hparity : (em.mantissa % 2 : ℕ) = (0 : ℚ) ∨ (em.mantissa % 2 : ℕ) = (1 : ℚ) := by
    exact_mod_cast Nat.mod_two_eq_zero_or_one em.mantissa
  rw [abs_le]
  cases hacc : em.accuracy with
  | exact =>
    rw [hacc] at h
    simp only [Extends] at h
    simp [Accuracy.roundToNearestEven, h]
  | inexact order =>
    rw [hacc] at h
    cases order <;> simp only [Extends, Accuracy.roundToNearestEven] at h ⊢ <;> push_cast <;> grind

theorem extends_ofMantissaAndAccuracy {m : ℕ} {accuracy : Accuracy} {x : ℚ}
    (h : Extends m accuracy x) :
    Extends (ExtendedMantissa.ofMantissaAndAccuracy m accuracy).mantissa
      (ExtendedMantissa.ofMantissaAndAccuracy m accuracy).accuracy x := by
  cases accuracy with
  | exact => exact h
  | inexact order => cases order <;> exact h

theorem mantissa_ofMantissaAndAccuracy (m : ℕ) (accuracy : Accuracy) :
    (ExtendedMantissa.ofMantissaAndAccuracy m accuracy).mantissa = m := by
  cases accuracy with
  | exact => rfl
  | inexact order => cases order <;> rfl

/-! ### Packing -/

/-- A mantissa and an exponent as they stand in the bits of a float, whose exponent may be too
great. -/
def Canonical (m : ℕ) (e : ℤ) : Prop :=
  m < 0x20000000000000 ∧ -1074 ≤ e ∧ (e = -1074 ∨ 0x10000000000000 ≤ m)

theorem pack_finite (s : Sign) {m : ℕ} (e : ℤ) (hpos : 0 < m) :
    UnpackedFloat.pack .binary64 (.finite s m e hpos) =
      if 2048 ≤ (e + 1023 + 52).toNat + 1 then packedInfinity .binary64 s
      else if m.log2 + 1 = 53 then
        packComponents .binary64 s (BitVec.ofNat 11 (e + 1023 + 52).toNat) (BitVec.ofNat 52 m)
      else packComponents .binary64 s 0#11 (BitVec.ofNat 52 m) := rfl

theorem unpack_pack_small {s : Sign} {m : ℕ} (hpos : 0 < m) (hm : m < 0x10000000000000) :
    (Float.Model.pack (.finite s m (-1074) hpos)).unpack = .finite s m (-1074) hpos := by
  have hlog : m.log2 < 52 := (Nat.log2_lt hpos.ne').2 hm
  have hmantissa : (BitVec.ofNat 52 m).toNat = m := by
    rw [BitVec.toNat_ofNat]
    omega
  change UnpackedFloat.unpack .binary64 (UnpackedFloat.pack .binary64 _) = _
  rw [pack_finite, if_neg (by decide), if_neg (by omega), UnpackedFloat.unpack]
  simp only [unpackExponent_packComponents, unpackMantissa_packComponents,
    unpackSign_packComponents, Sign.ofBitVec_toBitVec]
  rw [if_neg (by decide), if_pos trivial, dif_neg]
  · simp only [hmantissa]
    congr 1
  · intro h
    have := hmantissa.symm.trans (congrArg BitVec.toNat h)
    change m = 0 at this
    omega

theorem unpack_pack_great {s : Sign} {m : ℕ} {e : ℤ} (hpos : 0 < m) (he : 971 < e) :
    (Float.Model.pack (.finite s m e hpos)).unpack = .infinity s := by
  change UnpackedFloat.unpack .binary64 (UnpackedFloat.pack .binary64 _) = _
  rw [pack_finite, if_pos (by omega)]
  cases s <;> rfl

theorem unpack_pack_canonical {s : Sign} {m : ℕ} {e : ℤ} (hpos : 0 < m) (h : Canonical m e) :
    (Float.Model.pack (.finite s m e hpos)).unpack =
      if 971 < e then .infinity s else .finite s m e hpos := by
  obtain ⟨hm, he, hsmall⟩ := h
  split
  · next hgreat => exact unpack_pack_great hpos hgreat
  · by_cases hwide : 0x10000000000000 ≤ m
    · exact unpack_pack hpos ⟨hwide, hm, he, by omega⟩
    · obtain rfl := hsmall.resolve_right hwide
      exact unpack_pack_small hpos (by omega)

/-! ### Rounding -/

/-- A float of a rounded number, or an infinity for a number that is too great. -/
def IsRounded (x : ℚ) (b : Binary) : Prop :=
  (∃ y, b.value? = some y ∧ RoundsTo x y) ∨ b = infinite (x < 0) ∧ 2 ^ (1023 : ℤ) ≤ |x|

/-- What is below `2 ^ 53` is not too great. -/
theorem IsRounded.exists_of_lt {x : ℚ} {v : Binary} (h : IsRounded x v) (hx : |x| < 2 ^ 53) :
    ∃ y, v.value? = some y ∧ RoundsTo x y := by
  refine h.resolve_right fun ⟨_, hgreat⟩ => ?_
  have hpow : (2 : ℚ) ^ (53 : ℕ) ≤ 2 ^ (1023 : ℤ) := by
    rw [← zpow_natCast]
    exact zpow_le_zpow_right₀ (by norm_num) (by decide)
  exact (hpow.trans hgreat).not_gt hx

/-- The place of the last bit that is kept of a mantissa. -/
def lastPlace (m : ℕ) (e : ℤ) : ℤ := max (m.log2 + e - 52) (-1074)

variable {s : Sign} {m : ℕ} {e : ℤ} {accuracy : Accuracy} {x : ℚ}

theorem shiftToTargetExponent_eq_lastPlace (h : e ≤ lastPlace m e) (accuracy : Accuracy) :
    shiftToTargetExponent .binary64 m e accuracy =
      (ExtendedMantissa.ofMantissaAndAccuracy m accuracy >>> (lastPlace m e - e).toNat,
        lastPlace m e) := by
  rw [shiftToTargetExponent, targetExponent_eq, shiftToExponent]
  refine Prod.ext rfl ?_
  change e + ((lastPlace m e - e).toNat : ℤ) = _
  omega

theorem div_two_pow_lt (h : e ≤ lastPlace m e) :
    m / 2 ^ (lastPlace m e - e).toNat < 0x20000000000000 := by
  have hlog : m.log2 + 1 ≤ 53 + (lastPlace m e - e).toNat := by
    rw [lastPlace] at h ⊢
    omega
  rw [Nat.div_lt_iff_lt_mul (Nat.two_pow_pos _), show 0x20000000000000 = 2 ^ 53 by decide,
    ← Nat.pow_add]
  exact Nat.lt_log2_self.trans_le (Nat.pow_le_pow_right (by decide) hlog)

/-- The bits that are kept of a mantissa are 53, unless they end at the least place. -/
theorem lastPlace_eq_or (h : e ≤ lastPlace m e) : lastPlace m e = -1074 ∨
    0x10000000000000 ≤ m / 2 ^ (lastPlace m e - e).toNat := by
  by_cases hleast : lastPlace m e = -1074
  · exact .inl hleast
  · refine .inr ?_
    have hlog : 52 + (lastPlace m e - e).toNat = m.log2 := by
      rw [lastPlace] at h hleast ⊢
      omega
    have hm : m ≠ 0 := by
      rintro rfl
      rw [show (0 : ℕ).log2 = 0 by decide] at hlog
      omega
    rw [Nat.le_div_iff_mul_le (Nat.two_pow_pos _), show 0x10000000000000 = 2 ^ 52 by decide,
      ← Nat.pow_add, hlog]
    exact Nat.log2_self_le hm

theorem roundWithAccuracy_eq_zero {em : ExtendedMantissa} {place : ℤ}
    (hfirst : shiftToTargetExponent .binary64 m e accuracy = (em, place)) (hplace : -1074 ≤ place)
    (hzero : em.roundedMantissa = 0) : roundWithAccuracy .binary64 s m e accuracy = .zero s := by
  rw [roundWithAccuracy, hfirst]
  dsimp only
  rw [hzero, shiftToTargetExponent_of_lt (by decide) hplace]
  exact dif_pos rfl

/-- What a mantissa is rounded to: zero, or a float of 53 bits, with a carry in the last case. -/
theorem exists_roundWithAccuracy (s : Sign) {em : ExtendedMantissa} {place : ℤ}
    (hfirst : shiftToTargetExponent .binary64 m e accuracy = (em, place)) (hplace : -1074 ≤ place)
    (hm : em.mantissa < 0x20000000000000)
    (hwide : place = -1074 ∨ 0x10000000000000 ≤ em.mantissa) :
    em.roundedMantissa = 0 ∧ roundWithAccuracy .binary64 s m e accuracy = .zero s ∨
      ∃ m' e' hpos, roundWithAccuracy .binary64 s m e accuracy = .finite s m' e' hpos ∧
        Canonical m' e' ∧ (m' * 2 ^ e' : ℚ) = em.roundedMantissa * 2 ^ place := by
  obtain ⟨hfloor, hceil⟩ := roundedMantissa_bounds em
  by_cases hzero : em.roundedMantissa = 0
  · exact .inl ⟨hzero, roundWithAccuracy_eq_zero hfirst hplace hzero⟩
  · refine .inr ?_
    by_cases hcarry : em.roundedMantissa = 0x20000000000000
    · have hsecond := shiftToTargetExponent_carry hplace
      rw [← hcarry] at hsecond
      refine ⟨_, _, by decide, roundWithAccuracy_eq hfirst hsecond rfl (by decide),
        ⟨by decide, by omega, .inr (by decide)⟩, ?_⟩
      rw [hcarry, zpow_add₀ (by norm_num)]
      push_cast
      ring
    · have hpos : 0 < em.roundedMantissa := Nat.pos_of_ne_zero hzero
      have hsecond := shiftToTargetExponent_of_lt (m := em.roundedMantissa) (by omega) hplace
      exact ⟨_, _, hpos, roundWithAccuracy_eq hfirst hsecond rfl hpos,
        ⟨by omega, hplace, hwide.imp_right fun h => by omega⟩, rfl⟩

theorem Extends.le (h : Extends m accuracy x) : m ≤ x := by
  cases accuracy with
  | exact => exact h.ge
  | inexact order => cases order <;> simp only [Extends] at h <;> linarith

theorem RoundsTo.withSign {x y : ℚ} (h : RoundsTo x y) (negative : Bool) :
    RoundsTo (Binary.withSign negative x) (Binary.withSign negative y) := by
  cases negative with
  | false => exact h
  | true => exact h.neg

theorem abs_withSign (negative : Bool) (x : ℚ) : |withSign negative x| = |x| := by
  cases negative with
  | false => rfl
  | true => exact abs_neg x

theorem two_pow_le_of_canonical {m : ℕ} {e : ℤ} (h : Canonical m e) (he : 971 < e) :
    2 * 2 ^ (1023 : ℤ) ≤ (m * 2 ^ e : ℚ) := by
  obtain ⟨-, -, hm⟩ := h
  have hm : (2 : ℚ) ^ 52 ≤ m := by exact_mod_cast hm.resolve_left (by omega)
  have he : (2 : ℚ) ^ (972 : ℤ) ≤ 2 ^ e := zpow_le_zpow_right₀ (by norm_num) he
  have hsplit : 2 * (2 : ℚ) ^ (1023 : ℤ) = 2 ^ 52 * 2 ^ (972 : ℤ) := by
    rw [show (1023 : ℤ) = 51 + 972 by decide, zpow_add₀ (by norm_num), ← mul_assoc]
    norm_num
  rw [hsplit]
  exact mul_le_mul hm he (by positivity) (by positivity)

/-- A rounded number is packed as its float, or as an infinity. -/
theorem isRounded_pack (s : Sign) {m : ℕ} {e : ℤ} {x : ℚ} (hpos : 0 < m) (h : Canonical m e)
    (hx : 0 ≤ x) (hrounds : RoundsTo x (m * 2 ^ e)) :
    IsRounded (withSign (isNegative s) x)
      (ofUnpacked (Float.Model.pack (.finite s m e hpos)).unpack) := by
  rw [unpack_pack_canonical hpos h]
  split
  · next hgreat =>
    have hy := two_pow_le_of_canonical h hgreat
    have hy' : (0 : ℚ) < m * 2 ^ e := by positivity
    have hnear := (hrounds.near hy'.ne').1
    rw [abs_of_pos hy'] at hnear
    have hleast : (2 : ℚ) ^ (1023 : ℤ) ≤ |x| := by linarith
    have hxpos : 0 < x := by
      rw [abs_of_nonneg hx] at hleast
      exact (by positivity : (0 : ℚ) < 2 ^ (1023 : ℤ)).trans_le hleast
    refine .inr ⟨?_, by rwa [abs_withSign]⟩
    cases s <;> simp [ofUnpacked, isNegative, withSign, hxpos, hxpos.le]
  · exact .inl ⟨_, rfl, hrounds.withSign _⟩

/-- A mantissa with its fraction is rounded to the nearest multiple of the unit at its last
place. -/
theorem roundsTo_roundedMantissa {shift : ℕ} {place : ℤ} {em : ExtendedMantissa}
    (h : Extends em.mantissa em.accuracy (x / 2 ^ shift)) (hplace : place = e + shift)
    (hwide : place = -1074 ∨ (2 : ℚ) ^ 52 * 2 ^ shift ≤ x) :
    RoundsTo (x * 2 ^ e) (em.roundedMantissa * 2 ^ place) := by
  have hpow : (2 : ℚ) ^ place = 2 ^ shift * 2 ^ e := by
    rw [hplace, zpow_add₀ (by norm_num), zpow_natCast, mul_comm]
  have hunit : (0 : ℚ) < 2 ^ place := by positivity
  refine ⟨place, em.roundedMantissa, by push_cast; rfl, ?_, ?_⟩
  · have hexact : x * 2 ^ e = x / 2 ^ shift * 2 ^ place := by
      rw [hpow]
      field_simp
    rw [hexact, ← sub_mul, abs_mul, abs_of_pos hunit]
    have := mul_le_mul_of_nonneg_right (abs_sub_roundedMantissa_le h) hunit.le
    linarith
  · refine hwide.imp_right fun hle => ?_
    have hfirst : (2 : ℚ) ^ (place + 52) = 2 ^ 52 * 2 ^ shift * 2 ^ e := by
      rw [zpow_add₀ (by norm_num), hpow, mul_comm, ← mul_assoc]
      rfl
    rw [hfirst]
    exact (mul_le_mul_of_nonneg_right hle (by positivity)).trans (le_abs_self _)

/-- **What is rounded and packed is a float of the rounded number.** -/
theorem isRounded_roundWithAccuracy (s : Sign) (h : Extends m accuracy x)
    (hwide : e ≤ lastPlace m e) : IsRounded (withSign (isNegative s) (x * 2 ^ e))
      (ofUnpacked (Float.Model.pack (roundWithAccuracy .binary64 s m e accuracy)).unpack) := by
  have hfirst := shiftToTargetExponent_eq_lastPlace hwide accuracy
  have hlt := div_two_pow_lt hwide
  have hor := lastPlace_eq_or hwide
  have hplace : -1074 ≤ lastPlace m e := le_max_right _ _
  have hshift : lastPlace m e = e + (lastPlace m e - e).toNat := by omega
  generalize (lastPlace m e - e).toNat = shift at *
  generalize lastPlace m e = place at *
  have hextends := extends_shiftRight (extends_ofMantissaAndAccuracy h) shift
  have hmantissa :
      (ExtendedMantissa.ofMantissaAndAccuracy m accuracy >>> shift).mantissa = m / 2 ^ shift := by
    rw [mantissa_shiftRight, mantissa_ofMantissaAndAccuracy]
  generalize ExtendedMantissa.ofMantissaAndAccuracy m accuracy >>> shift = em at *
  have hx : 0 ≤ x * 2 ^ e := mul_nonneg ((Nat.cast_nonneg m).trans h.le) (by positivity)
  have hrounds : RoundsTo (x * 2 ^ e) (em.roundedMantissa * 2 ^ place) := by
    refine roundsTo_roundedMantissa hextends hshift (hor.imp_right fun hm => ?_)
    rw [Nat.le_div_iff_mul_le (Nat.two_pow_pos _)] at hm
    exact le_trans (by exact_mod_cast hm) h.le
  obtain ⟨hzero, hround⟩ | ⟨m', e', hpos, hround, hcanonical, hvalue⟩ :=
    exists_roundWithAccuracy s hfirst hplace (hmantissa ▸ hlt) (hmantissa ▸ hor)
  · have hunpack : (Float.Model.pack (.zero s)).unpack = .zero s := by cases s <;> rfl
    rw [hround, hunpack]
    refine .inl ⟨_, rfl, ?_⟩
    rw [hzero, Nat.cast_zero, zero_mul] at hrounds
    rw [Nat.cast_zero, zero_mul]
    exact hrounds.withSign _
  · rw [hround]
    exact isRounded_pack s hpos hcanonical hx (hvalue ▸ hrounds)

end Binary

end SchemaCanvas
