import SchemaCanvas.Json.Basic
import Mathlib

/-!
# Rounding of integers to floats

The core library says what a float is by a model: a float is unpacked into a sign, a mantissa and an
exponent, and the result of an operation is rounded and packed again. Here `Binary.ofFloat` is
shown to read a float as the model does, and the rounding of the model is followed for integers of
64 bits.

* `Binary.ofFloat_eq` : what a float denotes is what the model unpacks;
* `Binary.rounded_roundWithAccuracy` : a mantissa of more than 53 bits is cut to its first 53 bits,
  up to a carry;
* `Binary.rounded_ofInt` : the nearest float of an integer begins at the same bit, up to a carry;
* `Binary.beq_zero_iff` : a float equals zero if its mantissa is zero.
-/

namespace SchemaCanvas

open Float.Model Float.Model.UnpackedFloat

namespace Binary

/-! ### What a float denotes -/

/-- A sign as a truth value. -/
def isNegative : Sign → Bool
  | .negative => true
  | .positive => false

/-- What an unpacked float denotes. -/
def ofUnpacked : UnpackedFloat → Binary
  | .notANumber => nan
  | .infinity s => infinite (isNegative s)
  | .zero s => finite (isNegative s) 0 (-1074)
  | .finite s mantissa exponent _ => finite (isNegative s) mantissa exponent

section

variable (b : BitVec 64)

theorem toNat_unpackExponent :
    (@unpackExponent .binary64 b).toNat = (b.toNat >>> 52) % 2048 := by
  rw [unpackExponent, BitVec.toNat_cast, BitVec.extractLsb_toNat]
  rfl

theorem toNat_unpackMantissa :
    (@unpackMantissa .binary64 b).toNat = b.toNat % 0x10000000000000 := by
  rw [unpackMantissa, BitVec.toNat_cast, BitVec.extractLsb_toNat]
  rfl

theorem isNegative_unpackSign :
    isNegative (Sign.ofBitVec (@unpackSign .binary64 b)) =
      decide (0x8000000000000000 ≤ b.toNat) := by
  have hsign : (@unpackSign .binary64 b).toNat = b.toNat >>> 63 % 2 := by
    rw [unpackSign, BitVec.toNat_cast, BitVec.extractLsb_toNat]
    rfl
  have hlt := b.isLt
  rw [Nat.shiftRight_eq_div_pow] at hsign
  rw [Sign.ofBitVec]
  split
  · next h =>
    rw [h] at hsign
    change 0 = _ at hsign
    simp only [isNegative]
    symm
    rw [decide_eq_false_iff_not]
    omega
  · next h =>
    have hne : (@unpackSign .binary64 b).toNat ≠ 0 := fun h0 => h (BitVec.eq_of_toNat_eq h0)
    simp only [isNegative]
    symm
    rw [decide_eq_true_eq]
    omega

theorem toNat_leading (m : BitVec 52) : (1#1 ++ m).toNat = 0x10000000000000 + m.toNat := by
  rw [BitVec.toNat_append]
  exact (Nat.two_pow_add_eq_or_of_lt m.isLt 1).symm

end

/-- What a float denotes, by the model of the core library. -/
theorem ofFloat_eq (f : Float) : ofFloat f = ofUnpacked f.toModel.unpack := by
  have hexponent := toNat_unpackExponent f.toBits.toBitVec
  have hmantissa := toNat_unpackMantissa f.toBits.toBitVec
  have hsign := isNegative_unpackSign f.toBits.toBitVec
  change _ = (f.toBits.toNat >>> 52) % 2048 at hexponent
  change _ = f.toBits.toNat % _ at hmantissa
  change _ = decide (_ ≤ f.toBits.toNat) at hsign
  change _ = ofUnpacked (UnpackedFloat.unpack .binary64 f.toBits.toBitVec)
  have hones (e : BitVec 11) : e = -1#11 ↔ e.toNat = 2047 := BitVec.toNat_inj.symm
  have hzero (e : BitVec 11) : e = 0#11 ↔ e.toNat = 0 := BitVec.toNat_inj.symm
  have hnone (m : BitVec 52) : m = 0#52 ↔ m.toNat = 0 := BitVec.toNat_inj.symm
  simp only [ofFloat, ← hsign, ← hexponent, ← hmantissa, UnpackedFloat.unpack, hones, hzero, hnone]
  split_ifs with h1 h2 h3 h4
  · rfl
  · rfl
  · rw [h4]; rfl
  · rw [ofUnpacked, h3]
    rfl
  · rw [ofUnpacked, toNat_leading]
    rfl

/-! ### Rounding -/

/-- A mantissa of 53 bits at an exponent within reach. -/
def Normal (mantissa : Nat) (exponent : Int) : Prop :=
  0x10000000000000 ≤ mantissa ∧ mantissa < 0x20000000000000 ∧ -1074 ≤ exponent ∧ exponent ≤ 971

theorem log2_eq {m : Nat} (h : 0x10000000000000 ≤ m) (h' : m < 0x20000000000000) : m.log2 = 52 :=
  (Nat.log2_eq_iff (by omega)).2 ⟨h, h'⟩

theorem log2_mul_two_pow {m : Nat} (hm : m ≠ 0) (shift : Nat) :
    (m * 2 ^ shift).log2 = m.log2 + shift := by
  obtain ⟨hlow, hhigh⟩ := (Nat.log2_eq_iff hm).1 (rfl : m.log2 = m.log2)
  refine (Nat.log2_eq_iff (Nat.mul_ne_zero hm (Nat.two_pow_pos _).ne')).2 ⟨?_, ?_⟩
  · rw [Nat.pow_add]
    exact Nat.mul_le_mul_right _ hlow
  · rw [Nat.add_right_comm, Nat.pow_add]
    exact Nat.mul_lt_mul_of_pos_right hhigh (Nat.two_pow_pos _)

theorem unpack_pack {s : Sign} {m : Nat} {e : Int} (hpos : 0 < m) (h : Normal m e) :
    (Float.Model.pack (.finite s m e hpos)).unpack = .finite s m e hpos := by
  obtain ⟨hlow, hhigh, hleast, hgreatest⟩ := h
  have hbits : m.log2 + 1 = 1 + 52 := congrArg (· + 1) (log2_eq hlow hhigh)
  have hfield :
      (BitVec.ofNat 11 (e + (1023 : Nat) + (52 : Nat)).toNat).toNat = (e + 1075).toNat := by
    rw [BitVec.toNat_ofNat]
    omega
  have hfraction : (1#1 ++ BitVec.ofNat 52 m).toNat = m := by
    rw [toNat_leading, BitVec.toNat_ofNat]
    omega
  have hpack : UnpackedFloat.pack .binary64 (.finite s m e hpos) =
      packComponents .binary64 s (BitVec.ofNat 11 (e + (1023 : Nat) + (52 : Nat)).toNat)
        (BitVec.ofNat 52 m) := by
    simp only [UnpackedFloat.pack, Format.mantissaBits, Format.exponentBias, hbits, if_true]
    rw [if_neg]
    omega
  -- the exponent field is neither that of an infinity nor that of a small float
  change UnpackedFloat.unpack .binary64 (UnpackedFloat.pack .binary64 (.finite s m e hpos)) = _
  rw [hpack, UnpackedFloat.unpack]
  simp only [unpackExponent_packComponents, unpackMantissa_packComponents,
    unpackSign_packComponents, Sign.ofBitVec_toBitVec]
  rw [if_neg, if_neg]
  · have hexponent : ((e + 1075).toNat : Int) - ((1023 : Nat) + (52 : Nat)) = e := by omega
    simp only [hfraction, hfield]
    congr 1
  · intro h
    have := hfield.symm.trans (congrArg BitVec.toNat h)
    change _ = 0 at this
    omega
  · intro h
    have := hfield.symm.trans (congrArg BitVec.toNat h)
    change _ = 2047 at this
    omega

theorem mantissa_shiftRight (em : ExtendedMantissa) (shift : Nat) :
    (em >>> shift).mantissa = em.mantissa / 2 ^ shift := by
  induction shift with
  | zero => exact (Nat.div_one _).symm
  | succ shift ih =>
    change (em >>> shift).mantissa / 2 = _
    rw [ih, Nat.div_div_eq_div_mul, Nat.pow_succ]

/-- Rounding adds at most one to what is left of a mantissa. -/
theorem roundedMantissa_bounds (em : ExtendedMantissa) :
    em.mantissa ≤ em.roundedMantissa ∧ em.roundedMantissa ≤ em.mantissa + 1 := by
  rw [ExtendedMantissa.roundedMantissa]
  cases em.accuracy with
  | exact => simp [Accuracy.roundToNearestEven]
  | inexact order =>
    cases order with
    | eq =>
      simp only [Accuracy.roundToNearestEven]
      omega
    | lt | gt => simp [Accuracy.roundToNearestEven]

theorem targetExponent_eq (m : Nat) (e : Int) :
    Format.binary64.targetExponent (totalExponent m e) = max (m.log2 + e - 52) (-1074) := by
  simp only [Format.targetExponent, totalExponent, Format.mantissaBits, Format.minExponent]
  omega

/-- A mantissa of at least 53 bits keeps the first of them. -/
theorem shiftToTargetExponent_eq {m : Nat} {e : Int} (hm : 0x10000000000000 ≤ m) (he : -1074 ≤ e) :
    ∃ em, shiftToTargetExponent .binary64 m e .exact = (em, m.log2 + e - 52) ∧
      em.mantissa = m / 2 ^ (m.log2 - 52) := by
  have hlog : 52 ≤ m.log2 := (Nat.le_log2 (by omega)).2 hm
  have hshift : (max ((m.log2 : Int) + e - 52) (-1074) - e).toNat = m.log2 - 52 := by omega
  rw [shiftToTargetExponent, targetExponent_eq, shiftToExponent, hshift]
  refine ⟨_, Prod.ext rfl ?_, mantissa_shiftRight _ _⟩
  change e + ((m.log2 - 52 : Nat) : Int) = _
  omega

/-- A float of 53 bits that begins at a place, or the power of two above. -/
def Rounded (s : Sign) (place : Int) (x : UnpackedFloat) : Prop :=
  ∃ m e hpos, x = .finite s m e hpos ∧ 0x10000000000000 ≤ m ∧ m < 0x20000000000000 ∧
    (e = place - 52 ∨ m = 0x10000000000000 ∧ e = place - 51)

theorem shiftToTargetExponent_of_lt {m : Nat} {e : Int} (hm : m < 0x20000000000000)
    (he : -1074 ≤ e) :
    shiftToTargetExponent .binary64 m e .exact = (⟨m, false, false⟩, e) := by
  have hlog : m.log2 ≤ 52 := by
    by_cases hzero : m = 0
    · subst hzero
      decide
    · exact Nat.le_of_lt_succ ((Nat.log2_lt hzero).2 hm)
  have hshift : (max ((m.log2 : Int) + e - 52) (-1074) - e).toNat = 0 := by omega
  rw [shiftToTargetExponent, targetExponent_eq, shiftToExponent, hshift]
  exact Prod.ext rfl (Int.add_zero e)

/-- The power of two above is shifted once more. -/
theorem shiftToTargetExponent_carry {e : Int} (he : -1074 ≤ e) :
    shiftToTargetExponent .binary64 0x20000000000000 e .exact =
      (⟨0x10000000000000, false, false⟩, e + 1) := by
  have hshift : (max (((0x20000000000000 : Nat).log2 : Int) + e - 52) (-1074) - e).toNat = 1 := by
    rw [show (0x20000000000000 : Nat).log2 = 53 by decide]
    omega
  rw [shiftToTargetExponent, targetExponent_eq, shiftToExponent, hshift]
  rfl

theorem roundWithAccuracy_eq {s : Sign} {m m' : Nat} {e e₁ e' : Int} {accuracy : Accuracy}
    {em em' : ExtendedMantissa}
    (hfirst : shiftToTargetExponent .binary64 m e accuracy = (em, e₁))
    (hsecond : shiftToTargetExponent .binary64 em.roundedMantissa e₁ .exact = (em', e'))
    (hm' : em'.mantissa = m') (hpos : 0 < m') :
    roundWithAccuracy .binary64 s m e accuracy = .finite s m' e' hpos := by
  subst hm'
  rw [roundWithAccuracy, hfirst]
  dsimp only
  rw [hsecond]
  exact dif_neg (Nat.ne_of_gt hpos)

/-- **A mantissa of at least 53 bits is rounded to 53 bits that begin at the same place,** unless a
carry makes it the power of two above. -/
theorem rounded_roundWithAccuracy (s : Sign) {m : Nat} {e : Int} (hm : 0x10000000000000 ≤ m)
    (he : -1074 ≤ e) : Rounded s (m.log2 + e) (roundWithAccuracy .binary64 s m e .exact) := by
  have hlog : 52 ≤ m.log2 := (Nat.le_log2 (by omega)).2 hm
  obtain ⟨em, hfirst, hem⟩ := shiftToTargetExponent_eq hm he
  obtain ⟨hfloor, hceil⟩ := roundedMantissa_bounds em
  obtain ⟨hleast, hgreatest⟩ := (Nat.log2_eq_iff (by omega)).1 (rfl : m.log2 = m.log2)
  have hpow : 2 ^ m.log2 = 0x10000000000000 * 2 ^ (m.log2 - 52) := by
    rw [show 0x10000000000000 = 2 ^ 52 by decide, ← Nat.pow_add, Nat.add_sub_cancel' hlog]
  have hlow : 0x10000000000000 ≤ em.mantissa := by
    rw [hem, Nat.le_div_iff_mul_le (Nat.two_pow_pos _), ← hpow]
    exact hleast
  have hhigh : em.mantissa < 0x20000000000000 := by
    rw [hem, Nat.div_lt_iff_lt_mul (Nat.two_pow_pos _)]
    omega
  -- what is rounded is shifted again, which does nothing unless rounding has made a 54th bit
  by_cases hcarry : em.roundedMantissa = 0x20000000000000
  · have hsecond := shiftToTargetExponent_carry (e := m.log2 + e - 52) (by omega)
    rw [← hcarry] at hsecond
    exact ⟨_, _, by decide, roundWithAccuracy_eq hfirst hsecond rfl (by decide), by decide,
      by decide, .inr ⟨rfl, by omega⟩⟩
  · have hlow := Nat.le_trans hlow hfloor
    have hhigh : em.roundedMantissa < 0x20000000000000 := by omega
    have hpos : 0 < em.roundedMantissa := by omega
    have hsecond := shiftToTargetExponent_of_lt (e := m.log2 + e - 52) hhigh (by omega)
    exact ⟨_, _, hpos, roundWithAccuracy_eq hfirst hsecond rfl hpos, hlow, hhigh, .inl rfl⟩

/-- Zeros behind a mantissa do not matter. -/
theorem ofMantissaAndAccuracy_shiftRight (m shift : Nat) :
    ExtendedMantissa.ofMantissaAndAccuracy (m * 2 ^ shift) .exact >>> shift =
      ⟨m, false, false⟩ := by
  induction shift generalizing m with
  | zero => rw [Nat.pow_zero, Nat.mul_one]; rfl
  | succ shift ih =>
    change ExtendedMantissa.shiftRightOne
      (ExtendedMantissa.ofMantissaAndAccuracy (m * 2 ^ (shift + 1)) .exact >>> shift) = _
    rw [Nat.pow_succ, ← Nat.mul_assoc, Nat.mul_right_comm, ih, ExtendedMantissa.shiftRightOne]
    simp

theorem roundWithAccuracy_mul_two_pow (s : Sign) {m : Nat} (shift : Nat) {e : Int}
    (hm : 0x10000000000000 ≤ m) (hm' : m < 0x20000000000000) (he : -1074 ≤ e) (hpos : 0 < m) :
    roundWithAccuracy .binary64 s (m * 2 ^ shift) e .exact = .finite s m (e + shift) hpos := by
  have hlog : (m * 2 ^ shift).log2 = 52 + shift := by
    rw [log2_mul_two_pow (Nat.ne_of_gt hpos), log2_eq hm hm']
  have hshift : (max (((m * 2 ^ shift).log2 : Int) + e - 52) (-1074) - e).toNat = shift := by
    rw [hlog]
    omega
  have hfirst : shiftToTargetExponent .binary64 (m * 2 ^ shift) e .exact =
      (⟨m, false, false⟩, e + shift) := by
    rw [shiftToTargetExponent, targetExponent_eq, shiftToExponent, hshift]
    exact Prod.ext (ofMantissaAndAccuracy_shiftRight m shift) rfl
  exact roundWithAccuracy_eq hfirst (shiftToTargetExponent_of_lt hm' (by omega)) rfl hpos

theorem Rounded.unpack_pack {s : Sign} {place : Int} {x : UnpackedFloat} (h : Rounded s place x)
    (hleast : -1022 ≤ place) (hgreatest : place ≤ 1022) : (Float.Model.pack x).unpack = x := by
  obtain ⟨m, e, hpos, rfl, hlow, hhigh, he⟩ := h
  exact Binary.unpack_pack hpos ⟨hlow, hhigh, by omega, by omega⟩

/-! ### Integers -/

theorem unpack_mul (x y : Float) : (x * y).toModel.unpack =
    (Float.Model.pack (UnpackedFloat.mul .binary64 x.toModel.unpack y.toModel.unpack)).unpack := rfl

theorem unpack_one : (Float.exactlyRepresentablePowersOfTen[0]).toModel.unpack =
    .finite .positive (2 ^ 52) (-52) (by decide) := rfl

theorem unpack_toFloat {n : UInt64} : n.toFloat.toModel.unpack =
    (Float.Model.pack (UnpackedFloat.ofNat .binary64 n.toNat)).unpack := rfl

theorem ofNat_eq {n : Nat} (hpos : n ≠ 0) (hn : n < 0x20000000000000) :
    0x10000000000000 ≤ n * 2 ^ (52 - n.log2) ∧ n * 2 ^ (52 - n.log2) < 0x20000000000000 ∧
      ∃ hpos, UnpackedFloat.ofNat .binary64 n =
        .finite .positive (n * 2 ^ (52 - n.log2)) ((n.log2 : Int) - 52) hpos := by
  obtain ⟨hlow, hhigh⟩ := (Nat.log2_eq_iff hpos).1 (rfl : n.log2 = n.log2)
  have hlog : n.log2 < 53 := (Nat.log2_lt hpos).2 hn
  have hpow : 2 ^ n.log2 * 2 ^ (52 - n.log2) = 0x10000000000000 := by
    rw [← Nat.pow_add, Nat.add_sub_cancel' (by omega)]
  have hleast : 0x10000000000000 ≤ n * 2 ^ (52 - n.log2) := by
    rw [← hpow]
    exact Nat.mul_le_mul_right _ hlow
  have hgreatest : n * 2 ^ (52 - n.log2) < 0x20000000000000 := by
    have := Nat.mul_lt_mul_of_pos_right hhigh (Nat.two_pow_pos (52 - n.log2))
    rw [Nat.pow_succ, Nat.mul_right_comm, hpow] at this
    exact this
  have hpositive : 0 < n * 2 ^ (52 - n.log2) := by omega
  have hcompare : compare (n : Int) 0 = .gt := Int.compare_eq_gt.2 (by omega)
  have hshift : (0 - max ((n.log2 : Int) + 0 - 52) (-1074)).toNat = 52 - n.log2 := by omega
  refine ⟨hleast, hgreatest, hpositive, ?_⟩
  rw [UnpackedFloat.ofNat, UnpackedFloat.ofInt, UnpackedFloat.normalize, hcompare]
  dsimp only
  rw [Int.toNat_natCast, UnpackedFloat.round, targetExponent_eq, decreaseExponent, hshift]
  dsimp only
  have hexact := roundWithAccuracy_mul_two_pow .positive 0 (e := 0 - ((52 - n.log2 : Nat) : Int))
    hleast hgreatest (by omega) hpositive
  rw [Nat.pow_zero, Nat.mul_one] at hexact
  rw [Nat.shiftLeft_eq, hexact]
  congr 1
  omega

theorem mul_finite {m m' : Nat} {e e' : Int} (h : 0 < m) (h' : 0 < m') :
    UnpackedFloat.mul .binary64 (.finite .positive m e h) (.finite .positive m' e' h') =
      roundWithAccuracy .binary64 .positive (m * m') (e + e') .exact := rfl

theorem ofNat_of_lt {n : Nat} (hn : n < 2 ^ 53) :
    Float.ofNat n = n.toUInt64.toFloat * Float.exactlyRepresentablePowersOfTen[0] :=
  dif_pos ⟨hn, by decide⟩

theorem ofNat_of_le {n : Nat} (hn : 2 ^ 53 ≤ n) : Float.ofNat n = ⟨.ofScientific n 0⟩ :=
  dif_neg (by omega)

theorem unpack_toUInt64_of_lt {n : Nat} (hpos : n ≠ 0) (hn : n < 0x20000000000000) :
    ∃ hpositive, n.toUInt64.toFloat.toModel.unpack =
      .finite .positive (n * 2 ^ (52 - n.log2)) ((n.log2 : Int) - 52) hpositive := by
  have hlog : n.log2 < 53 := (Nat.log2_lt hpos).2 hn
  obtain ⟨hlow, hhigh, hpositive, heq⟩ := ofNat_eq hpos hn
  have hword : n.toUInt64.toNat = n := by
    rw [Nat.toUInt64_eq, UInt64.toNat_ofNat', Nat.mod_eq_of_lt (by omega)]
  refine ⟨hpositive, ?_⟩
  rw [unpack_toFloat, hword, heq]
  exact unpack_pack hpositive ⟨hlow, hhigh, by omega, by omega⟩

theorem unpack_ofNat_of_lt {n : Nat} (hpos : n ≠ 0) (hn : n < 0x20000000000000) :
    ∃ hpositive, (Float.ofNat n).toModel.unpack =
      .finite .positive (n * 2 ^ (52 - n.log2)) ((n.log2 : Int) - 52) hpositive := by
  have hlog : n.log2 < 53 := (Nat.log2_lt hpos).2 hn
  obtain ⟨hlow, hhigh, -⟩ := ofNat_eq hpos hn
  obtain ⟨hpositive, hfloat⟩ := unpack_toUInt64_of_lt hpos hn
  have hexact := roundWithAccuracy_mul_two_pow .positive 52 (e := (n.log2 : Int) - 52 + -52)
    hlow hhigh (by omega) hpositive
  have hexponent : (n.log2 : Int) - 52 + -52 + (52 : Nat) = n.log2 - 52 := by omega
  rw [hexponent] at hexact
  refine ⟨hpositive, ?_⟩
  rw [ofNat_of_lt hn, unpack_mul, hfloat, unpack_one, mul_finite, hexact,
    unpack_pack hpositive ⟨hlow, hhigh, by omega, by omega⟩]

/-- **The nearest float of an integer of 64 bits begins at the same place,** unless a carry makes it
the power of two above. -/
theorem rounded_ofNat {n : Nat} (hpos : n ≠ 0) (hn : n < 0x10000000000000000) :
    Rounded .positive n.log2 (Float.ofNat n).toModel.unpack := by
  have hlog : n.log2 < 64 := (Nat.log2_lt hpos).2 hn
  -- an integer of at most 53 bits is multiplied by one, and a greater one is read as a decimal
  by_cases hsmall : n < 0x20000000000000
  · obtain ⟨hlow, hhigh, -⟩ := ofNat_eq hpos hsmall
    obtain ⟨hpositive, hunpack⟩ := unpack_ofNat_of_lt hpos hsmall
    exact ⟨_, _, hpositive, hunpack, hlow, hhigh, .inl rfl⟩
  · have hmantissa := log2_mul_two_pow hpos 53
    rw [← Nat.shiftLeft_eq] at hmantissa
    have hwide : 0x10000000000000 ≤ n <<< 53 := by
      rw [Nat.shiftLeft_eq]
      omega
    have hrounded := rounded_roundWithAccuracy .positive (e := -53) hwide (by decide)
    rw [hmantissa] at hrounded
    have hscientific : UnpackedFloat.ofScientific .binary64 n 0 =
        roundWithAccuracy .binary64 .positive (n <<< 53) (-53) .exact := by
      have hleast : ¬ (0 : Int) < -(2 ^ 11 + (n.log2 : Int)) := by omega
      rw [UnpackedFloat.ofScientific, dif_neg hpos, if_neg (by decide), if_neg hleast,
        if_pos (by decide)]
      change roundWithAccuracy .binary64 .positive (n <<< 53 * 10 ^ (0 : Int).toNat) (-53 + 0)
        .exact = _
      rw [Int.toNat_zero, Nat.pow_zero, Nat.mul_one, Int.add_zero]
    rw [ofNat_of_le (by omega)]
    have hplace : ((n.log2 + 53 : Nat) : Int) + -53 = n.log2 := by omega
    rw [hplace, ← hscientific] at hrounded
    have hpack := hrounded.unpack_pack (by omega) (by omega)
    change Rounded .positive n.log2
      (Float.Model.pack (UnpackedFloat.ofScientific .binary64 n 0)).unpack
    rwa [hpack]

/-- **The nearest float of an integer has its sign.** -/
theorem rounded_ofInt {n : Int} (hpos : n ≠ 0) (hn : n.natAbs < 0x10000000000000000) :
    Rounded (if n < 0 then .negative else .positive) n.natAbs.log2
      (Float.ofInt n).toModel.unpack := by
  have hlog : n.natAbs.log2 < 64 := (Nat.log2_lt (Int.natAbs_ne_zero.2 hpos)).2 hn
  have hrounded := rounded_ofNat (Int.natAbs_ne_zero.2 hpos) hn
  cases n with
  | ofNat n => exact hrounded
  | negSucc n =>
    obtain ⟨m, e, hpositive, hunpack, hbits, hbits', hplace⟩ := hrounded
    have hneg : Rounded .negative ((Int.negSucc n).natAbs.log2)
        (Float.ofNat n.succ).toModel.unpack.neg := by
      change (Float.ofNat n.succ).toModel.unpack = _ at hunpack
      exact ⟨m, e, hpositive, hunpack ▸ rfl, hbits, hbits', hplace⟩
    change Rounded _ _ (Float.Model.pack (Float.ofNat n.succ).toModel.unpack.neg).unpack
    rw [hneg.unpack_pack (by omega) (by omega), if_pos (Int.negSucc_lt_zero n)]
    exact hneg

theorem ofFloat_ofInt {n : Int} (hpos : n ≠ 0) (hn : n.natAbs < 0x10000000000000000) :
    ∃ m e, ofFloat (Float.ofInt n) = finite (n < 0) m e ∧
      0x10000000000000 ≤ m ∧ m < 0x20000000000000 ∧
      (e = n.natAbs.log2 - 52 ∨ m = 0x10000000000000 ∧ e = n.natAbs.log2 - 51) := by
  obtain ⟨m, e, hpositive, hunpack, hbits⟩ := rounded_ofInt hpos hn
  refine ⟨m, e, ?_, hbits⟩
  rw [ofFloat_eq, hunpack, ofUnpacked]
  congr 1
  split <;> simp [isNegative, *]

/-! ### Zeros -/

theorem exists_ofFloat_of_isFinite {f : Float} (h : f.isFinite) :
    ∃ negative m e, ofFloat f = finite negative m e := by
  change f.toModel.unpack.isFinite = true at h
  rw [ofFloat_eq]
  cases hf : f.toModel.unpack with
  | notANumber | infinity => rw [hf] at h; cases h
  | zero | finite => exact ⟨_, _, _, rfl⟩

/-- **A float equals zero if its mantissa is zero.** -/
theorem beq_zero_iff {f : Float} {negative : Bool} {m : Nat} {e : Int}
    (h : ofFloat f = finite negative m e) : (f == 0) = true ↔ m = 0 := by
  change f.toModel.unpack.beq (.zero .positive) = true ↔ _
  rw [ofFloat_eq] at h
  cases hf : f.toModel.unpack with
  | notANumber | infinity => rw [hf] at h; cases h
  | zero s =>
    rw [hf] at h
    cases h
    exact ⟨fun _ => rfl, fun _ => rfl⟩
  | finite s m e hm =>
    rw [hf] at h
    cases h
    cases s <;> simp [UnpackedFloat.beq, UnpackedFloat.compare, Nat.ne_of_gt hm]

theorem exists_ofFloat_ofInt {n : Int} (hn : n.natAbs < 0x10000000000000000) :
    ∃ negative m e, ofFloat (Float.ofInt n) = finite negative m e ∧ (m = 0 ↔ n = 0) := by
  by_cases hpos : n = 0
  · subst hpos
    exact ⟨false, 0, -1074, by decide +kernel, by decide⟩
  · obtain ⟨m, e, hfinite, hleast, -⟩ := ofFloat_ofInt hpos hn
    exact ⟨_, m, e, hfinite, by omega⟩

theorem beq_of_signs {x y : Float} {m m' : Nat} {e e' : Int} (hx : ofFloat x = finite false m e)
    (hy : ofFloat y = finite true m' e') (hm' : m' ≠ 0) : (x == y) = false := by
  change x.toModel.unpack.beq y.toModel.unpack = false
  rw [ofFloat_eq] at hx hy
  cases hunpack : y.toModel.unpack with
  | notANumber | infinity => rw [hunpack] at hy; cases hy
  | zero s =>
    rw [hunpack] at hy
    cases s <;> cases hy
    exact absurd rfl hm'
  | finite s m e hm =>
    rw [hunpack] at hy
    cases s <;> cases hy
    cases hunpack' : x.toModel.unpack with
    | notANumber | infinity => rw [hunpack'] at hx; cases hx
    | zero s => rfl
    | finite s m e hm =>
      rw [hunpack'] at hx
      cases s <;> cases hx
      rfl

/-- The nearest float of a negative integer is not that of any other integer. -/
theorem beq_ofInt_of_neg {i j : Int} (hi : 0 ≤ i) (hi' : i.natAbs < 0x10000000000000000)
    (hj : j < 0) (hj' : j.natAbs < 0x10000000000000000) :
    (Float.ofInt i == Float.ofInt j) = false := by
  obtain ⟨m', e', hy, hm', -⟩ := ofFloat_ofInt (n := j) (by omega) hj'
  rw [decide_eq_true hj] at hy
  by_cases hzero : i = 0
  · subst hzero
    exact beq_of_signs (m := 0) (e := -1074) (by decide +kernel) hy (by omega)
  · obtain ⟨m, e, hx, -⟩ := ofFloat_ofInt hzero hi'
    rw [decide_eq_false (by omega)] at hx
    exact beq_of_signs hx hy (by omega)

end Binary

theorem Number.exists_ofFloat_toFloat (n : Number) :
    ∃ negative m e, Binary.ofFloat n.toFloat = .finite negative m e := by
  cases n with
  | int n h =>
    rw [Word.minSigned, Word.maxUnsigned] at h
    obtain ⟨_, _, _, hfinite, -⟩ := Binary.exists_ofFloat_ofInt (n := n) (by omega)
    exact ⟨_, _, _, hfinite⟩
  | float f h => exact Binary.exists_ofFloat_of_isFinite h

end SchemaCanvas
