import SchemaCanvas.Expr.Method
import SchemaCanvas.Proofs.Number.Whole

/-!
# The ends of a range

`SliceRule` is the ECMAScript rule for the two ends of a slice: the fraction of an end is cut off,
toward zero, before a negative end is counted from the end of the range. The ends of
`SchemaCanvas.sliceBounds` are counted first, by a sum of floats, and lose their fraction
afterwards. So a negative fraction within the range ends up one position too low, and one between
`-1` and `0` at the last position in place of the first; the two ways agree on all other numbers.

* `SliceRule.bounds` : the ends by the rule;
* `SliceRule.KeptBy` : the numbers on which the two ways agree;
* `sliceBounds_spec` : the ends lie in order within the range, and agree with the rule exactly
  there.
-/

namespace SchemaCanvas

namespace SliceRule

/-- A number without its fraction. -/
def truncated (a : ℚ) : ℤ := if 0 ≤ a then ⌊a⌋ else ⌈a⌉

/-- The position, among `length` items, for which an integer stands: a negative one is counted from
the end, and one outside is moved to the nearer end. -/
def position (length : ℕ) (k : ℤ) : ℕ := if k < 0 then (length + k).toNat else min k.toNat length

/-- The position for which a float stands; no number stands for the start. -/
def positionOf (length : ℕ) : Binary → ℕ
  | .nan => 0
  | .infinite negative => if negative then 0 else length
  | .finite negative m e => position length (truncated (Binary.withSign negative (m * 2 ^ e)))

/-- An end of a range, which may be left out. -/
def bound (length fallback : ℕ) : Value → ℕ
  | none => fallback
  | some v => positionOf length (Binary.ofFloat v.toFloat)

/-- The two ends of a range; a range that ends before it starts is empty. -/
def bounds (length : ℕ) (start stop : Value) : ℕ × ℕ :=
  let s := bound length 0 start
  (s, max s (bound length length stop))

/-- What a float that is added to the length gives. -/
def fromEnd (length : ℕ) (x : Float) : Option ℚ :=
  (Binary.ofFloat (Float.ofNat length + x)).value?

/-- The values that stand for the same position either way: all but the negative fractions within
the range. Such a fraction does too if its sum with the length is rounded up to an integer. One
above `-1`, which the rule puts at the start, does so only in a range of one item, and if the sum is
not rounded up. -/
def KeptBy (length : ℕ) (v : Value) : Prop :=
  ∀ (j : Json) (a : ℚ), v = some j → (Binary.ofFloat j.toFloat).value? = some a →
    -length < a → a < 0 → (∀ k : ℤ, a ≠ k) →
      if -1 < a then length = 1 ∧ fromEnd length j.toFloat ≠ some 1
      else fromEnd length j.toFloat = some ((length : ℚ) + ⌈a⌉)

end SliceRule

open Binary SliceRule

variable {length : ℕ} {x : Float} {a : ℚ}

/-! ### One end -/

/-- The position that a float gives, as `sliceEnd` computes it. -/
def countedEnd (length : ℕ) (x : Float) : ℕ :=
  if x.isNaN then 0
  else if x < 0 then toIndex (Float.ofNat length + x)
  else min (toIndex x) length

theorem sliceEnd_some (length fallback : ℕ) (j : Json) :
    sliceEnd length fallback (some j) = countedEnd length j.toFloat := rfl

theorem countedEnd_of_not_finite (h : length < 2 ^ 53) (hx : (ofFloat x).value? = none) :
    countedEnd length x = positionOf length (ofFloat x) := by
  rw [countedEnd]
  cases hb : ofFloat x with
  | finite => rw [hb] at hx; cases hx
  | nan => rw [if_pos (isNaN_iff.2 hb), positionOf]
  | infinite negative =>
    have hnan : ¬ x.isNaN := by
      rw [isNaN_iff, hb]
      nofun
    have hsum := ofFloat_add_of_infinite (value?_ofNat h) hb
    rw [if_neg hnan, toIndex_of_infinite hsum, toIndex_of_infinite hb, positionOf]
    have hlt := lt_zero_iff_of_infinite hb
    cases negative with
    | true =>
      rw [if_pos (hlt.2 rfl)]
      rfl
    | false =>
      rw [if_neg (fun h => absurd (hlt.1 h) (by decide))]
      simp only [Bool.false_eq_true, if_false]
      omega

theorem countedEnd_of_nonneg (h : length < 2 ^ 53) (hx : (ofFloat x).value? = some a) (ha : 0 ≤ a) :
    countedEnd length x = position length (truncated a) := by
  have hfloor : 0 ≤ ⌊a⌋ := Int.floor_nonneg.2 ha
  rw [countedEnd, if_neg (not_isNaN hx), if_neg (mt (lt_zero_iff hx).1 (not_lt.2 ha)),
    toIndex_of_value? hx, truncated, if_pos ha, position, if_neg (by omega), Word.maxUnsigned]
  omega

theorem countedEnd_of_neg (hx : (ofFloat x).value? = some a) (ha : a < 0) :
    countedEnd length x = toIndex (Float.ofNat length + x) := by
  rw [countedEnd, if_neg (not_isNaN hx), if_pos ((lt_zero_iff hx).2 ha)]

theorem countedEnd_of_le (h : length < 2 ^ 53) (hx : (ofFloat x).value? = some a) (ha : a < 0)
    (hlow : a ≤ -length) : countedEnd length x = 0 ∧ position length (truncated a) = 0 := by
  have hsum : (length : ℚ) + a ≤ 0 := by linarith
  constructor
  · rw [countedEnd_of_neg hx ha]
    obtain ⟨c, hc, hrounds⟩ | ⟨hinfinite, hgreat⟩ := isRounded_add (value?_ofNat h) hx
    · have hneg := hrounds.neg.nonneg (by linarith)
      have hfloor : ⌊c⌋ ≤ 0 := Int.floor_nonpos (by linarith)
      rw [toIndex_of_value? hc]
      omega
    · have hneg : (length : ℚ) + a < 0 := by
        refine hsum.lt_of_ne fun hzero => ?_
        rw [hzero, abs_zero] at hgreat
        exact absurd hgreat (not_le.2 (by positivity))
      rw [toIndex_of_infinite hinfinite, decide_eq_true hneg, if_pos rfl]
  · have hceil : ⌈a⌉ ≤ -length := Int.ceil_le.2 (by push_cast; exact hlow)
    rw [truncated, if_neg (not_le.2 ha), position]
    split <;> omega

/-- A negative number within the range is counted from the end by a rounded sum, which loses its
fraction last. -/
theorem exists_fromEnd (h : length < 2 ^ 53) (hx : (ofFloat x).value? = some a) (ha : a < 0)
    (hlow : -length < a) : ∃ c, fromEnd length x = some c ∧ countedEnd length x = ⌊c⌋.toNat ∧
      RoundsTo (length + a) c ∧ length + ⌈a⌉ - 1 ≤ c ∧ c ≤ length + ⌈a⌉ := by
  have hlength : (length : ℚ) < 2 ^ 53 := by exact_mod_cast h
  have hsum : |(length : ℚ) + a| < 2 ^ 53 := by
    rw [abs_of_pos (by linarith)]
    linarith
  obtain ⟨c, hc, hrounds⟩ := (isRounded_add (value?_ofNat h) hx).exists_of_lt hsum
  have hleast := hrounds.le_of_le hsum (k := length + ⌈a⌉ - 1)
    (by push_cast; linarith [Int.ceil_lt_add_one a])
  have hgreatest := hrounds.le_of_ge hsum (k := length + ⌈a⌉)
    (by push_cast; linarith [Int.le_ceil a])
  have hfloor : ⌊c⌋ ≤ length + ⌈a⌉ := by exact_mod_cast (Int.floor_le c).trans hgreatest
  have hceil : ⌈a⌉ ≤ 0 := Int.ceil_nonpos.2 ha.le
  push_cast at hleast hgreatest
  refine ⟨c, hc, ?_, hrounds, hleast, hgreatest⟩
  rw [countedEnd_of_neg hx ha, toIndex_of_value? hc, Word.maxUnsigned]
  omega

theorem position_truncated_of_neg (ha : a < 0) (hlow : -length < a) :
    (position length (truncated a) : ℤ) = if -1 < a then 0 else length + ⌈a⌉ := by
  have hceil : -length ≤ ⌈a⌉ := by
    have := Int.le_ceil a
    have : ((-length : ℤ) : ℚ) < (⌈a⌉ + 1 : ℤ) := by push_cast; linarith
    have := Int.cast_lt.1 this
    omega
  have hzero : -1 < a ↔ 0 ≤ ⌈a⌉ := by
    rw [show (0 : ℤ) ≤ ⌈a⌉ ↔ -1 < ⌈a⌉ by omega, Int.lt_ceil]
    simp
  have hneg : ⌈a⌉ ≤ 0 := Int.ceil_nonpos.2 ha.le
  rw [truncated, if_neg (not_le.2 ha), position]
  by_cases hfirst : -1 < a
  · have := hzero.1 hfirst
    rw [if_pos hfirst, if_neg (by omega)]
    omega
  · have := mt hzero.2 hfirst
    rw [if_neg hfirst, if_pos (by omega)]
    omega

theorem countedEnd_of_intCast (h : length < 2 ^ 53) {k : ℤ} (hx : (ofFloat x).value? = some (k : ℚ))
    (hk : k < 0) (hlow : -length < k) : countedEnd length x = position length (truncated k) := by
  have hneg : (k : ℚ) < 0 := by exact_mod_cast hk
  have habove : -(length : ℚ) < k := by exact_mod_cast hlow
  obtain ⟨c, -, hcounted, hrounds, -, -⟩ := exists_fromEnd h hx hneg habove
  have hc : c = (length + k : ℤ) := by
    rw [show (length : ℚ) + k = (length + k : ℤ) by push_cast; rfl] at hrounds
    have hsmall : |length + k| < 2 ^ 53 := abs_lt.2 ⟨by omega, by omega⟩
    exact hrounds.eq_intCast (by exact_mod_cast hsmall)
  have hrule := position_truncated_of_neg hneg habove
  rw [if_neg (not_lt.2 (by exact_mod_cast (by omega : k ≤ -1))), Int.ceil_intCast] at hrule
  rw [hcounted, hc, Int.floor_intCast]
  omega

/-- A negative number within the range is counted by the rule only where its sum with the length
hides the fraction. -/
theorem countedEnd_eq_iff_of_neg (h : length < 2 ^ 53) (hx : (ofFloat x).value? = some a)
    (ha : a < 0) (hlow : -length < a) :
    countedEnd length x = position length (truncated a) ↔
      if -1 < a then length = 1 ∧ fromEnd length x ≠ some 1
      else fromEnd length x = some ((length : ℚ) + ⌈a⌉) := by
  obtain ⟨c, hc, hcounted, -, hleast, hgreatest⟩ := exists_fromEnd h hx ha hlow
  have hrule := position_truncated_of_neg ha hlow
  have hceil : -length < ⌈a⌉ := by
    rw [Int.lt_ceil]
    exact_mod_cast hlow
  -- The rounded sum is the upper end of the unit interval in which it lies, or has its floor.
  have hfloor : ⌊c⌋ = length + ⌈a⌉ - (if c = length + ⌈a⌉ then 0 else 1) := by
    split_ifs with hwhole
    · rw [Int.floor_eq_iff]
      constructor <;> push_cast <;> linarith
    · have := lt_of_le_of_ne hgreatest hwhole
      rw [Int.floor_eq_iff]
      constructor <;> push_cast <;> linarith
  have hnonneg : 0 ≤ ⌊c⌋ := by split_ifs at hfloor <;> omega
  rw [hc, hcounted, ← Int.natCast_inj, hrule, Int.toNat_of_nonneg hnonneg, hfloor]
  by_cases hfirst : -1 < a
  · have hzero : ⌈a⌉ = 0 := by
      rw [Int.ceil_eq_iff]
      exact ⟨by push_cast; linarith, by push_cast; linarith⟩
    rw [if_pos hfirst, if_pos hfirst, hzero]
    simp only [Int.cast_zero, add_zero, ne_eq, Option.some.injEq]
    constructor
    · intro hequal
      split_ifs at hequal with hwhole
      · omega
      · obtain rfl : length = 1 := by omega
        exact ⟨rfl, by simpa using hwhole⟩
    · rintro ⟨rfl, hne⟩
      rw [if_neg (by simpa using hne)]
      rfl
  · rw [if_neg hfirst, if_neg hfirst, Option.some.injEq]
    split_ifs with hwhole
    · simpa using hwhole
    · simp only [hwhole, iff_false]
      omega

theorem positionOf_of_value? (hx : (ofFloat x).value? = some a) :
    positionOf length (ofFloat x) = position length (truncated a) := by
  cases hb : ofFloat x with
  | nan => rw [hb] at hx; cases hx
  | infinite => rw [hb] at hx; cases hx
  | finite negative m e =>
    rw [hb] at hx
    cases hx
    rfl

/-- **An end of a range is counted by the rule exactly for the numbers that `KeptBy` names.** -/
theorem sliceEnd_eq_bound_iff (h : length < 2 ^ 53) (fallback : ℕ) (v : Value) :
    sliceEnd length fallback v = bound length fallback v ↔ KeptBy length v := by
  cases v with
  | none => exact iff_of_true rfl (by nofun)
  | some j =>
    rw [sliceEnd_some, bound]
    cases hx : (ofFloat j.toFloat).value? with
    | none =>
      refine iff_of_true (countedEnd_of_not_finite h hx) fun j' a hj ha => ?_
      cases hj
      rw [hx] at ha
      cases ha
    | some a =>
      have hkept : KeptBy length (some j) ↔ (-length < a → a < 0 → (∀ k : ℤ, a ≠ k) →
          if -1 < a then length = 1 ∧ fromEnd length j.toFloat ≠ some 1
          else fromEnd length j.toFloat = some ((length : ℚ) + ⌈a⌉)) := by
        refine ⟨fun hkept => hkept j a rfl hx, fun hkept j' a' hj ha => ?_⟩
        cases hj
        cases hx.symm.trans ha
        exact hkept
      rw [positionOf_of_value? hx, hkept]
      rcases le_or_gt 0 a with hnonneg | hneg
      · exact iff_of_true (countedEnd_of_nonneg h hx hnonneg)
          fun _ hneg => absurd hneg hnonneg.not_gt
      rcases le_or_gt a (-length) with hlow | hlow
      · obtain ⟨hcounted, hrule⟩ := countedEnd_of_le h hx hneg hlow
        exact iff_of_true (hcounted.trans hrule.symm) fun habove => absurd habove hlow.not_gt
      by_cases hwhole : ∃ k : ℤ, a = k
      · obtain ⟨k, rfl⟩ := hwhole
        exact iff_of_true
          (countedEnd_of_intCast h hx (by exact_mod_cast hneg) (by exact_mod_cast hlow))
          fun _ _ hfraction => absurd rfl (hfraction k)
      · rw [countedEnd_eq_iff_of_neg h hx hneg hlow]
        exact ⟨fun hkept _ _ _ => hkept, fun hkept => hkept hlow hneg (not_exists.1 hwhole)⟩

theorem position_le (k : ℤ) : position length k ≤ length := by
  rw [position]
  split_ifs <;> omega

theorem sliceEnd_le (h : length < 2 ^ 53) {fallback : ℕ} (hfallback : fallback ≤ length)
    (v : Value) : sliceEnd length fallback v ≤ length := by
  cases v with
  | none => exact hfallback
  | some j =>
    rw [sliceEnd_some]
    cases hx : (ofFloat j.toFloat).value? with
    | none =>
      rw [countedEnd_of_not_finite h hx]
      cases ofFloat j.toFloat with
      | nan => exact Nat.zero_le _
      | infinite => simp only [positionOf]; split_ifs <;> omega
      | finite => exact position_le _
    | some a =>
      rcases le_or_gt 0 a with hnonneg | hneg
      · exact countedEnd_of_nonneg h hx hnonneg ▸ position_le _
      rcases le_or_gt a (-length) with hlow | hlow
      · exact (countedEnd_of_le h hx hneg hlow).1 ▸ Nat.zero_le _
      obtain ⟨c, -, hcounted, -, -, hgreatest⟩ := exists_fromEnd h hx hneg hlow
      have hfloor : ⌊c⌋ ≤ length + ⌈a⌉ := by exact_mod_cast (Int.floor_le c).trans hgreatest
      have hceil : ⌈a⌉ ≤ 0 := Int.ceil_nonpos.2 hneg.le
      rw [hcounted]
      omega

/-! ### Both ends -/

theorem sliceBounds_eq (length : ℕ) (start stop : Value) :
    sliceBounds length start stop =
      (sliceEnd length 0 start, max (sliceEnd length 0 start) (sliceEnd length length stop)) := by
  rw [sliceBounds]
  split_ifs with h
  · rw [max_eq_left h.le]
  · rw [max_eq_right (not_lt.1 h)]

/-- **The ends of a range.** They lie in order within the range, and they are those of the rule just
where the start is counted by the rule and the end is so too, or is not above the start either
way. -/
theorem sliceBounds_spec (h : length < 2 ^ 53) (start stop : Value) :
    (sliceBounds length start stop).1 ≤ (sliceBounds length start stop).2 ∧
    (sliceBounds length start stop).2 ≤ length ∧
    (sliceBounds length start stop = SliceRule.bounds length start stop ↔
      KeptBy length start ∧ (KeptBy length stop ∨
        max (sliceEnd length length stop) (bound length length stop) ≤ bound length 0 start)) := by
  have hstart := sliceEnd_le h (Nat.zero_le _) start
  have hstop := sliceEnd_le h le_rfl stop
  rw [sliceBounds_eq, SliceRule.bounds, ← sliceEnd_eq_bound_iff h 0 start,
    ← sliceEnd_eq_bound_iff h length stop, Prod.mk.injEq]
  refine ⟨le_max_left _ _, max_le hstart hstop, ?_⟩
  refine and_congr_right fun hequal => ?_
  rw [hequal]
  omega

theorem sliceBounds_spec_lastTwo :
    5 < 2 ^ 53 ∧ sliceBounds 5 (some (.num (.int (-2) (by decide)))) none = (3, 5) ∧
      SliceRule.bounds 5 (some (.num (.int (-2) (by decide)))) none = (3, 5) := by
  have hspec := sliceBounds_spec (by decide : 5 < 2 ^ 53) (some (.num (.int (-2) (by decide)))) none
  have hbounds : sliceBounds 5 (some (.num (.int (-2) (by decide)))) none = (3, 5) := by
    decide +kernel
  refine ⟨by decide, hbounds, hspec.2.2.2 ⟨?_, .inl nofun⟩ ▸ hbounds⟩
  intro j a hj ha _ _ hfraction
  cases hj
  exact absurd (Option.some.inj (ha.symm.trans (by decide +kernel))) (hfraction (-2))

/-- Not every range is that of the rule: of five items, the start `-1.5` leaves two in place of
one. -/
theorem not_sliceBounds_spec :
    ¬ ∀ (length : ℕ) (start stop : Value),
      (sliceBounds length start stop).1 ≤ (sliceBounds length start stop).2 ∧
      (sliceBounds length start stop).2 ≤ length ∧
      sliceBounds length start stop = SliceRule.bounds length start stop := by
  intro h
  have hequal := (h 5 (some (.num (.float (-1.5) (by decide +kernel)))) none).2.2
  exact absurd hequal (by decide +kernel)

end SchemaCanvas
