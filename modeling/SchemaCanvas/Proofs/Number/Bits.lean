import SchemaCanvas.Proofs.Expr.Canonical
import Mathlib

/-!
# Floats made from bits

A float is made from a pattern of bits by taking the pattern apart and putting it together again,
which changes only what is no number. So a finite float has the bits that it was made from, and the
float of a small integer stands for that integer.

* `Binary.toBits_ofBits` : the bits of a finite float;
* `Binary.whole?_toFloat` : the integer for which the float of an integer stands;
* `Json.computed_spelled` : a number in an expression is spelled as it is read.
-/

namespace SchemaCanvas

open Float.Model Float.Model.UnpackedFloat

namespace Binary

/-- **A finite float has the bits that it was made from.** -/
theorem toBits_ofBits {bits : UInt64} (h : (bits.toNat >>> 52) % 2048 ≠ 2047) :
    (Float.ofBits bits).toBits = bits := by
  -- only infinities and what is no number have an exponent of ones
  have hexponent : @unpackExponent .binary64 bits.toBitVec ≠ -1#11 := by
    intro heq
    have hfield := congrArg BitVec.toNat heq
    rw [unpackExponent, BitVec.toNat_cast, BitVec.extractLsb_toNat] at hfield
    exact h hfield
  have hnumber : ¬ @isNaNBits .binary64 bits.toBitVec := fun hnan =>
    hexponent (of_decide_eq_true hnan).1
  have hpack := @pack_unpack .binary64 bits.toBitVec (by decide)
  exact congrArg UInt64.ofBitVec (hpack.trans (if_neg hnumber))

theorem ofFloat_ofBits {bits : UInt64} {negative : Bool} {field fraction : Nat}
    (hbits : bits.toNat =
      (if negative then 0x8000000000000000 else 0) + (field * 0x10000000000000 + fraction))
    (hfield : field < 2047) (hfraction : fraction < 0x10000000000000) :
    ofFloat (Float.ofBits bits) =
      if field = 0 then finite negative fraction (-1074)
      else finite negative (0x10000000000000 + fraction) ((field : Int) - 1075) := by
  have hsign : decide (0x8000000000000000 ≤ bits.toNat) = negative := by
    rw [hbits]
    cases negative
    · simp
      omega
    · simp
  have hshift : (bits.toNat >>> 52) % 2048 = field := by
    rw [hbits, Nat.shiftRight_eq_div_pow]
    split <;> omega
  have hrest : bits.toNat % 0x10000000000000 = fraction := by
    rw [hbits]
    split <;> omega
  have hne : (bits.toNat >>> 52) % 2048 ≠ 2047 := by omega
  simp only [ofFloat, toBits_ofBits hne, hsign, hshift, hrest]
  rw [if_neg (by omega)]

/-! ### Integers -/

theorem isWhole_shiftLeft (m shift : Nat) : isWhole (m <<< shift) (-(shift : Int)) := by
  rw [isWhole, Bool.or_eq_true, Nat.shiftLeft_eq, Nat.shiftLeft_eq]
  exact .inr (by simp)

theorem wholePart_shiftLeft (m shift : Nat) : wholePart (m <<< shift) (-(shift : Int)) = m := by
  rw [wholePart]
  split
  · have hzero : shift = 0 := by omega
    subst hzero
    simp
  · simp [Nat.shiftLeft_shiftRight]

/-- An integer below `2 ^ 53` is shifted up to 53 bits, and the first of them is left out. -/
theorem exists_finiteBits {m : Nat} (hpos : m ≠ 0) (hm : m < 0x20000000000000) :
    ∃ shift ≤ 52, ∃ fraction < 0x10000000000000, m <<< shift = 0x10000000000000 + fraction ∧
      finiteBits m 0 = (1075 - shift) * 0x10000000000000 + fraction := by
  obtain ⟨hlow, hhigh⟩ := (Nat.log2_eq_iff hpos).1 (rfl : m.log2 = m.log2)
  have hlog : m.log2 < 53 := (Nat.log2_lt hpos).2 hm
  have hpow : 2 ^ m.log2 * 2 ^ (52 - m.log2) = 0x10000000000000 := by
    rw [← Nat.pow_add, show m.log2 + (52 - m.log2) = 52 by omega]
  have hleast : 0x10000000000000 ≤ m <<< (52 - m.log2) := by
    rw [Nat.shiftLeft_eq, ← hpow]
    exact Nat.mul_le_mul_right _ hlow
  have hgreatest : m <<< (52 - m.log2) < 0x20000000000000 := by
    have := (Nat.mul_lt_mul_right (Nat.two_pow_pos (52 - m.log2))).2 hhigh
    rw [Nat.pow_succ, Nat.mul_right_comm, hpow] at this
    rwa [Nat.shiftLeft_eq]
  obtain ⟨fraction, hfraction⟩ := Nat.exists_eq_add_of_le hleast
  refine ⟨52 - m.log2, Nat.sub_le _ _, fraction, by omega, hfraction, ?_⟩
  have htop : ((0 : Int) - (52 - m.log2 : Nat) + 1074).toNat = 1074 - (52 - m.log2) := by omega
  simp only [finiteBits, if_neg hpos, htop]
  rw [if_pos (by omega), hfraction, Nat.shiftLeft_eq]
  omega

theorem whole?_toFloat {negative : Bool} {m : Nat} (hm : m < 0x20000000000000) :
    (ofFloat (finite negative m 0).toFloat).whole? = some (signed negative m) := by
  have hword (n : Nat) (hn : n < 0x8000000000000000) :
      (UInt64.ofNat ((if negative then 0x8000000000000000 else 0) + n)).toNat =
        (if negative then 0x8000000000000000 else 0) + n := by
    rw [UInt64.toNat_ofNat']
    split <;> omega
  by_cases hpos : m = 0
  · subst hpos
    have hbits := hword (0 * 0x10000000000000 + 0) (by decide)
    rw [toFloat, finiteBits, if_pos rfl]
    refine (congrArg whole? (ofFloat_ofBits hbits (by decide) (by decide))).trans ?_
    rfl
  · obtain ⟨shift, hshift, fraction, hlt, hfraction, hfinite⟩ := exists_finiteBits hpos hm
    have hbits := hword ((1075 - shift) * 0x10000000000000 + fraction) (by omega)
    rw [toFloat, hfinite, ofFloat_ofBits hbits (by omega) hlt, if_neg (by omega), ← hfraction,
      show ((1075 - shift : Nat) : Int) - 1075 = -(shift : Int) by omega, whole?,
      if_pos (isWhole_shiftLeft m shift), wholePart_shiftLeft]

end Binary

/-! ### Numbers in expressions -/

theorem Binary.signed_natAbs (n : Int) : signed (n < 0) n.natAbs = n := by
  rw [signed]
  split
  · next h =>
    have := of_decide_eq_true h
    omega
  · next h =>
    have := mt decide_eq_true h
    omega

theorem Json.computed_eq_null_or (x : Float) : computed x = .null ∨ ∃ n, computed x = .num n := by
  have hnum (n? : Option Number) :
      (n?.map num).getD null = null ∨ ∃ n, (n?.map num).getD null = num n := by
    cases n? with
    | none => exact .inl rfl
    | some n => exact .inr ⟨n, rfl⟩
  rw [computed]
  split
  · split
    · exact hnum _
    · exact hnum _
  · exact hnum _

theorem Json.cases_of_computed {x : Float} {n : Number} (h : computed x = .num n) :
    (∃ k hk, (Binary.ofFloat x).whole? = some k ∧ k.natAbs < 0x20000000000000 ∧ n = .int k hk) ∨
      ∃ hf, n = .float x hf := by
  have hfloat (h : ofFloat x = .num n) : ∃ hf, n = .float x hf := by
    rw [ofFloat, Number.ofFloat?] at h
    split at h
    · next hf =>
      cases h
      exact ⟨hf, rfl⟩
    · cases h
  rw [computed] at h
  split at h
  · next k hwhole =>
    split at h
    · next hsmall =>
      rw [ofInt, Number.ofInt?] at h
      split at h
      · next hk =>
        cases h
        exact .inl ⟨k, hk, hwhole, hsmall, rfl⟩
      · cases h
    · exact .inr (hfloat h)
  · exact .inr (hfloat h)

/-- **The token of a computed number stands for that number.** -/
theorem Json.computed_spelled {x : Float} {n : Number} (h : computed x = .num n) :
    computed n.spelled = .num n := by
  obtain ⟨k, hk, -, hsmall, rfl⟩ | ⟨hf, rfl⟩ := cases_of_computed h
  · rw [Number.spelled, computed, Binary.whole?_toFloat hsmall, Binary.signed_natAbs]
    simp only [if_pos hsmall, ofInt, Number.ofInt?, dif_pos hk]
    rfl
  · exact h

end SchemaCanvas
