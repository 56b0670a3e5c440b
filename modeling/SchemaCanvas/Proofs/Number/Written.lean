import SchemaCanvas.Expr.Value
import SchemaCanvas.Proofs.Json.Numeral
import SchemaCanvas.Proofs.Number.Rounding
import Mathlib.Data.List.DropRight

/-!
# The text of a number

A number that stands for an integer below `10 ^ 21` is written as an integer of 64 bits with a sign.
An integer of JSON that needs the sixty-fourth bit is written by way of its nearest float, and a
float is cut at the bounds. Other floats are written as the shortest decimal, which has digits
because the reals that read back as a float other than zero are above zero.

* `Json.numberText_of_whole?` : an integer is written cut to 64 bits with a sign;
* `Decimal.exists_shortest_eq` : the shortest decimal of a float is not the zero digit;
* `Json.numberText_spec` : the text has the characters of numerals, and is the zero digit for zero.
-/

namespace SchemaCanvas

/-- The integer a number stands for, if it stands for one. -/
def Number.whole? : Number → Option Int
  | int n _ => some n
  | float f _ => (Binary.ofFloat f).whole?

/-- An integer cut to 64 bits with a sign. -/
def Word.cut (n : Int) : Int := max Word.minSigned (min Word.maxSigned n)

namespace Word

theorem cut_eq_self_iff {n : Int} : cut n = n ↔ minSigned ≤ n ∧ n ≤ maxSigned := by
  rw [cut, minSigned, maxSigned]
  omega

theorem cut_eq_zero_iff {n : Int} : cut n = 0 ↔ n = 0 := by
  rw [cut, minSigned, maxSigned]
  omega

theorem cut_of_le {n : Int} (h : maxSigned ≤ n) : cut n = maxSigned := by
  rw [cut, minSigned]
  rw [maxSigned] at *
  omega

end Word

/-! ### The text of an integer -/

variable {k : Int}

theorem Binary.clamp_of_whole? (low high : Int) {v : Binary} (h : v.whole? = some k) :
    v.clamp low high = max low (min high k) := by
  cases v with
  | nan | infinite => cases h
  | finite negative m e =>
    rw [whole?] at h
    split at h
    · cases h
      rfl
    · cases h

theorem floatText_of_whole? {f : Float} (h : (Binary.ofFloat f).whole? = some k)
    (hk : k.natAbs < Nat.pow 10 21) : floatText f = toString (Word.cut k) := by
  have hclamp := Binary.clamp_of_whole? Word.minSigned Word.maxSigned h
  rw [floatText]
  cases hb : Binary.ofFloat f with
  | nan | infinite => rw [hb] at h; cases h
  | finite negative m e =>
    rw [hb] at h hclamp
    simp only [h, if_pos hk, hclamp, Word.cut]

/-- The nearest float of an integer that needs the sixty-fourth bit stands for an integer that needs
it too, or for the power of two above. -/
theorem exists_whole?_ofInt {n : Int} (hlow : Word.maxSigned < n) (hhigh : n ≤ Word.maxUnsigned) :
    ∃ k, (Binary.ofFloat (Float.ofInt n)).whole? = some k ∧ Word.maxSigned < k ∧
      k ≤ Word.maxUnsigned + 1 := by
  rw [Word.maxSigned] at *
  rw [Word.maxUnsigned] at *
  have hlog : n.natAbs.log2 = 63 := (Nat.log2_eq_iff (by omega)).2 ⟨by omega, by omega⟩
  obtain ⟨m, e, hfinite, hm, hm', he⟩ := Binary.ofFloat_ofInt (n := n) (by omega) (by omega)
  have hsign : decide (n < 0) = false := decide_eq_false (by omega)
  rw [hlog] at he
  rw [hfinite, hsign]
  obtain rfl | ⟨rfl, rfl⟩ := he
  · refine ⟨(m * 2 ^ 11 : Nat), ?_, by omega, by omega⟩
    rw [← Nat.shiftLeft_eq]
    rfl
  · exact ⟨0x10000000000000000, rfl, by decide, by decide⟩

/-- An integer is written by way of its nearest float if it needs the sixty-fourth bit. -/
theorem Json.numberText_int {n : Int} (h : Word.minSigned ≤ n ∧ n ≤ Word.maxUnsigned) :
    numberText (.int n h) =
      if n ≤ Word.maxSigned then toString n else floatText (Float.ofInt n) := by
  rw [numberText, Number.toInt?]
  split
  · next k hk =>
    split at hk
    · next hle =>
      cases hk
      rw [if_pos hle]
    · cases hk
  · next hk =>
    split at hk
    · cases hk
    · next hlt => exact (if_neg hlt).symm

/-- **A number that stands for an integer is written as the integer cut to 64 bits with a sign.** -/
theorem Json.numberText_of_whole? {n : Number} (h : n.whole? = some k)
    (hk : k.natAbs < Nat.pow 10 21) : numberText n = toString (Word.cut k) := by
  cases n with
  | int i hi =>
    cases h
    rw [numberText_int]
    split
    · next hle => rw [Word.cut_eq_self_iff.2 ⟨hi.1, hle⟩]
    · next hlt =>
      have hlt := Int.not_le.1 hlt
      obtain ⟨k', hk', hlow, hhigh⟩ := exists_whole?_ofInt hlt hi.2
      have hsmall : k'.natAbs < Nat.pow 10 21 := by
        rw [Word.maxSigned] at hlow
        rw [Word.maxUnsigned] at hhigh
        change k'.natAbs < 1000000000000000000000
        omega
      rw [floatText_of_whole? hk' hsmall, Word.cut_of_le hlow.le, Word.cut_of_le hlt.le]
  | float f hf => exact floatText_of_whole? h hk

/-! ### Numerals -/

namespace Text

/-- A character of a number in plain text. -/
def isNumeric (c : Char) : Bool := c.isDigit || c == '.' || c == '-'

/-- A text made of the characters of numbers. -/
def IsNumeral (s : String) : Prop := s.toList ≠ [] ∧ ∀ c ∈ s.toList, isNumeric c

theorem isNumeric_of_isDigit {c : Char} (h : c.isDigit) : isNumeric c := by
  rw [isNumeric, h]
  rfl

theorem IsNumeral.sign {s : String} (h : IsNumeral s) (negative : Bool) :
    IsNumeral ((if negative then "-" else "") ++ s) := by
  cases negative with
  | false => rwa [if_neg (by decide), String.empty_append]
  | true =>
    refine ⟨by simp, fun c hc => ?_⟩
    rw [if_pos rfl, String.toList_append, List.mem_append] at hc
    obtain hc | hc := hc
    · obtain rfl : c = '-' := by simpa using hc
      rfl
    · exact h.2 c hc

theorem sign_ne_zero {s : String} (negative : Bool) (h : s ≠ "0") :
    (if negative then "-" else "") ++ s ≠ "0" := by
  cases negative with
  | false => rwa [if_neg (by decide), String.empty_append]
  | true =>
    intro heq
    have := congrArg String.toList heq
    rw [if_pos rfl, String.toList_append] at this
    simp at this

end Text

/-! ### The shortest decimal -/

namespace Span

variable {s : Span} {tie : Tie} {place : Int}

theorem contains_of_nearest? {x : Nat} (h : s.nearest? tie place = some x) :
    s.contains place x = true := by
  rw [nearest?.eq_def] at h
  dsimp only at h
  split at h
  · cases h
  · next hn _ => cases h; exact hn
  · next _ hn => cases h; exact hn
  · next hn hn' =>
    -- whichever of the two neighbours is taken, both lie in the span
    have hx : x = s.value * factor place / s.step place ∨
        x = s.value * factor place / s.step place + 1 := by
      repeat' split at h
      all_goals cases h; simp
    obtain rfl | rfl := hx
    · exact hn
    · exact hn'

theorem factor_pos (place : Int) : 0 < factor place := by
  rw [factor]
  split
  · exact Nat.one_pos
  · exact Nat.pow_pos (by decide)

theorem contains_zero (h : 0 < s.low) : s.contains place 0 = false := by
  have hlow : 0 < s.low * factor place := Nat.mul_pos h (factor_pos place)
  rw [contains, Nat.zero_mul]
  split
  · simp [Nat.not_le_of_lt hlow]
  · simp

theorem low_ofBinary {m : Nat} (hm : m ≠ 0) (e : Int) : 0 < (ofBinary m e).low := by
  have hpos : 0 < 4 * m - (if m = 0x10000000000000 ∧ -1074 < e then 1 else 2) := by
    split <;> omega
  rw [ofBinary]
  dsimp only
  split
  · rw [Nat.shiftLeft_eq]
    exact Nat.mul_pos hpos (Nat.two_pow_pos _)
  · exact hpos

theorem den_ofBinary (m : Nat) (e : Int) : 0 < (ofBinary m e).den := by
  rw [ofBinary]
  dsimp only
  split
  · exact Nat.one_pos
  · rw [Nat.shiftLeft_eq, Nat.one_mul]
    exact Nat.two_pow_pos _

theorem leadingBelow_le (value den fuel : Nat) (place : Int) :
    leadingBelow value den fuel place ≤ place := by
  induction fuel generalizing value place with
  | zero => exact Int.le_refl _
  | succ fuel ih =>
    rw [leadingBelow]
    split
    · exact Int.le_refl _
    · have := ih (value * 10) (place - 1)
      omega

end Span

namespace Decimal

/-- **The shortest decimal is not the zero digit.** -/
theorem exists_shortest_eq (tie : Tie) {m : Nat} (hm : m ≠ 0) (e : Int) :
    ∃ n place, shortest tie m e = ofGrid n place ∧ (n ≠ 0 ∨ place ≠ 0) := by
  rw [shortest]
  split
  · next d h =>
    obtain ⟨i, -, hi⟩ := List.exists_of_findSome?_eq_some h
    obtain ⟨x, hx, rfl⟩ := Option.map_eq_some_iff.1 hi
    refine ⟨x, _, rfl, .inl ?_⟩
    rintro rfl
    have := Span.contains_of_nearest? hx
    rw [Span.contains_zero (Span.low_ofBinary hm e)] at this
    cases this
  · -- a last digit that stands for ones belongs to a value above one
    refine ⟨_, _, rfl, ?_⟩
    by_contra hzero
    rw [not_or, Ne, Ne, not_not, not_not] at hzero
    obtain ⟨hn, hplace⟩ := hzero
    rw [hplace, Nat.div_eq_zero_iff] at hn
    have hbelow : (Span.ofBinary m e).value < (Span.ofBinary m e).den := by
      have := Span.den_ofBinary m e
      simpa [Span.factor, Span.step, Nat.ne_of_gt this] using hn
    have hleading := Span.leadingBelow_le (Span.ofBinary m e).value (Span.ofBinary m e).den 324 (-1)
    rw [Span.leading, if_neg (Nat.not_le_of_lt hbelow)] at hplace
    omega

variable {n : Nat} {place : Int}

theorem digits_ofGrid : (ofGrid n place).digits = (Nat.toDigits 10 n).rdropWhile (· == '0') := rfl

theorem isDigit_of_mem_ofGrid {c : Char} (h : c ∈ (ofGrid n place).digits) : c.isDigit :=
  Document.isDigit_of_mem_toDigits c ((List.rdropWhile_prefix _ _).mem h)

theorem head?_ofGrid : (ofGrid n place).digits.head? ≠ some '0' := by
  intro h
  by_cases hn : n = 0
  · subst hn
    cases h
  · have hprefix : (ofGrid n place).digits <+: Nat.toDigits 10 n := List.rdropWhile_prefix _ _
    obtain ⟨rest, hrest⟩ := hprefix
    apply Document.head?_toDigits_ne (Nat.pos_of_ne_zero hn)
    rw [← hrest, List.head?_append, h]
    rfl

theorem digits_ofGrid_eq_nil_iff : (ofGrid n place).digits = [] ↔ n = 0 := by
  constructor
  · intro h
    by_contra hn
    have hzeros := List.rdropWhile_eq_nil_iff.1 (digits_ofGrid.symm.trans h)
    cases hdigits : Nat.toDigits 10 n with
    | nil => exact Nat.toDigits_ne_nil hdigits
    | cons c rest =>
      have hc := hzeros c (by rw [hdigits]; exact List.mem_cons_self)
      apply Document.head?_toDigits_ne (Nat.pos_of_ne_zero hn)
      rw [hdigits, List.head?_cons, eq_of_beq hc]
  · rintro rfl
    rfl

theorem point_ofGrid_zero : (ofGrid 0 place).point = 1 + place := rfl

end Decimal

namespace FloatStyle

open Text

/-- The characters of a decimal: a fraction, an integer or an integer with a fraction. -/
theorem toList_positionalText (d : Decimal) : (plain.positionalText d).toList =
    if d.point ≤ 0 then '0' :: '.' :: (List.replicate (-d.point).toNat '0' ++ d.digits)
    else if d.digits.length ≤ d.point.toNat then
      d.digits ++ List.replicate (d.point.toNat - d.digits.length) '0'
    else d.digits.take d.point.toNat ++ '.' :: d.digits.drop d.point.toNat := by
  rw [positionalText]
  split
  · simp [String.toList_append]
  · split
    · simp [String.toList_append, plain]
    · simp [String.toList_append]

theorem isNumeral_positionalText {d : Decimal} (h : ∀ c ∈ d.digits, c.isDigit) :
    IsNumeral (plain.positionalText d) := by
  have hzero (k : Nat) : ∀ c ∈ List.replicate k '0', isNumeric c := fun c hc =>
    List.eq_of_mem_replicate hc ▸ rfl
  have hdigits : ∀ c ∈ d.digits, isNumeric c := fun c hc => isNumeric_of_isDigit (h c hc)
  rw [IsNumeral, toList_positionalText]
  split
  · refine ⟨List.cons_ne_nil _ _, ?_⟩
    exact List.forall_mem_cons.2 ⟨rfl, List.forall_mem_cons.2
      ⟨rfl, List.forall_mem_append.2 ⟨hzero _, hdigits⟩⟩⟩
  · split
    · refine ⟨fun hnil => ?_, List.forall_mem_append.2 ⟨hdigits, hzero _⟩⟩
      have := congrArg List.length hnil
      simp only [List.length_append, List.length_replicate, List.length_nil] at this
      omega
    · refine ⟨by simp, List.forall_mem_append.2 ⟨fun c hc => ?_, List.forall_mem_cons.2 ⟨rfl, ?_⟩⟩⟩
      · exact hdigits c (List.mem_of_mem_take hc)
      · exact fun c hc => hdigits c (List.mem_of_mem_drop hc)

theorem positionalText_ofGrid_ne {n : Nat} {place : Int} (h : n ≠ 0 ∨ place ≠ 0) :
    plain.positionalText (Decimal.ofGrid n place) ≠ "0" := by
  intro heq
  have hlist := (toList_positionalText _).symm.trans (congrArg String.toList heq)
  change _ = ['0'] at hlist
  split at hlist
  · cases hlist
  · split at hlist
    · cases hdigits : (Decimal.ofGrid n place).digits with
      | nil =>
        obtain rfl := Decimal.digits_ofGrid_eq_nil_iff.1 hdigits
        have := congrArg List.length hlist
        rw [hdigits, Decimal.point_ofGrid_zero] at this
        simp only [List.nil_append, List.length_replicate, List.length_cons, List.length_nil]
          at this
        omega
      | cons c rest =>
        have hhead : (Decimal.ofGrid n place).digits.head? ≠ some '0' := Decimal.head?_ofGrid
        rw [hdigits] at hlist hhead
        exact hhead (congrArg List.head? hlist)
    · have : '.' ∈ ['0'] := hlist ▸ List.mem_append_right _ List.mem_cons_self
      cases this with | tail _ h => cases h

/-- **A float that is not zero is written as a numeral other than the zero digit.** -/
theorem write_plain {f : Float} {negative : Bool} {m : Nat} {e : Int}
    (h : Binary.ofFloat f = .finite negative m e) (hm : m ≠ 0) :
    IsNumeral (plain.write f) ∧ plain.write f ≠ "0" := by
  obtain ⟨n, place, hshortest, hzero⟩ := Decimal.exists_shortest_eq plain.tie hm e
  have htext : plain.write f =
      (if negative then "-" else "") ++ plain.positionalText (Decimal.ofGrid n place) := by
    rw [write, h]
    dsimp only
    rw [if_neg hm, decimalText, hshortest]
    rfl
  rw [htext]
  exact ⟨(isNumeral_positionalText fun _ => Decimal.isDigit_of_mem_ofGrid).sign _,
    sign_ne_zero _ (positionalText_ofGrid_ne hzero)⟩

example : plain.write 1.5e-7 = "0.00000015" := by decide +kernel

end FloatStyle

/-! ### Numbers -/

theorem Text.isNumeral_toString (i : Int) : IsNumeral (toString i) := by
  have hrepr (n : Nat) : IsNumeral n.repr := by
    rw [IsNumeral, Nat.toList_repr]
    exact ⟨Nat.toDigits_ne_nil, fun c hc =>
      isNumeric_of_isDigit (Document.isDigit_of_mem_toDigits c hc)⟩
  cases i with
  | ofNat n => exact hrepr n
  | negSucc n => exact (hrepr (n + 1)).sign true

theorem toString_eq_zero_iff {i : Int} : toString i = "0" ↔ i = 0 :=
  ⟨fun h => Int.repr_injective h, fun h => h ▸ rfl⟩

theorem Binary.whole?_zero (negative : Bool) (e : Int) : (finite negative 0 e).whole? = some 0 := by
  simp [whole?, isWhole, wholePart, signed]

theorem Binary.eq_zero_iff_of_whole? {negative : Bool} {m : Nat} {e k : Int}
    (h : (finite negative m e).whole? = some k) : k = 0 ↔ m = 0 := by
  rw [whole?] at h
  split at h
  · next hwhole =>
    cases h
    have hpart : wholePart m e = 0 ↔ m = 0 := by
      rw [wholePart]
      split
      · rw [Nat.shiftLeft_eq, Nat.mul_eq_zero]
        exact ⟨fun h => h.resolve_right (Nat.two_pow_pos _).ne', .inl⟩
      · next hneg =>
        rw [isWhole, Bool.or_eq_true, decide_eq_true_eq, beq_iff_eq, Nat.shiftLeft_eq,
          Nat.one_mul] at hwhole
        rw [Nat.shiftRight_eq_div_pow]
        have := Nat.div_add_mod m (2 ^ (-e).toNat)
        rw [hwhole.resolve_left hneg] at this
        exact ⟨fun hzero => by rw [hzero] at this; omega, fun hzero => by rw [hzero, Nat.zero_div]⟩
    rw [signed, ← hpart]
    split <;> omega
  · cases h

/-- The text of a finite float is a numeral, and the zero digit for zero. -/
theorem floatText_spec {f : Float} {negative : Bool} {m : Nat} {e : Int}
    (h : Binary.ofFloat f = .finite negative m e) :
    Text.IsNumeral (floatText f) ∧ (floatText f = "0" ↔ m = 0) := by
  by_cases hwhole : ∃ k, (Binary.ofFloat f).whole? = some k ∧ k.natAbs < Nat.pow 10 21
  · obtain ⟨k, hk, hsmall⟩ := hwhole
    rw [floatText_of_whole? hk hsmall, toString_eq_zero_iff, Word.cut_eq_zero_iff]
    rw [h] at hk
    exact ⟨Text.isNumeral_toString _, Binary.eq_zero_iff_of_whole? hk⟩
  · have hm : m ≠ 0 := fun hm => hwhole ⟨0, by rw [h, hm, Binary.whole?_zero], by decide⟩
    have htext : floatText f = FloatStyle.plain.write f := by
      rw [floatText, h]
      dsimp only
      rw [← h]
      split
      · next k hk => exact if_neg fun hsmall => hwhole ⟨k, hk, hsmall⟩
      · rfl
    obtain ⟨hnumeral, hne⟩ := FloatStyle.write_plain h hm
    rw [htext]
    exact ⟨hnumeral, iff_of_false hne hm⟩

/-- **The text of a number is a numeral, and the zero digit for zero.** -/
theorem Json.numberText_spec (n : Number) :
    Text.IsNumeral (numberText n) ∧ (numberText n = "0" ↔ (n.toFloat == 0) = true) := by
  obtain ⟨_, _, _, hfinite⟩ := n.exists_ofFloat_toFloat
  have hfloat := floatText_spec hfinite
  rw [← Binary.beq_zero_iff hfinite] at hfloat
  cases n with
  | int i hi =>
    rw [numberText_int]
    split
    · rw [Word.minSigned, Word.maxUnsigned] at hi
      obtain ⟨_, _, _, hfinite, hzero⟩ := Binary.exists_ofFloat_ofInt (n := i) (by omega)
      rw [Number.toFloat, Binary.beq_zero_iff hfinite, hzero]
      exact ⟨Text.isNumeral_toString i, toString_eq_zero_iff⟩
    · exact hfloat
  | float f hf => exact hfloat

end SchemaCanvas
