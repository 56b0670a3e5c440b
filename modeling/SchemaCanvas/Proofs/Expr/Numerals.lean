import SchemaCanvas.Expr.Builtin
import SchemaCanvas.Proofs.Expr.Holes
import SchemaCanvas.Proofs.Expr.Scanning
import SchemaCanvas.Proofs.Number.Decimals
import SchemaCanvas.Proofs.Number.Digits

/-!
# Numbers read from text

Three functions of the expression language read a number from text. `Number` reads all of a decimal
numeral. `parseFloat` reads it up to the exponent, so the two agree where the exponent is zero or
left out, and otherwise only on numerals that are read as zero with the exponent and without it.
`parseInt` reads digits as `Number` does, as long as the number has 64 bits with a sign.

* `PlainNumeral` : a decimal numeral, by its parts;
* `PlainNumeral.call_number`, `PlainNumeral.call_parseFloat`, `PlainNumeral.call_parseInt` : what
  the functions make of it;
* `PlainNumeral.readers_agree_iff` : when they agree.
-/

namespace SchemaCanvas

open Numeral

/-! ### Numerals -/

/-- The exponent of a numeral: a letter, a sign that may be left out, and digits. -/
structure PlainExponent where
  letter : Char
  sign : Option Bool
  digits : List Char
  isLetter : letter = 'e' ∨ letter = 'E'
  digits_ne_nil : digits ≠ []
  isDigit_digits : ∀ c ∈ digits, c.isDigit

/-- A decimal numeral: a sign that may be left out, digits, and perhaps a point with a fraction and
an exponent. -/
structure PlainNumeral where
  sign : Option Bool
  whole : List Char
  fraction : Option (List Char)
  exponent : Option PlainExponent
  whole_ne_nil : whole ≠ []
  isDigit_whole : ∀ c ∈ whole, c.isDigit
  isDigit_fraction : ∀ cs ∈ fraction, ∀ c ∈ cs, c.isDigit

/-- A sign as text; `true` is the minus. -/
def signText : Option Bool → List Char
  | none => []
  | some false => ['+']
  | some true => ['-']

namespace PlainExponent

def chars (e : PlainExponent) : List Char := e.letter :: (signText e.sign ++ e.digits)

/-- The integer that an exponent writes. -/
def value (e : PlainExponent) : ℤ := Binary.signed (e.sign = some true) (ofDigits e.digits)

end PlainExponent

namespace PlainNumeral

variable (d : PlainNumeral)

/-- The digits behind the point. -/
def fractionDigits : List Char := d.fraction.getD []

def fractionText : List Char := d.fraction.elim [] ('.' :: ·)

def exponentText : List Char := d.exponent.elim [] PlainExponent.chars

/-- A numeral as text. -/
def text : String :=
  String.ofList (signText d.sign ++ (d.whole ++ (d.fractionText ++ d.exponentText)))

/-- The exponent of a numeral; it is zero if left out. -/
def power : ℤ := d.exponent.elim 0 PlainExponent.value

/-- The numeral up to its exponent. -/
def withoutExponent : PlainNumeral := { d with exponent := none }

/-- All digits but those of the exponent, as a number. -/
def mantissa : ℕ := ofDigits (d.whole ++ d.fractionDigits)

/-- The float that a numeral stands for. -/
def toFloat : Float :=
  let f := scaled d.mantissa (d.power - d.fractionDigits.length)
  if d.sign = some true then -f else f

variable {d}

/-! ### The parts of a numeral -/

theorem exists_whole_eq (d : PlainNumeral) : ∃ c rest, d.whole = c :: rest ∧ c.isDigit := by
  obtain ⟨c, rest, hwhole⟩ := List.exists_cons_of_ne_nil d.whole_ne_nil
  exact ⟨c, rest, hwhole, d.isDigit_whole c (hwhole ▸ List.mem_cons_self)⟩

theorem spanSign_signText {c : Char} (h : c.isDigit) (sign : Option Bool) (rest : List Char) :
    spanSign (signText sign ++ c :: rest) = (decide (sign = some true), c :: rest) := by
  cases sign with
  | none => exact spanSign_of_isDigit h
  | some negative => cases negative <;> rfl

theorem spanDigits_append {cs rest : List Char} (h : ∀ c ∈ cs, c.isDigit)
    (hrest : ∀ c ∈ rest.head?, ¬ c.isDigit) : spanDigits (cs ++ rest) = (cs, rest) := by
  rw [spanDigits, List.takeWhile_append_of_pos h, List.dropWhile_append_of_pos h]
  cases rest with
  | nil => rw [List.takeWhile_nil, List.dropWhile_nil, List.append_nil]
  | cons c rest =>
    have hc := hrest c rfl
    rw [List.takeWhile_cons_of_neg hc, List.dropWhile_cons_of_neg hc, List.append_nil]

theorem eq_of_mem_head?_exponentText {c : Char} (h : c ∈ d.exponentText.head?) :
    c = 'e' ∨ c = 'E' := by
  rw [exponentText] at h
  cases hexponent : d.exponent with
  | none => rw [hexponent] at h; cases h
  | some e =>
    rw [hexponent] at h
    cases h
    exact e.isLetter

theorem not_isDigit_of_mem_head?_exponentText {c : Char} (h : c ∈ d.exponentText.head?) :
    ¬ c.isDigit := by
  obtain rfl | rfl := eq_of_mem_head?_exponentText h <;> decide

theorem exponent?_exponentText (d : PlainNumeral) : exponent? d.exponentText = some d.power := by
  rw [exponentText, power]
  cases d.exponent with
  | none => rfl
  | some e =>
    obtain ⟨c, rest, hdigits⟩ := List.exists_cons_of_ne_nil e.digits_ne_nil
    have hc := e.isDigit_digits c (hdigits ▸ List.mem_cons_self)
    have hall : (e.digits.isEmpty || !e.digits.all Char.isDigit) = false := by
      rw [Bool.or_eq_false_iff, List.isEmpty_eq_false_iff, Bool.not_eq_false', List.all_eq_true]
      exact ⟨e.digits_ne_nil, e.isDigit_digits⟩
    have hspan : spanSign (signText e.sign ++ e.digits) =
        (decide (e.sign = some true), e.digits) := by
      rw [hdigits]
      exact spanSign_signText hc e.sign rest
    simp only [Option.elim_some, PlainExponent.chars, exponent?, if_pos e.isLetter, hspan, hall,
      Bool.false_eq_true, if_false, PlainExponent.value]

theorem unsigned?_parts (d : PlainNumeral) :
    unsigned? (d.whole ++ (d.fractionText ++ d.exponentText)) =
      some (scaled d.mantissa (d.power - d.fractionDigits.length)) := by
  have hwords (word : String) (hword : word.toList.any Char.isDigit = false) :
      (d.whole ++ (d.fractionText ++ d.exponentText)).map Char.toLower ≠ word.toList := by
    obtain ⟨c, rest, hwhole, hc⟩ := d.exists_whole_eq
    rw [hwhole, List.cons_append]
    exact map_toLower_ne hc hword
  have hexponent (c : Char) (h : c ∈ d.exponentText.head?) : ¬ c.isDigit :=
    not_isDigit_of_mem_head?_exponentText h
  have hempty : d.whole.isEmpty = false := List.isEmpty_eq_false_iff.2 d.whole_ne_nil
  unfold unsigned?
  simp only [hwords "inf" rfl, hwords "infinity" rfl, hwords "nan" rfl, or_self, if_false]
  cases hfraction : d.fraction with
  | none =>
    have htext : d.fractionText = [] := by rw [fractionText, hfraction]; rfl
    have hdigits : d.fractionDigits = [] := by rw [fractionDigits, hfraction]; rfl
    have hpower := exponent?_exponentText d
    rw [htext, List.nil_append]
    simp only [spanDigits_append d.isDigit_whole hexponent, hempty, Bool.false_and,
      Bool.false_eq_true, if_false, mantissa, hdigits, List.append_nil, List.length_nil]
    split
    · next r hr =>
      obtain h | h := eq_of_mem_head?_exponentText (d := d) (c := '.') (by rw [hr]; rfl) <;>
        cases h
    · simp only [hpower, Option.map_some, List.append_nil, List.length_nil]
  | some cs =>
    have htext : d.fractionText = '.' :: cs := by rw [fractionText, hfraction]; rfl
    have hdigits : d.fractionDigits = cs := by rw [fractionDigits, hfraction]; rfl
    have hpoint : ∀ c ∈ ('.' :: (cs ++ d.exponentText)).head?, ¬ c.isDigit := by
      rintro _ ⟨⟩
      decide
    rw [htext, List.cons_append]
    simp only [spanDigits_append d.isDigit_whole hpoint,
      spanDigits_append (d.isDigit_fraction cs hfraction) hexponent, hempty, Bool.false_and,
      Bool.false_eq_true, if_false, exponent?_exponentText, Option.map_some, mantissa, hdigits]

/-- **A numeral is read as a whole.** -/
theorem read?_text (d : PlainNumeral) : read? d.text.toList = some d.toFloat := by
  obtain ⟨c, rest, hwhole, hc⟩ := d.exists_whole_eq
  have hspan : spanSign d.text.toList =
      (decide (d.sign = some true), d.whole ++ (d.fractionText ++ d.exponentText)) := by
    rw [text, String.toList_ofList, hwhole, List.cons_append]
    exact spanSign_signText hc _ _
  rw [read?, hspan]
  simp only [unsigned?_parts, Option.map_some, toFloat, decide_eq_true_eq]

/-! ### The functions -/

theorem isBlank_of_mem_text {c : Char} (h : c ∈ d.text.toList) : Text.isBlank c = false := by
  have hsign (sign : Option Bool) (h : c ∈ signText sign) : Text.isBlank c = false := by
    obtain _ | _ | _ := sign <;> simp only [signText, List.mem_singleton, List.not_mem_nil] at h <;>
      subst h <;> decide
  have hfraction (h : c ∈ d.fractionText) : Text.isBlank c = false := by
    rw [fractionText] at h
    cases hcs : d.fraction with
    | none => rw [hcs] at h; cases h
    | some cs =>
      rw [hcs] at h
      obtain rfl | h := List.mem_cons.1 h
      · decide
      · exact Token.isBlank_of_isDigit (d.isDigit_fraction cs hcs c h)
  have hexponent (h : c ∈ d.exponentText) : Text.isBlank c = false := by
    rw [exponentText] at h
    cases he : d.exponent with
    | none => rw [he] at h; cases h
    | some e =>
      rw [he] at h
      obtain rfl | h := List.mem_cons.1 h
      · obtain hletter | hletter := e.isLetter <;> rw [hletter] <;> decide
      · obtain h | h := List.mem_append.1 h
        · exact hsign _ h
        · exact Token.isBlank_of_isDigit (e.isDigit_digits c h)
  simp only [text, String.toList_ofList, List.mem_append] at h
  obtain h | h | h | h := h
  · exact hsign _ h
  · exact Token.isBlank_of_isDigit (d.isDigit_whole c h)
  · exact hfraction h
  · exact hexponent h

theorem textToFloat_text (d : PlainNumeral) : textToFloat d.text = d.toFloat := by
  have hne : d.text.toList.isEmpty = false := by
    simp [text, d.whole_ne_nil]
  rw [textToFloat, Text.trimmed_of_forall fun _ => isBlank_of_mem_text]
  simp only [hne, Bool.false_eq_true, if_false, read?_text, Option.getD_some]

/-- **All of a numeral is read by `Number`.** -/
theorem call_number (d : PlainNumeral) :
    Builtin.call "Number" [some (.str d.text)] = .ok (some (.computed d.toFloat)) := by
  rw [← textToFloat_text]
  rfl

theorem pointedDigits_append {cs : List Char} (h : ∀ c ∈ cs, c.isDigit) (seen : Bool)
    (rest : List Char) :
    Builtin.pointedDigits seen (cs ++ rest) = cs ++ Builtin.pointedDigits seen rest := by
  induction cs with
  | nil => rfl
  | cons c cs ih =>
    rw [List.cons_append, Builtin.pointedDigits, if_pos (h c List.mem_cons_self),
      ih fun c hc => h c (List.mem_cons_of_mem _ hc)]
    rfl

theorem pointedDigits_exponentText (d : PlainNumeral) (seen : Bool) :
    Builtin.pointedDigits seen d.exponentText = [] := by
  cases htext : d.exponentText with
  | nil => rfl
  | cons c rest =>
    obtain rfl | rfl := eq_of_mem_head?_exponentText (d := d) (c := c) (by rw [htext]; rfl) <;> rfl

theorem pointedDigits_parts (d : PlainNumeral) :
    Builtin.pointedDigits false (d.whole ++ (d.fractionText ++ d.exponentText)) =
      d.whole ++ d.fractionText := by
  rw [pointedDigits_append d.isDigit_whole, fractionText]
  cases hfraction : d.fraction with
  | none => exact congrArg (d.whole ++ ·) (pointedDigits_exponentText d false)
  | some cs =>
    have hpoint : Builtin.pointedDigits false ('.' :: (cs ++ d.exponentText)) =
        '.' :: Builtin.pointedDigits true (cs ++ d.exponentText) := rfl
    rw [Option.elim_some, List.cons_append, hpoint,
      pointedDigits_append (d.isDigit_fraction cs hfraction), pointedDigits_exponentText,
      List.append_nil]

theorem trimLeft_text (d : PlainNumeral) : Text.trimLeft d.text.toList = d.text.toList :=
  List.dropWhile_eq_self_iff.2 fun _ =>
    Bool.eq_false_iff.1 (isBlank_of_mem_text (List.getElem_mem _))

/-- The decimal at the start of a numeral is all of it but the exponent. -/
theorem leadingDecimal_text (d : PlainNumeral) :
    Builtin.leadingDecimal d.text.toList = d.withoutExponent.toFloat := by
  have hparts := pointedDigits_parts d
  have hread := read?_text d.withoutExponent
  have htext : d.withoutExponent.text.toList = signText d.sign ++ (d.whole ++ d.fractionText) := by
    rw [text, String.toList_ofList, exponentText]
    exact congrArg (fun cs => signText d.sign ++ (d.whole ++ cs)) (List.append_nil _)
  have hhead {c : Char} {rest : List Char}
      (h : d.whole ++ (d.fractionText ++ d.exponentText) = c :: rest) : c.isDigit := by
    obtain ⟨c', rest', hwhole, hc⟩ := d.exists_whole_eq
    rw [hwhole] at h
    cases h
    exact hc
  have hsigned (sign : Char) : (read? (sign :: Builtin.pointedDigits false
      (d.whole ++ (d.fractionText ++ d.exponentText)))).getD Binary.notANumber =
      (read? (sign :: (d.whole ++ d.fractionText))).getD Binary.notANumber := by
    rw [hparts]
  rw [htext] at hread
  rw [Builtin.leadingDecimal, trimLeft_text, text, String.toList_ofList]
  cases hsign : d.sign with
  | none =>
    rw [hsign] at hread
    split
    · next heq => exact absurd (hhead heq) (by decide)
    · next heq => exact absurd (hhead heq) (by decide)
    · rw [signText, List.nil_append, hparts]
      exact congrArg (Option.getD · Binary.notANumber) hread
  | some negative =>
    rw [hsign] at hread
    cases negative
    · exact (hsigned '+').trans (congrArg (Option.getD · Binary.notANumber) hread)
    · exact (hsigned '-').trans (congrArg (Option.getD · Binary.notANumber) hread)

/-- **A numeral is read without its exponent by `parseFloat`.** -/
theorem call_parseFloat (d : PlainNumeral) :
    Builtin.call "parseFloat" [some (.str d.text)] =
      .ok (some (.computed d.withoutExponent.toFloat)) := by
  rw [← leadingDecimal_text]
  rfl

/-- Digits and nothing else. -/
def IsDigits (d : PlainNumeral) : Prop := d.sign = none ∧ d.fraction = none ∧ d.exponent = none

theorem digitIn?_ten {c : Char} (h : c.isDigit) : Builtin.digitIn? 10 c = some (digit c) := by
  have hrange : '0' ≤ c ∧ c ≤ '9' := by
    simpa [Char.isDigit, Char.le_def] using h
  have hten : digit c < 10 := by
    have : c.toNat ≤ '9'.toNat := hrange.2
    have hnine : '9'.toNat = 57 := rfl
    have hzero : '0'.toNat = 48 := rfl
    rw [digit]
    omega
  rw [Builtin.digitIn?, if_pos hrange]
  exact Option.filter_eq_some_iff.2 ⟨rfl, decide_eq_true hten⟩

theorem digitsIn_ten {cs : List Char} (h : ∀ c ∈ cs, c.isDigit) :
    Builtin.digitsIn 10 cs = cs.map digit := by
  induction cs with
  | nil => rfl
  | cons c cs ih =>
    rw [Builtin.digitsIn, digitIn?_ten (h c List.mem_cons_self),
      ih fun c hc => h c (List.mem_cons_of_mem _ hc)]
    rfl

theorem text_of_isDigits (h : d.IsDigits) : d.text.toList = d.whole := by
  obtain ⟨hsign, hfraction, hexponent⟩ := h
  rw [text, String.toList_ofList, hsign, fractionText, hfraction, exponentText, hexponent]
  exact List.append_nil _

theorem toFloat_of_isDigits (h : d.IsDigits) : d.toFloat = Float.ofNat (ofDigits d.whole) := by
  have hread := read?_text d
  rw [text_of_isDigits h, read?_of_isDigit d.whole_ne_nil d.isDigit_whole] at hread
  exact (Option.some.inj hread).symm

theorem leadingInteger_text (h : d.IsDigits) :
    Builtin.leadingInteger d.text.toList 10 =
      if Word.maxSigned < ofDigits d.whole then Binary.notANumber else d.toFloat := by
  have htrim : Text.trimLeft d.text.toList = d.whole := by
    rw [trimLeft_text, text_of_isDigits h]
  have hspan : spanSign d.whole = (false, d.whole) := by
    obtain ⟨c, rest, hwhole, hc⟩ := d.exists_whole_eq
    rw [hwhole]
    exact spanSign_of_isDigit hc
  have hdigits := digitsIn_ten d.isDigit_whole
  have hempty : (d.whole.map digit).isEmpty = false := by
    rw [List.isEmpty_map, List.isEmpty_eq_false_iff]
    exact d.whole_ne_nil
  have hvalue : (d.whole.map digit).foldl (fun n d => n * 10 + d) 0 = ofDigits d.whole := by
    rw [List.foldl_map, ofDigits]
  rw [toFloat_of_isDigits h]
  simp [Builtin.leadingInteger, htrim, hspan, hdigits, hempty, hvalue]

/-- **Digits are read by `parseInt` if the number has 64 bits with a sign.** -/
theorem call_parseInt (h : d.IsDigits) :
    Builtin.call "parseInt" [some (.str d.text)] =
      .ok (some (if Word.maxSigned < ofDigits d.whole then .null else .computed d.toFloat)) := by
  have hcall : Builtin.call "parseInt" [some (.str d.text)] =
      .ok (some (.computed (Builtin.leadingInteger d.text.toList 10))) := rfl
  have hnull : Json.computed Binary.notANumber = .null := rfl
  rw [hcall, leadingInteger_text h]
  split
  · rw [hnull]
  · rfl

end PlainNumeral

/-! ### Values -/

/-- The rational number for which a number stands. -/
def Number.value? : Number → Option ℚ
  | .int k _ => some k
  | .float f _ => (Binary.ofFloat f).value?

theorem Number.exists_value? (n : Number) : ∃ b, n.value? = some b := by
  cases n with
  | int k _ => exact ⟨k, rfl⟩
  | float f hf =>
    obtain ⟨negative, m, e, hfinite⟩ := Binary.exists_ofFloat_of_isFinite hf
    exact ⟨_, by rw [value?, hfinite]; rfl⟩

theorem Json.value?_of_computed {x : Float} {n : Number} (h : computed x = .num n) :
    n.value? = (Binary.ofFloat x).value? := by
  obtain ⟨k, hk, hwhole, -, rfl⟩ | ⟨hf, rfl⟩ := cases_of_computed h
  · exact (Binary.whole?_eq_some_iff.1 hwhole).symm
  · rfl

theorem Json.eq_zero_of_computed {x : Float} {n : Number} (h : computed x = .num n)
    (hzero : n.value? = some 0) : n = .int 0 (by decide) := by
  rw [value?_of_computed h] at hzero
  have hwhole : (Binary.ofFloat x).whole? = some 0 :=
    Binary.whole?_eq_some_iff.2 (by rw [hzero, Int.cast_zero])
  rw [computed, hwhole] at h
  cases h
  rfl

namespace PlainNumeral

variable {d : PlainNumeral} {n : Number}

/-! ### Agreement -/

/-- A numeral is read as a float near to the number that it writes. -/
theorem near_toFloat {b : ℚ} (h : (Binary.ofFloat d.toFloat).value? = some b) :
    Binary.Near (d.mantissa * 10 ^ (d.power - d.fractionDigits.length)) b := by
  rw [toFloat] at h
  split at h
  · rw [Binary.value?_neg, Option.map_eq_some_iff] at h
    obtain ⟨c, hc, rfl⟩ := h
    have hnear := Binary.near_scaled hc
    rwa [Binary.Near, neg_eq_zero, abs_neg]
  · exact Binary.near_scaled h

/-- Only zeros are read the same with an exponent and without it. -/
theorem power_eq_zero_or (h : Json.computed d.toFloat = .num n)
    (h' : Json.computed d.withoutExponent.toFloat = .num n) :
    d.power = 0 ∨ n = .int 0 (by decide) := by
  refine or_iff_not_imp_left.2 fun hpower => ?_
  obtain ⟨b, hb⟩ := n.exists_value?
  have hnear := near_toFloat ((Json.value?_of_computed h).symm.trans hb)
  have hnear' := near_toFloat ((Json.value?_of_computed h').symm.trans hb)
  have hscaled : (d.mantissa : ℚ) * 10 ^ (d.power - d.fractionDigits.length) =
      d.mantissa * 10 ^ (0 - d.fractionDigits.length : ℤ) * 10 ^ d.power := by
    rw [mul_assoc, ← zpow_add₀ (by norm_num)]
    congr 2
    omega
  rw [hscaled] at hnear
  obtain rfl := Binary.Near.eq_zero hnear' hnear hpower
  exact Json.eq_zero_of_computed h hb

/-- **When a numeral is read the same.** Where `Number` gives a number, `parseFloat` gives it too
exactly if the exponent is zero, or the numeral is read as zero with it and without it; and of
digits only, `parseInt` gives it exactly if they write at most the greatest integer of 64 bits with
a sign. -/
theorem readers_agree_iff (d : PlainNumeral)
    (h : Builtin.call "Number" [some (.str d.text)] = .ok (some (.num n))) :
    (Builtin.call "parseFloat" [some (.str d.text)] = .ok (some (.num n)) ↔
      d.power = 0 ∨ n = .int 0 (by decide) ∧
        Builtin.call "Number" [some (.str d.withoutExponent.text)] = .ok (some (.num n))) ∧
    (d.IsDigits → (Builtin.call "parseInt" [some (.str d.text)] = .ok (some (.num n)) ↔
      ofDigits d.whole ≤ Word.maxSigned)) := by
  rw [call_parseFloat, call_number]
  rw [call_number] at h
  have hread : Json.computed d.toFloat = .num n := Option.some.inj (Except.ok.inj h)
  constructor
  · constructor
    · intro h'
      have hread' := Option.some.inj (Except.ok.inj h')
      exact (power_eq_zero_or hread hread').imp_right fun hzero => ⟨hzero, h'⟩
    · rintro (hpower | ⟨-, h'⟩)
      · have hsame : d.withoutExponent.toFloat = d.toFloat := by
          rw [toFloat, toFloat, hpower]
          rfl
        rw [hsame, hread]
      · exact h'
  · intro hdigits
    rw [call_parseInt hdigits, hread]
    split
    · next hlt => exact iff_of_false (by nofun) (by omega)
    · next hle => exact iff_of_true rfl (by omega)

/-- `2.5` as a numeral. -/
def twoAndAHalf : PlainNumeral where
  sign := none
  whole := ['2']
  fraction := some ['5']
  exponent := none
  whole_ne_nil := by decide
  isDigit_whole := List.all_eq_true.1 rfl
  isDigit_fraction := by
    rintro _ ⟨⟩
    exact List.all_eq_true.1 rfl

theorem readers_agree_iff_twoAndAHalf :
    ∃ n, Builtin.call "Number" [some (.str "2.5")] = .ok (some (.num n)) ∧
      Builtin.call "parseFloat" [some (.str "2.5")] = .ok (some (.num n)) := by
  have hvalue : Json.computed twoAndAHalf.toFloat = .num (.float 2.5 (by decide +kernel)) := rfl
  have h := call_number twoAndAHalf
  rw [hvalue] at h
  exact ⟨_, h, (readers_agree_iff twoAndAHalf h).1.2 (.inl rfl)⟩

/-- `1e3` as a numeral. -/
def thousand : PlainNumeral where
  sign := none
  whole := ['1']
  fraction := none
  exponent := some {
    letter := 'e'
    sign := none
    digits := ['3']
    isLetter := .inl rfl
    digits_ne_nil := by decide
    isDigit_digits := List.all_eq_true.1 rfl }
  whole_ne_nil := by decide
  isDigit_whole := List.all_eq_true.1 rfl
  isDigit_fraction := nofun

/-- The least natural number that needs more than 64 bits with a sign, in digits. -/
def aboveSigned : PlainNumeral where
  sign := none
  whole := "9223372036854775808".toList
  fraction := none
  exponent := none
  whole_ne_nil := by decide
  isDigit_whole := List.all_eq_true.1 rfl
  isDigit_fraction := nofun

/-- Neither `parseFloat` gives what `Number` does on every numeral, nor `parseInt` on all digits. -/
theorem not_readers_agree :
    (¬ ∀ (d : PlainNumeral) (n : Number),
      Builtin.call "Number" [some (.str d.text)] = .ok (some (.num n)) →
      Builtin.call "parseFloat" [some (.str d.text)] = .ok (some (.num n))) ∧
    ¬ ∀ (d : PlainNumeral) (n : Number), d.IsDigits →
      Builtin.call "Number" [some (.str d.text)] = .ok (some (.num n)) →
      Builtin.call "parseInt" [some (.str d.text)] = .ok (some (.num n)) := by
  constructor
  · intro h
    have hvalue : Json.computed thousand.toFloat = .num (.int 1000 (by decide)) := rfl
    have hmantissa : Json.computed thousand.withoutExponent.toFloat = .num (.int 1 (by decide)) :=
      rfl
    have hread := call_number thousand
    rw [hvalue] at hread
    have hfloat := h thousand _ hread
    rw [call_parseFloat, hmantissa] at hfloat
    cases hfloat
  · intro h
    have hdigits : aboveSigned.IsDigits := ⟨rfl, rfl, rfl⟩
    have hvalue : Json.computed aboveSigned.toFloat =
        .num (.float 9223372036854775808 (by decide +kernel)) := rfl
    have hread := call_number aboveSigned
    rw [hvalue] at hread
    have hint := h aboveSigned _ hdigits hread
    rw [call_parseInt hdigits, if_pos (by decide)] at hint
    cases hint

end PlainNumeral

end SchemaCanvas
