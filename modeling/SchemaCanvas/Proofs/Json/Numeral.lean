import SchemaCanvas.Json.Document
import SchemaCanvas.Json.Printer
import Mathlib.Data.List.TakeWhile

/-!
# Numerals in JSON text

A numeral is read up to the first character with which it cannot go on, so what follows it in the
text does not change its value. Integers are read back as they were written; of a float this is an
assumption, `Number.Readable`, since its digits are scaled in floating-point arithmetic.

* `Document.numeral?_append` : a numeral is read in the same way in front of other text;
* `Number.readable_int` : an integer is read back as it was written.
-/

namespace SchemaCanvas

namespace Document

/-- A numeral does not go on with this text. -/
def EndsNumeral (rest : List Char) : Prop :=
  ∀ c ∈ rest.head?, ¬ c.isDigit ∧ c ≠ '.' ∧ c ≠ 'e' ∧ c ≠ 'E'

variable {cs rest r : List Char}

theorem endsNumeral_nil : EndsNumeral [] := nofun

theorem endsNumeral_cons {c : Char} : EndsNumeral (c :: rest) ↔
    ¬ c.isDigit ∧ c ≠ '.' ∧ c ≠ 'e' ∧ c ≠ 'E' := by
  simp [EndsNumeral]

/-! ### The parts of a numeral -/

theorem spanDigits_append (hrest : EndsNumeral rest) (cs : List Char) :
    Numeral.spanDigits (cs ++ rest) =
      ((Numeral.spanDigits cs).1, (Numeral.spanDigits cs).2 ++ rest) := by
  simp only [Numeral.spanDigits, Prod.mk.injEq]
  induction cs with
  | nil =>
    cases rest with
    | nil => exact ⟨rfl, rfl⟩
    | cons c rest =>
      obtain ⟨hc, -⟩ := endsNumeral_cons.1 hrest
      simp [hc]
  | cons c cs ih =>
    obtain ⟨htake, hdrop⟩ := ih
    by_cases hc : c.isDigit
    · simp [hc, htake, hdrop]
    · simp [hc]

theorem sign_append (h : cs ≠ []) : sign (cs ++ rest) = ((sign cs).1, (sign cs).2 ++ rest) := by
  cases cs with
  | nil => exact absurd rfl h
  | cons c cs =>
    by_cases hc : c = '-'
    · subst hc
      rfl
    · simp [sign, hc]

theorem spanSign_append (h : cs ≠ []) :
    Numeral.spanSign (cs ++ rest) =
      ((Numeral.spanSign cs).1, (Numeral.spanSign cs).2 ++ rest) := by
  cases cs with
  | nil => exact absurd rfl h
  | cons c cs =>
    by_cases hminus : c = '-'
    · subst hminus
      rfl
    · by_cases hplus : c = '+'
      · subst hplus
        rfl
      · simp [Numeral.spanSign, hminus, hplus]

theorem whole?_append (hrest : EndsNumeral rest) {digits : List Char}
    (h : whole? cs = some (digits, r)) : whole? (cs ++ rest) = some (digits, r ++ rest) := by
  cases cs with
  | nil => cases h
  | cons c cs =>
    by_cases hc : c = '0'
    · subst hc
      cases h
      rfl
    · have hwhole (cs : List Char) : whole? (c :: cs) =
          if (Numeral.spanDigits (c :: cs)).1.isEmpty then none
          else some (Numeral.spanDigits (c :: cs)) := by
        simp [whole?, hc]
      rw [List.cons_append, hwhole, ← List.cons_append, spanDigits_append hrest]
      rw [hwhole] at h
      split at h
      · cases h
      · next hdigits =>
        rw [if_neg hdigits, Option.some.inj h]

theorem fraction?_append (hrest : EndsNumeral rest) {fraction : Option (List Char)}
    (h : fraction? cs = some (fraction, r)) :
    fraction? (cs ++ rest) = some (fraction, r ++ rest) := by
  cases cs with
  | nil =>
    cases h
    cases rest with
    | nil => rfl
    | cons c rest =>
      obtain ⟨-, hpoint, -⟩ := endsNumeral_cons.1 hrest
      simp [fraction?, hpoint]
  | cons c cs =>
    by_cases hc : c = '.'
    · subst hc
      simp only [fraction?] at h
      simp only [List.cons_append, fraction?, spanDigits_append hrest]
      split at h
      · cases h
      · next hdigits =>
        obtain ⟨rfl, rfl⟩ := Prod.mk.inj (Option.some.inj h)
        rw [if_neg hdigits]
    · have hfraction (cs : List Char) : fraction? (c :: cs) = some (none, c :: cs) := by
        simp [fraction?, hc]
      rw [hfraction] at h
      cases h
      exact hfraction _

theorem exponent?_append (hrest : EndsNumeral rest) {exponent : Option Int}
    (h : exponent? cs = some (exponent, r)) :
    exponent? (cs ++ rest) = some (exponent, r ++ rest) := by
  cases cs with
  | nil =>
    cases h
    cases rest with
    | nil => rfl
    | cons c rest =>
      obtain ⟨-, -, he⟩ := endsNumeral_cons.1 hrest
      rw [List.nil_append, exponent?, if_neg (not_or.2 he)]
  | cons c cs =>
    rw [exponent?] at h
    rw [List.cons_append, exponent?]
    split at h
    · next hc =>
      rw [if_pos hc]
      have hne : cs ≠ [] := by
        rintro rfl
        cases h
      simp only [] at h
      simp only [spanSign_append hne, spanDigits_append hrest]
      split at h
      · cases h
      · next hdigits =>
        obtain ⟨rfl, rfl⟩ := Prod.mk.inj (Option.some.inj h)
        rw [if_neg hdigits]
    · next hc =>
      cases h
      rw [if_neg hc, List.cons_append]

/-- **What follows a numeral does not change its value.** -/
theorem numeral?_append (hrest : EndsNumeral rest) {d : Document}
    (h : numeral? cs = some (d, r)) : numeral? (cs ++ rest) = some (d, r ++ rest) := by
  simp only [numeral?, Option.bind_eq_bind, Option.bind_eq_some_iff] at h ⊢
  obtain ⟨whole, hwhole, fraction, hfraction, exponent, hexponent, heq⟩ := h
  have hne : cs ≠ [] := by
    rintro rfl
    cases hwhole
  rw [sign_append hne]
  obtain ⟨rfl, rfl⟩ := Prod.mk.inj (Option.some.inj heq)
  exact ⟨_, whole?_append hrest hwhole, _, fraction?_append hrest hfraction, _,
    exponent?_append hrest hexponent, rfl⟩

/-! ### Decimal digits -/

theorem le_ofDigitChars (cs : List Char) (s : Nat) : s ≤ Nat.ofDigitChars 10 cs s := by
  rw [Nat.ofDigitChars_eq_ofDigitChars_zero]
  have hpow : 0 < 10 ^ cs.length := Nat.pow_pos (by decide)
  have hs : s ≤ 10 ^ cs.length * s := Nat.le_mul_of_pos_left s hpow
  omega

/-- All digits of a number of 64 bits are significant. -/
theorem significand_eq {s : Nat} (h : Nat.ofDigitChars 10 cs s ≤ Word.maxUnsigned) :
    significand s cs = (Nat.ofDigitChars 10 cs s, []) := by
  induction cs generalizing s with
  | nil => simp [significand]
  | cons c cs ih =>
    have hnext : Nat.ofDigitChars 10 (c :: cs) s =
        Nat.ofDigitChars 10 cs (s * 10 + Numeral.digit c) := by
      rw [Nat.ofDigitChars_cons, Nat.mul_comm 10, Numeral.digit]
    rw [hnext] at h ⊢
    have hle := le_ofDigitChars cs (s * 10 + Numeral.digit c)
    rw [significand, if_pos (by omega), ih h]

theorem head?_toDigits_ne {n : Nat} (h : 0 < n) : (Nat.toDigits 10 n).head? ≠ some '0' := by
  induction n using Nat.strongRecOn with
  | ind n ih =>
    by_cases hn : n < 10
    · rw [Nat.toDigits_of_lt_base hn]
      have hdigit : ∀ n : Fin 10, 0 < n.1 → [Nat.digitChar n].head? ≠ some '0' := by decide
      exact hdigit ⟨n, hn⟩ h
    · have hhead := ih (n / 10) (by omega) (by omega)
      rw [Nat.toDigits_of_base_le (by decide) (Nat.le_of_not_lt hn), List.head?_append]
      cases hdigits : (Nat.toDigits 10 (n / 10)).head? with
      | none => exact absurd (List.head?_eq_none_iff.1 hdigits) Nat.toDigits_ne_nil
      | some c => rwa [hdigits] at hhead

theorem isDigit_of_mem_toDigits {n : Nat} : ∀ c ∈ Nat.toDigits 10 n, c.isDigit :=
  fun _ hc => Nat.isDigit_of_mem_toDigits (by decide) (by decide) hc

/-- The digits of a number are the integer part of a numeral, all of them. -/
theorem whole?_toDigits (n : Nat) :
    whole? (Nat.toDigits 10 n) = some (Nat.toDigits 10 n, []) := by
  by_cases hn : n = 0
  · subst hn
    rfl
  · have hhead := head?_toDigits_ne (Nat.pos_of_ne_zero hn)
    rw [whole?.eq_def]
    split
    · next heq => exact absurd (by rw [heq]; rfl) hhead
    · rw [Numeral.spanDigits, List.takeWhile_eq_self_iff.2 isDigit_of_mem_toDigits,
        List.dropWhile_eq_nil_iff.2 isDigit_of_mem_toDigits]
      simp [Nat.toDigits_ne_nil]

theorem significand_toDigits {n : Nat} (h : n ≤ Word.maxUnsigned) :
    significand 0 (Nat.toDigits 10 n) = (n, []) := by
  have hdigits : Nat.ofDigitChars 10 (Nat.toDigits 10 n) 0 = n := Nat.ofDigitChars_ten_toDigits
  rw [significand_eq (by rwa [hdigits]), hdigits]

theorem numeral?_of_sign {negative : Bool} {n : Nat}
    (h : sign cs = (negative, Nat.toDigits 10 n)) :
    numeral? cs = some (num (number? negative (Nat.toDigits 10 n) none none), []) := by
  rw [numeral?, h]
  simp only [whole?_toDigits, Option.bind_eq_bind, Option.bind_some, fraction?, exponent?]

theorem sign_toDigits (n : Nat) : sign (Nat.toDigits 10 n) = (false, Nat.toDigits 10 n) := by
  rw [sign.eq_def]
  split
  · next heq =>
    have hdigit := isDigit_of_mem_toDigits (n := n) '-' (by rw [heq]; exact List.mem_cons_self)
    cases hdigit
  · rfl

end Document

/-! ### Numbers that are read back -/

namespace Number

/-- A number is read back as it was written. -/
def Readable (n : Number) : Prop :=
  Document.numeral? n.text.toList = some (.num (some n), [])

open Document in
/-- **An integer is read back as it was written.** -/
theorem readable_int (n : Int) (h : Word.minSigned ≤ n ∧ n ≤ Word.maxUnsigned) :
    (int n h).Readable := by
  have hofInt : ofInt? n = some (int n h) := dif_pos h
  have hmax : Word.maxUnsigned = 18446744073709551615 := rfl
  have hmin : Word.minSigned = -9223372036854775808 := rfl
  rw [Readable, ← hofInt]
  cases n with
  | ofNat m =>
    have hsign : sign (Nat.repr m).toList = (false, Nat.toDigits 10 m) := by
      rw [Nat.toList_repr, sign_toDigits]
    refine (numeral?_of_sign hsign).trans ?_
    rw [number?, significand_toDigits h.2]
    rfl
  | negSucc m =>
    have hsign : sign ("-" ++ Nat.repr (m + 1)).toList = (true, Nat.toDigits 10 (m + 1)) := by
      rw [String.toList_append, Nat.toList_repr]
      rfl
    have hsmall : ¬ (m + 1 = 0 ∨ -Word.minSigned < (m + 1 : Nat)) := by omega
    refine (numeral?_of_sign hsign).trans ?_
    rw [number?, significand_toDigits (by omega)]
    simp only [Bool.not_true, Bool.false_eq_true, if_false, if_neg hsmall]
    rfl

end Number

end SchemaCanvas
