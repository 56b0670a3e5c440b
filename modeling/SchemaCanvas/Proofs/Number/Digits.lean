import SchemaCanvas.Expr.Scope
import SchemaCanvas.Proofs.Number.Bits
import SchemaCanvas.Proofs.Number.Rounding
import Mathlib.Data.List.TakeWhile

/-!
# Natural numbers in digits

The decimal digits of a natural number are a numeral for it. As a position they are read as the
number itself, if it has 64 bits, and as a float they are read as the nearest float, which stands
for the number itself below `2 ^ 53`.

* `Numeral.readIndex?_toString`, `Numeral.read?_toString` : digits as a position and as a float;
* `Binary.whole?_ofNat` : the number for which the float stands;
* `Json.step?_toString` : a position in a list as a step of a path.
-/

namespace SchemaCanvas

/-- **A natural number below `2 ^ 53` is a float,** and no other number has this float. -/
theorem Binary.whole?_ofNat {n : Nat} (hn : n < 2 ^ 53) :
    (ofFloat (Float.ofNat n)).whole? = some n := by
  by_cases hpos : n = 0
  · subst hpos
    rfl
  · have hlog : n.log2 < 53 := (Nat.log2_lt hpos).2 hn
    obtain ⟨_, hunpack⟩ := unpack_ofNat_of_lt hpos hn
    have hexponent : (n.log2 : Int) - 52 = -((52 - n.log2 : Nat) : Int) := by omega
    rw [ofFloat_eq, hunpack, ofUnpacked, hexponent, ← Nat.shiftLeft_eq, whole?,
      if_pos (isWhole_shiftLeft _ _), wholePart_shiftLeft]
    rfl

namespace Numeral

variable {c : Char} {cs rest : List Char} {n : Nat}

/-! ### Digits -/

theorem spanSign_of_isDigit (h : c.isDigit) : spanSign (c :: rest) = (false, c :: rest) := by
  rw [spanSign]
  · rintro _ ⟨⟩
    exact absurd h (by decide)
  · rintro _ ⟨⟩
    exact absurd h (by decide)

theorem toLower_of_isDigit (h : c.isDigit) : c.toLower = c := by
  have hupper : ¬ (c.val ≥ 65 ∧ c.val ≤ 90) := by
    simp only [Char.isDigit, Bool.and_eq_true, decide_eq_true_eq, ge_iff_le,
      UInt32.le_iff_toNat_le] at h ⊢
    change _ ∧ c.val.toNat ≤ 57 at h
    change ¬ (65 ≤ c.val.toNat ∧ _)
    omega
  rw [Char.toLower]
  simp [hupper]

theorem map_toLower_ne (h : c.isDigit) {word : List Char} (hword : word.any Char.isDigit = false) :
    (c :: rest).map Char.toLower ≠ word := by
  rintro rfl
  rw [List.map_cons, toLower_of_isDigit h, List.any_cons, h] at hword
  cases hword

/-- Digits and nothing else are the integer that they write, as a float. -/
theorem read?_of_isDigit (hne : cs ≠ []) (h : ∀ c ∈ cs, c.isDigit) :
    read? cs = some (Float.ofNat (ofDigits cs)) := by
  have hspan : spanDigits cs = (cs, []) := by
    rw [spanDigits, List.takeWhile_eq_self_iff.2 h, List.dropWhile_eq_nil_iff.2 h]
  cases cs with
  | nil => exact absurd rfl hne
  | cons c rest =>
    have hc := h c List.mem_cons_self
    have hinf : (c :: rest).map Char.toLower ≠ "inf".toList := map_toLower_ne hc rfl
    have hinfinity : (c :: rest).map Char.toLower ≠ "infinity".toList := map_toLower_ne hc rfl
    have hnan : (c :: rest).map Char.toLower ≠ "nan".toList := map_toLower_ne hc rfl
    rw [read?, spanSign_of_isDigit hc]
    unfold unsigned?
    simp only [hspan, hinf, hinfinity, hnan, or_self, if_false, List.append_nil]
    rfl

/-- Digits and nothing else are the position that they write, if it has 64 bits. -/
theorem readIndex?_of_isDigit (hne : cs ≠ []) (h : ∀ c ∈ cs, c.isDigit)
    (hword : ofDigits cs ≤ Word.maxUnsigned) : readIndex? cs = some (ofDigits cs) := by
  have hall : cs.all Char.isDigit := List.all_eq_true.2 h
  cases cs with
  | nil => exact absurd rfl hne
  | cons c rest =>
    have hplus : c ≠ '+' := by
      rintro rfl
      exact absurd (h '+' List.mem_cons_self) (by decide)
    simp only [List.all_cons, Bool.and_eq_true, List.all_eq_true] at hall
    simpa [readIndex?, hplus, hall.1, hword] using hall.2

/-! ### Numerals of natural numbers -/

theorem toList_toString (n : Nat) : (toString n).toList = Nat.toDigits 10 n := by
  rw [Nat.toString_eq_repr, Nat.toList_repr]

theorem isDigit_of_mem_toString (h : c ∈ (toString n).toList) : c.isDigit := by
  rw [toList_toString] at h
  exact Nat.isDigit_of_mem_toDigits (by decide) (by decide) h

theorem toList_toString_ne_nil (n : Nat) : (toString n).toList ≠ [] := by
  rw [toList_toString]
  exact Nat.toDigits_ne_nil

theorem ofDigits_toString (n : Nat) : ofDigits (toString n).toList = n := by
  have hfold (cs : List Char) : ofDigits cs = Nat.ofDigitChars 10 cs 0 := by
    simp only [ofDigits, Nat.ofDigitChars, digit, Nat.mul_comm]
  rw [hfold, toList_toString, Nat.ofDigitChars_ten_toDigits]

theorem read?_toString (n : Nat) : read? (toString n).toList = some (Float.ofNat n) := by
  rw [read?_of_isDigit (toList_toString_ne_nil n) fun _ => isDigit_of_mem_toString,
    ofDigits_toString]

theorem readIndex?_toString (h : n ≤ Word.maxUnsigned) :
    readIndex? (toString n).toList = some n := by
  have := readIndex?_of_isDigit (toList_toString_ne_nil n) (fun _ => isDigit_of_mem_toString)
    (by rwa [ofDigits_toString])
  rwa [ofDigits_toString] at this

end Numeral

theorem Json.step?_toString {n : Nat} (h : n ≤ Word.maxUnsigned) (items : List Json) :
    (arr items).step? (toString n).toList = items[n]? := by
  have hall : (toString n).toList.all Char.isDigit :=
    List.all_eq_true.2 fun _ => Numeral.isDigit_of_mem_toString
  have hdigits : (!(toString n).toList.isEmpty && (toString n).toList.all Char.isDigit) := by
    rw [hall, Bool.and_true, Bool.not_eq_true', List.isEmpty_eq_false_iff]
    exact Numeral.toList_toString_ne_nil n
  rw [step?, if_pos hdigits, Numeral.readIndex?_toString h]
  rfl

end SchemaCanvas
