/-!
# Blank characters

`Text.isBlank` is the Unicode property `White_Space`, which the no-break space and the ideographic
space have and the byte order mark has not. Trimming removes blank characters from the ends.
-/

namespace SchemaCanvas.Text

/-- The property `White_Space`. -/
def isBlank (c : Char) : Bool :=
  let n := c.toNat
  (0x09 ≤ n && n ≤ 0x0D) || n == 0x20 || n == 0x85 || n == 0xA0 || n == 0x1680 ||
    (0x2000 ≤ n && n ≤ 0x200A) || n == 0x2028 || n == 0x2029 || n == 0x202F || n == 0x205F ||
    n == 0x3000

/-- The ASCII blanks of core are blank. -/
theorem isBlank_of_isWhitespace {c : Char} (h : c.isWhitespace) : isBlank c := by
  simp only [Char.isWhitespace, Bool.or_eq_true, decide_eq_true_eq] at h
  rcases h with ((h | h) | h) | h <;> subst h <;> decide

example : isBlank '\u00a0' ∧ isBlank '\u3000' ∧ ¬ isBlank '\ufeff' := by decide

/-- Remove leading blanks. -/
def trimLeft (cs : List Char) : List Char := cs.dropWhile isBlank

/-- Remove trailing blanks. -/
def trimRight (cs : List Char) : List Char := (cs.reverse.dropWhile isBlank).reverse

/-- Remove blanks from both ends. -/
def trimmed (cs : List Char) : List Char := trimRight (trimLeft cs)

/-- A text without blanks at its ends. -/
def trim (s : String) : String := String.ofList (trimmed s.toList)

end SchemaCanvas.Text
