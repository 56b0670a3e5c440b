import SchemaCanvas.Text.Case

/-!
# Quoted text in messages

`Text.quoted` shows a text between double quotes so that every character can be seen: quotes,
backslashes and the usual control characters are escaped by a backslash, characters that are drawn
onto their neighbour or not at all are given by code point. Printable ASCII characters stand for
themselves (`Text.quotedChar_of_ascii`).
-/

namespace SchemaCanvas.Text

/-- Lower-case hexadecimal digits. -/
def hexText (n : Nat) : String := String.ofList (Nat.toDigits 16 n)

/-- The character is drawn onto the one before it. The two half-width sound marks of Katakana are
not, although they have the property: they are letters that take a place of their own. -/
def isCombining (c : Char) : Bool :=
  inRanges PropertyTable.graphemeExtend c && c != '\uff9e' && c != '\uff9f'

/-- The character cannot be told from a blank or from nothing at all. Fillers are letters, but are
drawn as nothing. -/
def isInvisible (c : Char) : Bool :=
  inRanges PropertyTable.unprintable c || inRanges PropertyTable.defaultIgnorable c

/-- A character as it stands in a quoted text. -/
def quotedChar (c : Char) : String :=
  match c with
  | '\x00' => "\\0"
  | '\t' => "\\t"
  | '\r' => "\\r"
  | '\n' => "\\n"
  | '"' => "\\\""
  | '\\' => "\\\\"
  | c =>
    if 0x20 ≤ c.toNat ∧ c.toNat < 0x7F then c.toString
    else if isCombining c || isInvisible c then "\\u\x7b" ++ hexText c.toNat ++ "\x7d"
    else c.toString

/-- A text between double quotes. -/
def quoted (s : String) : String := "\"" ++ String.join (s.toList.map quotedChar) ++ "\""

/-- A printable ASCII character stands for itself, unless it is a quote or a backslash. -/
theorem quotedChar_of_ascii {c : Char} (h : 0x20 ≤ c.toNat ∧ c.toNat < 0x7F) (hq : c ≠ '"')
    (hb : c ≠ '\\') : quotedChar c = c.toString := by
  unfold quotedChar
  split
  case h_5 => exact absurd rfl hq
  case h_6 => exact absurd rfl hb
  case h_7 => exact if_pos h
  all_goals exact absurd h (by decide)

example : ["ｶﾞ", "x\u1160", "e\u0301", "\"", "é"].map quoted =
    ["\"ｶﾞ\"", "\"x\\u\x7b1160\x7d\"", "\"e\\u\x7b301\x7d\"", "\"\\\"\"", "\"é\""] := by
  decide +kernel

end SchemaCanvas.Text
