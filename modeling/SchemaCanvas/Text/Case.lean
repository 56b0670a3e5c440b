import SchemaCanvas.Text.CaseTable
import SchemaCanvas.Text.PropertyTable

/-!
# Upper and lower case

Full case mapping: a character may map to several (`ß` to `SS`), and a capital sigma maps to the
final form where it ends a word. ASCII has a path of its own through core's functions.
-/

namespace SchemaCanvas.Text

/-- A code point lies in one of the ranges. -/
def inRanges (ranges : List (Nat × Nat)) (c : Char) : Bool :=
  ranges.any fun r => r.1 ≤ c.toNat && c.toNat ≤ r.2

/-- The image of a code point under the runs of a case mapping. -/
def imageIn (runs : List (Nat × Nat × Nat × Nat)) (n : Nat) : Option Nat :=
  runs.findSome? fun (first, last, step, image) =>
    if first ≤ n ∧ n ≤ last ∧ (n - first) % step = 0 then some (image + (n - first)) else none

/-- A case mapping by its two tables. -/
def mapped (runs : List (Nat × Nat × Nat × Nat)) (long : List (Nat × List Nat)) (c : Char) :
    List Char :=
  match imageIn runs c.toNat with
  | some n => [Char.ofNat n]
  | none =>
    match long.lookup c.toNat with
    | some ns => ns.map Char.ofNat
    | none => [c]

/-- The upper case of a character. -/
def upperChar (c : Char) : List Char :=
  if c.toNat < 0x80 then [c.toUpper] else mapped CaseTable.upperRuns CaseTable.upperLong c

/-- The lower case of a character by itself. -/
def lowerChar (c : Char) : List Char :=
  if c.toNat < 0x80 then [c.toLower] else mapped CaseTable.lowerRuns CaseTable.lowerLong c

/-- The first character that is not case-ignorable is cased. -/
def startsCased (cs : List Char) : Bool :=
  match cs.dropWhile (inRanges PropertyTable.caseIgnorable) with
  | c :: _ => inRanges PropertyTable.cased c
  | [] => false

/-- Lower case from left to right; `before` holds the characters already read, the last first. A
capital sigma behind a cased character and before none is final. -/
def lowerFrom (before : List Char) : List Char → List Char
  | [] => []
  | c :: rest =>
    let image :=
      if c = 'Σ' then (if startsCased before && !startsCased rest then ['ς'] else ['σ'])
      else lowerChar c
    image ++ lowerFrom (c :: before) rest

/-- The upper case of a text. -/
def upper (s : String) : String := String.ofList (s.toList.flatMap upperChar)

/-- The lower case of a text. -/
def lower (s : String) : String := String.ofList (lowerFrom [] s.toList)

end SchemaCanvas.Text
