import SchemaCanvas.Expr.Eval

/-!
# Text with holes

A template is text with holes `${path}` and `{{expression}}`. The first closing mark ends a hole, a
hole for an expression does not run over a line break, and what is not closed is plain text. Every
hole is filled once, from left to right, and its text is not read again.
-/

namespace SchemaCanvas.Template

/-- A part of a template. -/
inductive Segment where
  | char (c : Char)
  /-- a hole for the value at a dot path -/
  | path (text : List Char)
  /-- a hole for the value of an expression -/
  | expr (text : List Char)

/-- The characters before two closing braces on the same line. -/
def untilClose : List Char → Option (List Char)
  | '\x7d' :: '\x7d' :: _ => some []
  | c :: rest => if c = '\n' then none else (untilClose rest).map (c :: ·)
  | [] => none

/-- The hole at the start of a text, and how many characters it takes. -/
def hole? : List Char → Option (Segment × Nat)
  | '$' :: '\x7b' :: rest =>
    let inner := rest.takeWhile (· ≠ '\x7d')
    if inner.length < rest.length then some (.path inner, inner.length + 3) else none
  | '\x7b' :: '\x7b' :: rest =>
    (untilClose rest).map fun inner => (.expr inner, inner.length + 4)
  | _ => none

/-- The segments of a text whose first `skip` characters belong to a hole already read. -/
def segmentsFrom : Nat → List Char → List Segment
  | _, [] => []
  | skip + 1, _ :: rest => segmentsFrom skip rest
  | 0, c :: rest =>
    match hole? (c :: rest) with
    | some (hole, length) => hole :: segmentsFrom (length - 1) rest
    | none => .char c :: segmentsFrom 0 rest

/-- The segments of a template. -/
def segments (template : String) : List Segment := segmentsFrom 0 template.toList

/-- A hole. -/
def Segment.isHole : Segment → Bool
  | char _ => false
  | path _ | expr _ => true

/-- A template has a hole. -/
def hasHole (template : String) : Bool := (segments template).any Segment.isHole

/-- The text of an expression hole. An expression without a value is tried as a dot path. -/
def exprText (text : String) (context : Json) : String :=
  if text.isEmpty then ""
  else
    match Expr.evaluate text context with
    | .ok (some v) => Value.text (some v)
    | _ => Value.text (Json.atPath? text context)

/-- The text of a segment in a context. -/
def Segment.fill (context : Json) : Segment → String
  | char c => c.toString
  | path p => Value.text (Json.atPath? (String.ofList p) context)
  | expr e => exprText (String.ofList (Text.trimmed e)) context

/-- A template with its holes filled. -/
def interpolate (template : String) (context : Json) : String :=
  String.join ((segments template).map (Segment.fill context))

end SchemaCanvas.Template
