import SchemaCanvas.Json.Basic
import SchemaCanvas.Number.Text
import SchemaCanvas.Text.Quoted

/-!
# JSON text

`Json.compact` writes a value on one line without blanks, `Json.pretty` over indented lines. Fields
are written in the order in which the value holds them. Quotes, backslashes and control characters
are escaped, everything else stands as it is.
-/

namespace SchemaCanvas

/-- A number in JSON text. -/
def Number.text : Number → String
  | .int n _ => toString n
  | .float f _ => FloatStyle.json.write f

namespace Json

/-- A character inside a JSON string. -/
def escapedChar (c : Char) : List Char :=
  match c with
  | '"' => ['\\', '"']
  | '\\' => ['\\', '\\']
  | '\n' => ['\\', 'n']
  | '\r' => ['\\', 'r']
  | '\t' => ['\\', 't']
  | '\x08' => ['\\', 'b']
  | '\x0C' => ['\\', 'f']
  | c =>
    if c.toNat < 0x20 then
      ['\\', 'u', '0', '0', Nat.digitChar (c.toNat / 16), Nat.digitChar (c.toNat % 16)]
    else [c]

/-- A string in JSON text. -/
def stringText (s : String) : String :=
  "\"" ++ String.ofList (s.toList.flatMap escapedChar) ++ "\""

mutual

/-- A value on one line. -/
def compact : Json → String
  | null => "null"
  | bool b => if b then "true" else "false"
  | num n => n.text
  | str s => stringText s
  | arr items => "[" ++ ",".intercalate (compactItems items) ++ "]"
  | obj fields => "\x7b" ++ ",".intercalate (compactFields fields) ++ "\x7d"

/-- List items on one line. -/
def compactItems : List Json → List String
  | [] => []
  | v :: rest => compact v :: compactItems rest

/-- Fields on one line. -/
def compactFields : List (String × Json) → List String
  | [] => []
  | (k, v) :: rest => (stringText k ++ ":" ++ compact v) :: compactFields rest

end

/-- Entries between brackets, one on each line; `level` is the depth of the brackets. -/
def block (opening closing : String) (level : Nat) (entries : List String) : String :=
  if entries.isEmpty then opening ++ closing
  else
    let indent (n : Nat) := "\n" ++ String.ofList (List.replicate (2 * n) ' ')
    opening ++ indent (level + 1) ++ ("," ++ indent (level + 1)).intercalate entries ++
      indent level ++ closing

mutual

/-- A value over several lines, at a depth. -/
def prettyAt (level : Nat) : Json → String
  | arr items => block "[" "]" level (prettyItems (level + 1) items)
  | obj fields => block "\x7b" "\x7d" level (prettyFields (level + 1) fields)
  | v => v.compact

/-- List items over several lines. -/
def prettyItems (level : Nat) : List Json → List String
  | [] => []
  | v :: rest => prettyAt level v :: prettyItems level rest

/-- Fields over several lines. -/
def prettyFields (level : Nat) : List (String × Json) → List String
  | [] => []
  | (k, v) :: rest => (stringText k ++ ": " ++ prettyAt level v) :: prettyFields level rest

end

/-- A value over several lines, indented by two spaces. -/
def pretty (v : Json) : String := prettyAt 0 v

end Json

end SchemaCanvas
