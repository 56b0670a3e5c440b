import SchemaCanvas.Number.Numeral
import SchemaCanvas.Number.Text
import SchemaCanvas.Text.Quoted

/-!
# Tokens of the expression language

`Token.scan` turns the text of an expression into tokens. Each token carries the byte offset at
which it starts, so that a fault can point at its place; between tokens stands ASCII white space
only. Of the marks that fit, the first of `Mark.all` is taken, where longer marks stand before
their beginnings.
-/

namespace SchemaCanvas

/-! ### Marks -/

/-- Operators and punctuation. -/
inductive Mark where
  | strictEq | strictNe | optionalDot | nullish | arrow | looseEq | looseNe | le | ge
  | and | or | plus | minus | times | divide | percent | lt | gt | bang | question
  | colon | dot | comma | openParen | closeParen | openBracket | closeBracket
deriving DecidableEq

namespace Mark

/-- How a mark is written. -/
def text : Mark → String
  | strictEq => "===" | strictNe => "!==" | optionalDot => "?." | nullish => "??"
  | arrow => "=>" | looseEq => "==" | looseNe => "!=" | le => "<=" | ge => ">="
  | and => "&&" | or => "||" | plus => "+" | minus => "-" | times => "*" | divide => "/"
  | percent => "%" | lt => "<" | gt => ">" | bang => "!" | question => "?" | colon => ":"
  | dot => "." | comma => "," | openParen => "(" | closeParen => ")" | openBracket => "["
  | closeBracket => "]"

/-- All marks, in the order in which they are tried. -/
def all : List Mark :=
  [strictEq, strictNe, optionalDot, nullish, arrow, looseEq, looseNe, le, ge, and, or, plus,
    minus, times, divide, percent, lt, gt, bang, question, colon, dot, comma, openParen,
    closeParen, openBracket, closeBracket]

theorem mem_all (m : Mark) : m ∈ all := by cases m <;> decide

/-- A mark stands at the start of a text. `?.` before a digit is a question mark and a decimal. -/
def fits (m : Mark) (cs : List Char) : Bool :=
  m.text.toList.isPrefixOf cs &&
    !(m = optionalDot && ((cs.drop 2).head?.map Char.isDigit).getD false)

/-- The mark at the start of a text. -/
def find? (cs : List Char) : Option Mark := all.find? (·.fits cs)

end Mark

/-! ### Tokens -/

/-- A token. -/
inductive Token where
  | num (value : Float)
  | str (text : String)
  | ident (name : String)
  | mark (m : Mark)

/-- A token and the byte offset of its first character. -/
structure PlacedToken where
  token : Token
  offset : Nat

/-- How a token is shown in a message. -/
def Token.shown : Token → String
  | num x => "Num(" ++ FloatStyle.source.write x ++ ")"
  | str s => "Str(" ++ Text.quoted s ++ ")"
  | ident s => "Ident(" ++ Text.quoted s ++ ")"
  | mark m => "Punct(" ++ Text.quoted m.text ++ ")"

/-! ### Faults -/

/-- What is wrong with the text of an expression. -/
inductive SyntaxFault where
  | invalidNumber (text : String)
  | unexpectedCharacter (c : Char)
  | unterminatedString
  | emptyExpression
  | unexpectedToken (t : Token)
  | expected (m : Mark)
  | tooLarge
  | nestedTooDeeply
  | expectedPropertyName
  | unexpectedEnd
  | unexpectedMark (m : Mark)

/-- The description of a fault. -/
def SyntaxFault.message : SyntaxFault → String
  | invalidNumber text => s!"invalid number '{text}'"
  | unexpectedCharacter c => s!"unexpected character '{c}'"
  | unterminatedString => "unterminated string literal"
  | emptyExpression => "empty expression"
  | unexpectedToken t => "unexpected token " ++ t.shown
  | expected m => "expected '" ++ m.text ++ "'"
  | tooLarge => "expression is too large"
  | nestedTooDeeply => "expression nested too deeply"
  | expectedPropertyName => "expected property name"
  | unexpectedEnd => "unexpected end of expression"
  | unexpectedMark m => "unexpected '" ++ m.text ++ "'"

/-- A fault at a byte offset. -/
structure SyntaxError where
  fault : SyntaxFault
  offset : Nat

/-- The description of a fault and its place. -/
def SyntaxError.message (e : SyntaxError) : String :=
  s!"syntax error at offset {e.offset}: " ++ e.fault.message

namespace Token

/-! ### Lexemes -/

/-- White space between tokens. -/
def isSpace (c : Char) : Bool :=
  c = ' ' || c = '\t' || c = '\n' || c = '\x0C' || c = '\r'

/-- A character that starts an identifier. -/
def startsName (c : Char) : Bool := c.isAlpha || c = '_' || c = '$'

/-- A character that continues an identifier. -/
def continuesName (c : Char) : Bool := c.isAlphanum || c = '_' || c = '$'

/-- A digit, or a point before a digit, starts a number. -/
def startsNumber : List Char → Bool
  | '.' :: c :: _ => c.isDigit
  | c :: _ => c.isDigit
  | [] => false

/-- The exponent part at the start of a text; it is empty unless it has a digit. -/
def exponentPart : List Char → List Char
  | c :: rest =>
    if c = 'e' ∨ c = 'E' then
      let (sign, rest) := match rest with
        | '+' :: r => (['+'], r)
        | '-' :: r => (['-'], r)
        | r => ([], r)
      let digits := rest.takeWhile Char.isDigit
      if digits.isEmpty then [] else c :: sign ++ digits
    else []
  | [] => []

/-- The characters of a number: digits and points in any order, and an exponent part. -/
def numberPart (cs : List Char) : List Char :=
  let inNumber := fun c : Char => c.isDigit || c = '.'
  cs.takeWhile inNumber ++ exponentPart (cs.dropWhile inNumber)

/-- The character that a backslash and a letter stand for. -/
def unescaped : Char → Char
  | 'n' => '\n'
  | 't' => '\t'
  | 'r' => '\r'
  | c => c

/-- The contents of a string behind its opening quote, and how many characters it takes up to and
with the closing quote. -/
def stringBody (quote : Char) : List Char → Option (List Char × Nat)
  | [] => none
  | '\\' :: [] => none
  | '\\' :: c :: rest => (stringBody quote rest).map fun (s, n) => (unescaped c :: s, n + 2)
  | c :: rest =>
    if c = quote then some ([], 1)
    else (stringBody quote rest).map fun (s, n) => (c :: s, n + 1)

/-- The token that starts with `c`, and how many characters it has behind `c`. -/
def lexeme (offset : Nat) (c : Char) (rest : List Char) : Except SyntaxError (Token × Nat) :=
  if startsNumber (c :: rest) then
    let text := numberPart (c :: rest)
    match Numeral.read? text with
    | some x => .ok (num x, text.length - 1)
    | none => .error ⟨.invalidNumber (String.ofList text), offset⟩
  else if c = '"' ∨ c = '\'' then
    match stringBody c rest with
    | some (s, n) => .ok (str (String.ofList s), n)
    | none => .error ⟨.unterminatedString, offset⟩
  else if startsName c then
    let more := rest.takeWhile continuesName
    .ok (ident (String.ofList (c :: more)), more.length)
  else
    match Mark.find? (c :: rest) with
    | some m => .ok (mark m, m.text.length - 1)
    | none => .error ⟨.unexpectedCharacter c, offset⟩

/-- The tokens of a text that starts at a byte offset, where the first `skip` characters belong to
a token already read. -/
def scanFrom (offset : Nat) : Nat → List Char → Except SyntaxError (List PlacedToken)
  | _, [] => .ok []
  | skip + 1, c :: rest => scanFrom (offset + c.utf8Size) skip rest
  | 0, c :: rest =>
    if isSpace c then scanFrom (offset + c.utf8Size) 0 rest
    else do
      let (token, more) ← lexeme offset c rest
      let tokens ← scanFrom (offset + c.utf8Size) more rest
      .ok (⟨token, offset⟩ :: tokens)

/-- The tokens of a text. -/
def scan (text : List Char) : Except SyntaxError (List PlacedToken) := scanFrom 0 0 text

end Token

end SchemaCanvas
