import SchemaCanvas.Expr.Basic

/-!
# Parsing expressions

`Expr.parse?` reads an expression by recursive descent. From the loosest to the tightest the levels
are arrow and conditional, then the six levels of `Infix`, all left associative, then unary
operators, and last members, indices and calls.

Two limits keep trees small: at most `maxNesting` expressions inside one another, and at most
`maxNodes` operators, accesses, calls and functions in one expression. The remaining nesting is the
argument on which the grammar recurses; within one level of nesting every loop reads a token in each
round.
-/

namespace SchemaCanvas

/-! ### Infix operators -/

/-- An operator between two operands. -/
inductive Infix where
  | logical (op : LogicalOp)
  | binary (op : BinaryOp)

namespace Infix

/-- The operators of one level, from the loosest. -/
def ofLevel : Nat → List Infix
  | 0 => [logical .nullish]
  | 1 => [logical .or]
  | 2 => [logical .and]
  | 3 => [binary .strictEq, binary .strictNe, binary .looseEq, binary .looseNe]
  | 4 => [binary .lt, binary .le, binary .gt, binary .ge]
  | 5 => [binary .add, binary .sub]
  | 6 => [binary .mul, binary .div, binary .rem]
  | _ => []

/-- The count of levels. -/
def levels : Nat := 7

/-- The mark of an operator. -/
def mark : Infix → Mark
  | logical op => op.mark
  | binary op => op.mark

/-- The expression of an operator and its operands. -/
def apply : Infix → Expr → Expr → Expr
  | logical op => .logical op
  | binary op => .binary op

/-- The operator of a level that a token stands for. -/
def ofToken? (level : Nat) : Token → Option Infix
  | .mark m => (ofLevel level).find? fun op => op.mark = m
  | _ => none

end Infix

/-- The unary operator that a token stands for. -/
def UnaryOp.ofToken? : Token → Option UnaryOp
  | .mark .bang => some .not
  | .mark .minus => some .neg
  | .mark .plus => some .plus
  | .ident name => if name = "typeof" then some .typeOf else none
  | _ => none

namespace Parser

/-! ### State -/

/-- The tokens still to be read. -/
structure State where
  rest : List PlacedToken
  /-- The composite nodes made so far. -/
  nodes : Nat
  /-- The byte offset behind the text. -/
  limit : Nat

/-- The deepest nesting of expressions. -/
def maxNesting : Nat := 128

/-- The most composite nodes of one expression. -/
def maxNodes : Nat := 256

end Parser

/-- A reader of tokens. -/
abbrev Parser (α : Type) := StateT Parser.State (Except SyntaxError) α

namespace Parser

/-- The next token, which is not taken. -/
def peek : Parser (Option Token) := return (← get).rest.head?.map (·.token)

/-- The offset of the next token, or the end of the text. -/
def State.offset (s : State) : Nat := (s.rest.head?.map (·.offset)).getD s.limit

/-- A fault at the next token. -/
def fail {α : Type} (fault : SyntaxFault) : Parser α := fun s => .error ⟨fault, s.offset⟩

/-- Take `count` tokens. -/
def skip (count : Nat) : Parser Unit := modify fun s => { s with rest := s.rest.drop count }

/-- The next token is a mark. -/
def isMark (m : Mark) : Option Token → Bool
  | some (.mark n) => m = n
  | _ => false

/-- Take a mark if it comes next. -/
def eat (m : Mark) : Parser Bool := do
  if isMark m (← peek) then
    skip 1
    return true
  else return false

/-- Take a mark, which has to come next. -/
def expect (m : Mark) : Parser Unit := do
  if !(← eat m) then fail (.expected m)

/-- Count a composite node. -/
def grow : Parser Unit := do
  modify fun s => { s with nodes := s.nodes + 1 }
  if maxNodes < (← get).nodes then fail .tooLarge

/-- Run a loop that takes a token in each round. -/
def withRounds {α : Type} (loop : Nat → Parser α) : Parser α := do loop (← get).rest.length

/-! ### Levels -/

/-- Operators of one level behind a left operand, and their right operands. -/
def infixTail (level : Nat) (operand : Parser Expr) (left : Expr) : Nat → Parser Expr
  | 0 => return left
  | rounds + 1 => do
    match (← peek).bind (Infix.ofToken? level) with
    | none => return left
    | some op =>
      skip 1
      grow
      let right ← operand
      infixTail level operand (op.apply left right) rounds

/-- The tightest `count` levels of infix operators. -/
def infixLevels (operand : Parser Expr) : Nat → Parser Expr
  | 0 => operand
  | count + 1 => do
    let left ← infixLevels operand count
    withRounds (infixTail (Infix.levels - (count + 1)) (infixLevels operand count) left)

/-- The parameter of an arrow function that comes next, and how many tokens introduce it: `x =>` or
`(x) =>`. -/
def lambdaHead? : List PlacedToken → Option (String × Nat)
  | ⟨.ident name, _⟩ :: ⟨.mark .arrow, _⟩ :: _ => some (name, 2)
  | ⟨.mark .openParen, _⟩ :: ⟨.ident name, _⟩ :: ⟨.mark .closeParen, _⟩ ::
      ⟨.mark .arrow, _⟩ :: _ => some (name, 4)
  | _ => none

/-- An arrow function, or an expression with an optional choice behind `?`. -/
def conditional (expr unary : Parser Expr) : Parser Expr := do
  match lambdaHead? (← get).rest with
  | some (param, count) =>
    skip count
    grow
    return .lambda param (← expr)
  | none =>
    let test ← infixLevels unary Infix.levels
    if ← eat .question then
      grow
      let consequent ← expr
      expect .colon
      return .conditional test consequent (← expr)
    else return test

/-- A name behind a point. -/
def propertyName : Parser String := do
  match ← peek with
  | some (.ident name) =>
    skip 1
    return name
  | _ => fail .expectedPropertyName

/-- Expressions between commas up to a closing mark, which is taken. The first comes next, and a
comma may stand before the closing mark. -/
def listTail (expr : Parser Expr) (close : Mark) : Nat → Parser (List Expr)
  | 0 => return []
  | rounds + 1 => do
    let item ← expr
    if ← eat close then return [item]
    else
      expect .comma
      if ← eat close then return [item]
      else return item :: (← listTail expr close rounds)

/-- A list of expressions up to a closing mark. -/
def list (expr : Parser Expr) (close : Mark) : Parser (List Expr) := do
  if ← eat close then return []
  else withRounds fun rounds => listTail expr close (rounds + 1)

/-- The value that a name stands for by itself, or a variable. -/
def named (name : String) : Expr :=
  if name = "true" then .literal (.bool true)
  else if name = "false" then .literal (.bool false)
  else if name = "null" then .literal .null
  else if name = "undefined" then .undefined
  else .ident name

/-- A literal, a name, a parenthesis or a list. -/
def primary (expr : Parser Expr) : Parser Expr := do
  match ← peek with
  | none => fail .unexpectedEnd
  | some (.num x) =>
    skip 1
    return .literal (Json.computed x)
  | some (.str s) =>
    skip 1
    return .literal (.str s)
  | some (.ident name) =>
    skip 1
    return named name
  | some (.mark .openParen) =>
    skip 1
    let inner ← expr
    expect .closeParen
    return inner
  | some (.mark .openBracket) =>
    skip 1
    return .array (← list expr .closeBracket)
  | some (.mark m) => fail (.unexpectedMark m)

/-- An index up to its closing bracket. -/
def bracketed (expr : Parser Expr) : Parser Expr := do
  let index ← expr
  expect .closeBracket
  return index

/-- One member, index or call behind an object, if one follows. -/
def access? (expr : Parser Expr) (object : Expr) : Parser (Option Expr) := do
  match ← peek with
  | some (.mark .dot) =>
    grow
    skip 1
    return some (.member object (← propertyName) false)
  | some (.mark .optionalDot) =>
    grow
    skip 1
    if ← eat .openBracket then return some (.index object (← bracketed expr) true)
    else return some (.member object (← propertyName) true)
  | some (.mark .openBracket) =>
    grow
    skip 1
    return some (.index object (← bracketed expr) false)
  | some (.mark .openParen) =>
    grow
    skip 1
    return some (.call object (← list expr .closeParen))
  | _ => return none

/-- Members, indices and calls behind an object. -/
def accessTail (expr : Parser Expr) (object : Expr) : Nat → Parser Expr
  | 0 => return object
  | rounds + 1 => do
    match ← access? expr object with
    | some e => accessTail expr e rounds
    | none => return object

/-- A primary expression with its accesses. -/
def postfixed (expr : Parser Expr) : Parser Expr := do
  let object ← primary expr
  withRounds (accessTail expr object)

/-- A unary operator before `operand`, or an expression without one. -/
def prefixed (operand plain : Parser Expr) : Parser Expr := do
  match (← peek).bind UnaryOp.ofToken? with
  | some op =>
    skip 1
    grow
    return .unary op (← operand)
  | none => plain

/-! ### Grammar -/

/-- The readers that refer to one another. -/
structure Grammar where
  expr : Parser Expr
  unary : Parser Expr

/-- The grammar with room for `nesting` expressions inside one another. -/
def grammar : Nat → Grammar
  | 0 =>
    let expr := fail .nestedTooDeeply
    ⟨expr, prefixed (fail .nestedTooDeeply) (postfixed expr)⟩
  | nesting + 1 =>
    let inner := grammar nesting
    let expr := conditional inner.expr inner.unary
    ⟨expr, prefixed inner.unary (postfixed expr)⟩

/-- A whole expression. -/
def whole : Parser Expr := do
  let e ← (grammar maxNesting).expr
  match ← peek with
  | some t => fail (.unexpectedToken t)
  | none => return e

/-- Read all of a list of tokens, which end at the byte offset `limit`. -/
def run (tokens : List PlacedToken) (limit : Nat) : Except SyntaxError Expr :=
  if tokens.isEmpty then .error ⟨.emptyExpression, 0⟩
  else (whole ⟨tokens, 0, limit⟩).map Prod.fst

end Parser

/-- The expression of a text. -/
def Expr.parse? (text : String) : Except SyntaxError Expr := do
  let tokens ← Token.scan text.toList
  Parser.run tokens text.utf8ByteSize

end SchemaCanvas
