import SchemaCanvas.Expr.Parser

/-!
# The written form of an expression

`Expr.tokens` writes an expression as tokens, with parentheses only where it would be read in
another way without them. An expression has a level, from the loosest to the tightest: arrow
functions and conditionals, the levels of infix operators, unary operators, accesses, and what
stands by itself. Every place in an expression asks for a level, and an expression that is looser
than its place is put into parentheses. The left operand of an infix operator may have the level of
the operator and the right one may not, since operators of one level are left associative; a
conditional may stand behind `?` and behind `:`, but not before `?`.
-/

namespace SchemaCanvas

/-- The level of an infix operator, as in `Infix.ofLevel`. -/
def Infix.level : Infix → Nat
  | logical .nullish => 0
  | logical .or => 1
  | logical .and => 2
  | binary .strictEq | binary .strictNe | binary .looseEq | binary .looseNe => 3
  | binary .lt | binary .le | binary .gt | binary .ge => 4
  | binary .add | binary .sub => 5
  | binary .mul | binary .div | binary .rem => 6

/-- The token of a unary operator. -/
def UnaryOp.token : UnaryOp → Token
  | not => .mark .bang
  | neg => .mark .minus
  | plus => .mark .plus
  | typeOf => .ident "typeof"

/-- The float that stands for a number in an expression. -/
def Number.spelled : Number → Float
  | int n _ => (Binary.finite (n < 0) n.natAbs 0).toFloat
  | float f _ => f

/-- The token of a literal. Lists and objects are no literals. -/
def Token.ofLiteral? : Json → Option Token
  | .null => some (.ident "null")
  | .bool b => some (.ident (if b then "true" else "false"))
  | .num n => some (.num n.spelled)
  | .str s => some (.str s)
  | .arr _ | .obj _ => none

namespace Expr

/-- How tightly the parts of an expression hold together. -/
def level : Expr → Nat
  | lambda .. | conditional .. => 0
  | logical op _ _ => (Infix.logical op).level + 1
  | binary op _ _ => (Infix.binary op).level + 1
  | unary .. => 8
  | member .. | index .. | call .. => 9
  | literal _ | undefined | ident _ | array _ => 10

/-- Tokens in parentheses, if these are needed. -/
def parenthesized (needed : Bool) (ts : List Token) : List Token :=
  if needed then .mark .openParen :: (ts ++ [.mark .closeParen]) else ts

/-- The mark before a property. -/
def dot (optional : Bool) : Mark := if optional then .optionalDot else .dot

/-- The tokens before an index. -/
def openIndex (optional : Bool) : List Token :=
  if optional then [.mark .optionalDot, .mark .openBracket] else [.mark .openBracket]

mutual

/-- The written form of an expression. -/
def tokens : Expr → List Token
  | literal v => (Token.ofLiteral? v).toList
  | undefined => [.ident "undefined"]
  | ident name => [.ident name]
  | array items => .mark .openBracket :: (listTokens items ++ [.mark .closeBracket])
  | member object property optional =>
    parenthesized (object.level < 9) (tokens object) ++ [.mark (dot optional), .ident property]
  | index object key optional =>
    parenthesized (object.level < 9) (tokens object) ++
      (openIndex optional ++ (tokens key ++ [.mark .closeBracket]))
  | call callee args =>
    parenthesized (callee.level < 9) (tokens callee) ++
      .mark .openParen :: (listTokens args ++ [.mark .closeParen])
  | lambda param body => .ident param :: .mark .arrow :: tokens body
  | unary op operand => op.token :: parenthesized (operand.level < 8) (tokens operand)
  | binary op left right =>
    let level := (Infix.binary op).level
    parenthesized (left.level < level + 1) (tokens left) ++
      .mark op.mark :: parenthesized (right.level < level + 2) (tokens right)
  | logical op left right =>
    let level := (Infix.logical op).level
    parenthesized (left.level < level + 1) (tokens left) ++
      .mark op.mark :: parenthesized (right.level < level + 2) (tokens right)
  | conditional test consequent alternate =>
    parenthesized (test.level < 1) (tokens test) ++
      .mark .question :: (tokens consequent ++ .mark .colon :: tokens alternate)

/-- The written form of expressions between commas. -/
def listTokens : List Expr → List Token
  | [] => []
  | [e] => tokens e
  | e :: next :: rest => tokens e ++ .mark .comma :: listTokens (next :: rest)

end

/-- The written form of an expression at a place that asks for a level. -/
def tokensAt (place : Nat) (e : Expr) : List Token := parenthesized (e.level < place) e.tokens

end Expr

end SchemaCanvas
