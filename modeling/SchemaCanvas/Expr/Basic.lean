import SchemaCanvas.Json.Basic
import SchemaCanvas.Expr.Token

/-!
# Expression trees

`Expr` is an expression of the binding language. A tree holds no position and no parentheses: two
texts with the same tree mean the same.
-/

namespace SchemaCanvas

/-- Operators on one operand. -/
inductive UnaryOp where
  | not | neg | plus | typeOf
deriving DecidableEq

/-- Operators that evaluate both operands. -/
inductive BinaryOp where
  | add | sub | mul | div | rem | lt | le | gt | ge | looseEq | looseNe | strictEq | strictNe
deriving DecidableEq

/-- Operators that may leave the second operand unevaluated. -/
inductive LogicalOp where
  | and | or | nullish
deriving DecidableEq

/-- An expression. -/
inductive Expr where
  /-- `null`, booleans, numbers and strings -/
  | literal (v : Json)
  | undefined
  | ident (name : String)
  | array (items : List Expr)
  /-- `object.property` or `object?.property` -/
  | member (object : Expr) (property : String) (optional : Bool)
  /-- `object[index]` or `object?.[index]` -/
  | index (object index : Expr) (optional : Bool)
  | call (callee : Expr) (args : List Expr)
  /-- `param => body`, of use as an argument of an array method only -/
  | lambda (param : String) (body : Expr)
  | unary (op : UnaryOp) (operand : Expr)
  | binary (op : BinaryOp) (left right : Expr)
  | logical (op : LogicalOp) (left right : Expr)
  | conditional (test consequent alternate : Expr)
deriving Inhabited

/-- How a unary operator is written. -/
def UnaryOp.text : UnaryOp → String
  | not => "!" | neg => "-" | plus => "+" | typeOf => "typeof"

/-- The mark of a binary operator. -/
def BinaryOp.mark : BinaryOp → Mark
  | add => .plus | sub => .minus | mul => .times | div => .divide | rem => .percent
  | lt => .lt | le => .le | gt => .gt | ge => .ge | looseEq => .looseEq | looseNe => .looseNe
  | strictEq => .strictEq | strictNe => .strictNe

/-- The mark of a logical operator. -/
def LogicalOp.mark : LogicalOp → Mark
  | and => .and | or => .or | nullish => .nullish

namespace Expr

/-- The dotted name of a plain chain of members (`Math.max`, `user.name`). -/
def dottedName? : Expr → Option String
  | ident name => some name
  | member object property _ => (dottedName? object).map fun base => base ++ "." ++ property
  | _ => none

/-- The first name of a plain chain of members. -/
def rootName? : Expr → Option String
  | ident name => some name
  | member object _ _ => rootName? object
  | _ => none

/-- A link of a chain of members, indices and calls is written with `?.`. A nullish value in such a
chain makes the whole chain undefined. -/
def isOptionalChain : Expr → Bool
  | member object _ optional => optional || isOptionalChain object
  | index object _ optional => optional || isOptionalChain object
  | call callee _ => isOptionalChain callee
  | _ => false

end Expr

end SchemaCanvas
