import SchemaCanvas.Expr.Token

/-!
# Failures of evaluation
-/

namespace SchemaCanvas

/-- What is wrong with the arguments of a call. -/
inductive ArgumentFault where
  | arrowExpected
  | padTooWide
  | digitsOutOfRange
deriving DecidableEq

/-- The longest text that padding makes. -/
def maxPadWidth : Nat := 10000

/-- The description of a fault. -/
def ArgumentFault.message : ArgumentFault → String
  | arrowExpected => "expected an arrow function"
  | padTooWide => s!"width must not exceed {maxPadWidth}"
  | digitsOutOfRange => "digits must be between 0 and 100"

/-- Why an expression has no value. -/
inductive EvalError where
  | malformed (e : SyntaxError)
  | unknownIdentifier (name : String)
  /-- a property of null or undefined; `target` names which of the two -/
  | nullAccess (property target : String)
  | notCallable (name : String)
  | lambdaOutsideCall
  | badArguments (function : String) (fault : ArgumentFault)

/-- The description of a failure. -/
def EvalError.message : EvalError → String
  | malformed e => e.message
  | unknownIdentifier name => s!"'{name}' is not defined"
  | nullAccess property target => s!"cannot read property '{property}' of {target}"
  | notCallable name => s!"'{name}' is not an allowed function"
  | lambdaOutsideCall => "arrow functions are only allowed as arguments to array methods"
  | badArguments function fault => s!"{function}: " ++ fault.message

end SchemaCanvas
