import SchemaCanvas.Schema.Node

/-!
# Conditions

An element with a condition is shown if the condition holds, or else if its `elseIf` holds. If both
fail, its `else` branch stands in for it. Text that spells a false value counts as false, so that a
template in a condition means the same as the expression in it.
-/

namespace SchemaCanvas

/-- Texts that count as false. -/
def falseTexts : List String := ["", "false", "0", "null", "undefined"]

/-- A value as a condition. -/
def Value.holds : Value → Bool
  | some (.str s) => !falseTexts.contains (Text.trim s)
  | v => v.isTruthy

/-- A condition holds in a context. -/
def PropValue.holds (condition : PropValue) (context : Json) (transforms : Transforms) : Bool :=
  (condition.resolve context transforms).holds

/-- What is shown in the place of an element. -/
inductive Branch where
  /-- the element itself -/
  | self
  | node (n : Node)
  | nothing

/-- What an `else` branch shows. A flag shows nothing, whatever it says. -/
def ElseBranch.branch : Option ElseBranch → Branch
  | some (node n) => .node n
  | some (flag _) | none => .nothing

/-- What is shown in the place of an element in a context. Without an `if`, `elseIf` and `else` are
not looked at. -/
def Element.branch (e : Element) (context : Json) (transforms : Transforms) : Branch :=
  match e.condition with
  | none => .self
  | some condition =>
    if condition.holds context transforms then .self
    else if e.elseIf.any fun c => c.holds context transforms then .self
    else ElseBranch.branch e.otherwise

end SchemaCanvas
