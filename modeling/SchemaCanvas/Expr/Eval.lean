import SchemaCanvas.Expr.Method
import SchemaCanvas.Expr.Parser
import SchemaCanvas.Expr.Scope

/-!
# Evaluation

`Expr.eval` gives an expression its value in an environment: the names of the context and the
parameters of the functions around it, which hide names of the context. A name that is bound is
never a function of the language.

* `Expr.evaluate` reads an expression from text and evaluates it in a context;
* `Expr.value` is the same with undefined for every failure.
-/

namespace SchemaCanvas

/-! ### Environments -/

/-- The names an expression sees. -/
structure Env where
  scope : Scope
  /-- Parameters, the innermost first. -/
  params : List (String × Value)

namespace Env

/-- A name has a value. -/
def isBound (env : Env) (name : String) : Bool :=
  (env.params.lookup name).isSome || (env.scope.lookup name).isSome

/-- The value of a name. -/
def find (env : Env) (name : String) : Except EvalError Value :=
  match env.params.lookup name with
  | some v => .ok v
  | none =>
    match env.scope.lookup name with
    | some v => .ok (some v)
    | none => .error (.unknownIdentifier name)

/-- Give a parameter a value. -/
def bind (env : Env) (param : String) (v : Value) : Env :=
  { env with params := (param, v) :: env.params }

/-- The constant that a chain of members names, unless its first name is bound. -/
def constant? (env : Env) (e : Expr) : Option Json :=
  match e.dottedName?, e.rootName? with
  | some name, some root => if env.isBound root then none else Builtin.constant? name
  | _, _ => none

end Env

/-! ### Properties -/

/-- A property of a value that is not nullish. -/
def Json.property? (name : String) : Json → Value
  | .obj fields => fields.lookup name
  | .arr items =>
    if name = "length" then some (.ofNat items.length)
    else (Numeral.readIndex? name.toList).bind fun i => items[i]?
  | .str s =>
    if name = "length" then some (.ofNat s.length)
    else (Numeral.readIndex? name.toList).bind fun i => s.toList[i]?.map fun c => .str c.toString
  | _ => none

/-- A property of a value. Nullish values have none, which is a failure outside optional chains. -/
def Value.property (v : Value) (name : String) (optional : Bool) : Except EvalError Value :=
  match v with
  | none | some .null => if optional then .ok none else .error (.nullAccess name v.typeName)
  | some v => .ok (v.property? name)

/-- The name of the property that an index stands for. A natural number is written in 64 bits. -/
def Value.propertyName (key : Value) : String :=
  match key with
  | some (.num n) =>
    let b := Binary.ofFloat n.toFloat
    match b.whole? with
    | some i => if 0 ≤ i then toString (b.clamp 0 Word.maxUnsigned) else key.display
    | none => key.display
  | _ => key.display

/-! ### Operators -/

/-- The value of a unary operator. -/
def UnaryOp.apply (op : UnaryOp) (v : Value) : Json :=
  match op with
  | not => .bool !v.isTruthy
  | neg => .computed (-v.toFloat)
  | plus => .computed v.toFloat
  | typeOf =>
    .str (match v with
      | some (.arr _) | some .null => "object"
      | v => v.typeName)

/-- A text, a list or an object makes an addition a concatenation. -/
def Value.isTextual : Value → Bool
  | some (.str _) | some (.arr _) | some (.obj _) => true
  | _ => false

/-- Addition, or concatenation of texts. -/
def Value.add (l r : Value) : Json :=
  if l.isTextual || r.isTextual then .str (l.display ++ r.display)
  else .computed (l.toFloat + r.toFloat)

/-- A comparison: of two texts by code points, otherwise of floats. -/
def Value.compareBy (texts : String → String → Bool) (floats : Float → Float → Bool)
    (l r : Value) : Json :=
  match l, r with
  | some (.str a), some (.str b) => .bool (texts a b)
  | l, r => .bool (floats l.toFloat r.toFloat)

/-- The value of a binary operator. -/
def BinaryOp.apply (op : BinaryOp) (l r : Value) : Json :=
  match op with
  | add => l.add r
  | sub => .computed (l.toFloat - r.toFloat)
  | mul => .computed (l.toFloat * r.toFloat)
  | div => .computed (l.toFloat / r.toFloat)
  | rem => .computed (Binary.remainder l.toFloat r.toFloat)
  | lt => Value.compareBy (fun a b => a < b) (fun x y => x < y) l r
  | le => Value.compareBy (fun a b => a ≤ b) (fun x y => x ≤ y) l r
  | gt => Value.compareBy (fun a b => b < a) (fun x y => y < x) l r
  | ge => Value.compareBy (fun a b => b ≤ a) (fun x y => y ≤ x) l r
  | looseEq => .bool (Value.looseEq l r)
  | looseNe => .bool !(Value.looseEq l r)
  | strictEq => .bool (Value.strictEq l r)
  | strictNe => .bool !(Value.strictEq l r)

/-- The value of the left operand settles a logical operator. -/
def LogicalOp.isSettled (op : LogicalOp) (l : Value) : Bool :=
  match op with
  | and => !l.isTruthy
  | or => l.isTruthy
  | nullish => !l.isNullish

/-! ### Methods that take a function -/

/-- A method of lists that calls a function on the items. -/
inductive ListCallback where
  | map | filter | find | findIndex | some | every
deriving DecidableEq

namespace ListCallback

/-- The name of a method. -/
def name : ListCallback → String
  | map => "map" | filter => "filter" | find => "find" | findIndex => "findIndex"
  | some => "some" | every => "every"

/-- The method of a name. -/
def ofName? (s : String) : Option ListCallback :=
  [map, filter, find, findIndex, some, every].find? fun m => m.name = s

@[simp]
theorem ofName?_name (m : ListCallback) : ofName? m.name = Option.some m := by cases m <;> rfl

/-- The results of a function on all items. -/
def mapItems (f : Json → Except EvalError Value) : List Json → Except EvalError (List Json)
  | [] => .ok []
  | v :: rest => do
    let w ← f v
    let ws ← mapItems f rest
    .ok (w.getD .null :: ws)

/-- The items on which a function holds. -/
def filterItems (f : Json → Except EvalError Bool) : List Json → Except EvalError (List Json)
  | [] => .ok []
  | v :: rest => do
    let keep ← f v
    let vs ← filterItems f rest
    .ok (if keep then v :: vs else vs)

/-- The first item on which a function holds, and its position; later items are not looked at. -/
def firstHit (f : Json → Except EvalError Bool) :
    Nat → List Json → Except EvalError (Option (Nat × Json))
  | _, [] => .ok none
  | i, v :: rest => do
    if ← f v then .ok (Option.some (i, v)) else firstHit f (i + 1) rest

/-- The value of a call with the function `f`. -/
def run (m : ListCallback) (f : Json → Except EvalError Value) (items : List Json) :
    Except EvalError Value :=
  let holds := fun v => (f v).map Value.isTruthy
  match m with
  | map => (mapItems f items).map fun vs => Option.some (.arr vs)
  | filter => (filterItems holds items).map fun vs => Option.some (.arr vs)
  | find => (firstHit holds 0 items).map fun hit => hit.map Prod.snd
  | findIndex =>
    (firstHit holds 0 items).map fun hit =>
      Option.some (TextMethod.positionOrNone (hit.map Prod.fst))
  | some => (firstHit holds 0 items).map fun hit => Option.some (.bool hit.isSome)
  | every =>
    (firstHit (fun v => (holds v).map (!·)) 0 items).map fun hit =>
      Option.some (.bool hit.isNone)

end ListCallback

/-! ### Calls -/

/-- What a callee stands for. -/
inductive Callee where
  | builtin (f : Builtin)
  | refused (name : String)
  | method

/-- What a callee stands for in an environment. A name that is not bound is a function of the
language or refused. -/
def Env.callee (env : Env) (e : Expr) : Callee :=
  match e.dottedName?, e.rootName? with
  | some name, some root =>
    if env.isBound root then .method
    else
      match Builtin.ofName? name with
      | some f => .builtin f
      | none => if Builtin.groups.contains root || name = root then .refused name else .method
  | _, _ => .method

namespace Expr

/-- A method of a nullish value. -/
def skipped (target method : String) (optional : Bool) : Except EvalError Value :=
  if optional then .ok none else .error (.nullAccess method target)

mutual

/-- The value of an expression. -/
def eval : Expr → Env → Except EvalError Value
  | literal v, _ => .ok (some v)
  | undefined, _ => .ok none
  | ident name, env => env.find name
  | array items, env => do
    let vs ← evalList items env
    .ok (some (.arr (vs.map fun v => v.getD .null)))
  | member object property optional, env =>
    match env.constant? (.member object property optional) with
    | some v => .ok (some v)
    | none => do
      let target ← eval object env
      target.property property (optional || object.isOptionalChain)
  | index object key optional, env => do
    let target ← eval object env
    let key ← eval key env
    target.property key.propertyName (optional || object.isOptionalChain)
  | call callee args, env =>
    match env.callee callee with
    | .builtin f => do
      let vs ← evalList args env
      .ok (f.apply vs)
    | .refused name => .error (.notCallable name)
    | .method =>
      match callee with
      | member object method optional => do
        match ← eval object env with
        | some .null => skipped "null" method (optional || object.isOptionalChain)
        | none => skipped "undefined" method (optional || object.isOptionalChain)
        | some (.arr items) =>
          match ListCallback.ofName? method with
          | some m =>
            match function? args with
            | some (param, body) => m.run (fun v => body (env.bind param (some v))) items
            | none => .error (.badArguments method .arrowExpected)
          | none => (Json.arr items).callMethod method (← evalList args env)
        | some receiver => receiver.callMethod method (← evalList args env)
      | e => .error (.notCallable (e.dottedName?.getD "expression"))
  | lambda .., _ => .error .lambdaOutsideCall
  | unary op operand, env => do
    let v ← eval operand env
    .ok (some (op.apply v))
  | binary op left right, env => do
    let l ← eval left env
    let r ← eval right env
    .ok (some (op.apply l r))
  | logical op left right, env => do
    let l ← eval left env
    if op.isSettled l then .ok l else eval right env
  | conditional test consequent alternate, env => do
    if (← eval test env).isTruthy then eval consequent env else eval alternate env

/-- The values of a list of expressions. -/
def evalList : List Expr → Env → Except EvalError (List Value)
  | [], _ => .ok []
  | e :: rest, env => do
    let v ← eval e env
    let vs ← evalList rest env
    .ok (v :: vs)

/-- The function that comes first among arguments: its parameter and its body. -/
def function? : List Expr → Option (String × (Env → Except EvalError Value))
  | lambda param body :: _ => some (param, eval body)
  | _ => none

end

/-- Evaluate the text of an expression in a context. -/
def evaluate (text : String) (context : Json) : Except EvalError Value :=
  match parse? (Text.trim text) with
  | .error e => .error (.malformed e)
  | .ok e => e.eval ⟨Scope.ofContext context, []⟩

/-- The value of the text of an expression, undefined where it has none. -/
def value (text : String) (context : Json) : Value :=
  match evaluate text context with
  | .ok v => v
  | .error _ => none

end Expr

end SchemaCanvas
