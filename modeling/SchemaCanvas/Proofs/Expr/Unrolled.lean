import SchemaCanvas.Expr.Eval
import SchemaCanvas.Proofs.Expr.Size

/-!
# Evaluation to a depth

The value of an expression comes from the values of expressions inside it. `Expr.evalOnce` is this
one step, with the evaluation of what is inside as an argument, and `Expr.evalWithin` takes the step
so many times and then leaves the rest to a fallback. Every part of an expression has less weight,
so the fallback does not come in where the depth is above the weight.

* `Expr.weight_lt_of_mem_parts` : parts weigh less;
* `Expr.eval_eq` : evaluation goes by such steps;
* `Expr.evalWithin_eq_eval` : a depth above the weight is enough.
-/

namespace SchemaCanvas

namespace Expr

/-! ### Parts -/

/-- The expressions of which an expression is made. -/
def parts : Expr → List Expr
  | literal _ | undefined | ident _ => []
  | array items => items
  | member object _ _ => [object]
  | index object key _ => [object, key]
  | call callee args => callee :: args
  | lambda _ body => [body]
  | unary _ operand => [operand]
  | binary _ left right | logical _ left right => [left, right]
  | conditional test consequent alternate => [test, consequent, alternate]

/-- Composite nodes and nesting together. -/
def weight (e : Expr) : Nat := e.composites + e.nesting

variable {e part : Expr} {items : List Expr}

theorem composites_le_of_mem (h : part ∈ items) : part.composites ≤ listComposites items := by
  induction h with
  | head => exact Nat.le_add_right _ _
  | tail _ _ ih => exact Nat.le_trans ih (Nat.le_add_left _ _)

theorem nesting_lt_of_mem (h : part ∈ items) : part.nesting < listNesting items := by
  induction h with
  | head => exact Nat.le_max_left _ _
  | tail _ _ ih => exact Nat.lt_of_lt_of_le ih (Nat.le_max_right _ _)

theorem le_enclosed (needed : Bool) (nesting : Nat) : nesting ≤ enclosed needed nesting := by
  rw [enclosed]
  split <;> omega

theorem weight_lt_apply (op : Infix) {left right : Expr} (h : part = left ∨ part = right) :
    part.weight < (op.apply left right).weight := by
  have hleft := le_enclosed (left.level < op.level + 1) left.nesting
  have hright := le_enclosed (right.level < op.level + 2) right.nesting
  rw [weight, weight, composites_apply, nesting_apply, nestingAt, nestingAt]
  obtain rfl | rfl := h
  · omega
  · omega

/-- **Parts weigh less than the whole.** Lists are no composite nodes, but what is in them lies
deeper. -/
theorem weight_lt_of_mem_parts (h : part ∈ e.parts) : part.weight < e.weight := by
  have hitem {items : List Expr} (h : part ∈ items) :
      part.weight < listComposites items + listNesting items :=
    Nat.add_lt_add_of_le_of_lt (composites_le_of_mem h) (nesting_lt_of_mem h)
  cases e with
  | literal | undefined | ident => exact absurd h List.not_mem_nil
  | array items => exact hitem h
  | member object | lambda param object | unary op object =>
    obtain rfl := List.mem_singleton.1 h
    have := le_enclosed (part.level < 9) part.nesting
    have := le_enclosed (part.level < 8) part.nesting
    simp only [weight, composites, nesting]
    omega
  | index object key =>
    have := le_enclosed (object.level < 9) object.nesting
    simp only [parts, List.mem_cons, List.not_mem_nil, or_false] at h
    simp only [weight, composites, nesting]
    obtain rfl | rfl := h
    · omega
    · omega
  | call callee args =>
    have := le_enclosed (callee.level < 9) callee.nesting
    simp only [weight, composites, nesting]
    obtain rfl | h := List.mem_cons.1 h
    · omega
    · have := hitem h
      simp only [weight] at this
      omega
  | binary op => exact weight_lt_apply (.binary op) (by simpa [parts] using h)
  | logical op => exact weight_lt_apply (.logical op) (by simpa [parts] using h)
  | conditional test consequent alternate =>
    have := le_enclosed (test.level < 1) test.nesting
    simp only [parts, List.mem_cons, List.not_mem_nil, or_false] at h
    simp only [weight, composites, nesting]
    obtain rfl | rfl | rfl := h
    · omega
    · omega
    · omega

/-! ### One step -/

/-- What evaluates expressions. -/
abbrev Evaluator := Expr → Env → Except EvalError Value

/-- The values of a list of expressions. -/
def evalItems (inner : Evaluator) : List Expr → Env → Except EvalError (List Value)
  | [], _ => .ok []
  | e :: rest, env => do
    let v ← inner e env
    let vs ← evalItems inner rest env
    .ok (v :: vs)

/-- The value of a method call on a value. -/
def callOnce (inner : Evaluator) (receiver : Value) (method : String) (optional : Bool)
    (args : List Expr) (env : Env) : Except EvalError Value :=
  match receiver with
  | some .null => skipped "null" method optional
  | none => skipped "undefined" method optional
  | some (.arr items) =>
    match ListCallback.ofName? method with
    | some m =>
      match args with
      | lambda param body :: _ => m.run (fun v => inner body (env.bind param (some v))) items
      | _ => .error (.badArguments method .arrowExpected)
    | none => do (Json.arr items).callMethod method (← evalItems inner args env)
  | some receiver => do receiver.callMethod method (← evalItems inner args env)

/-- The value of an expression from the values of what is inside it. -/
def evalOnce (inner : Evaluator) : Evaluator
  | literal v, _ => .ok (some v)
  | undefined, _ => .ok none
  | ident name, env => env.find name
  | array items, env => do
    let vs ← evalItems inner items env
    .ok (some (.arr (vs.map fun v => v.getD .null)))
  | member object property optional, env =>
    match env.constant? (.member object property optional) with
    | some v => .ok (some v)
    | none => do
      let target ← inner object env
      target.property property (optional || object.isOptionalChain)
  | index object key optional, env => do
    let target ← inner object env
    let key ← inner key env
    target.property key.propertyName (optional || object.isOptionalChain)
  | call callee args, env =>
    match env.callee callee with
    | .builtin f => do
      let vs ← evalItems inner args env
      .ok (f.apply vs)
    | .refused name => .error (.notCallable name)
    | .method =>
      match callee with
      | member object method optional => do
        let receiver ← inner object env
        callOnce inner receiver method (optional || object.isOptionalChain) args env
      | e => .error (.notCallable (e.dottedName?.getD "expression"))
  | lambda .., _ => .error .lambdaOutsideCall
  | unary op operand, env => do
    let v ← inner operand env
    .ok (some (op.apply v))
  | binary op left right, env => do
    let l ← inner left env
    let r ← inner right env
    .ok (some (op.apply l r))
  | logical op left right, env => do
    let l ← inner left env
    if op.isSettled l then .ok l else inner right env
  | conditional test consequent alternate, env => do
    if (← inner test env).isTruthy then inner consequent env else inner alternate env

theorem evalList_eq (items : List Expr) (env : Env) :
    evalList items env = evalItems eval items env := by
  induction items with
  | nil => rfl
  | cons e rest ih => rw [evalList, evalItems, ih]

theorem call_method_eq (object : Expr) (method : String) (optional : Bool) (args : List Expr)
    (env : Env) (h : env.callee (.member object method optional) = .method) :
    (call (.member object method optional) args).eval env = (do
      let receiver ← object.eval env
      callOnce eval receiver method (optional || object.isOptionalChain) args env) := by
  rw [eval, h]
  refine congrArg (Except.bind _) (funext fun receiver => ?_)
  cases receiver with
  | none => rfl
  | some v =>
    cases v with
    | null => rfl
    | arr items =>
      cases hcallback : ListCallback.ofName? method with
      | none => simp only [callOnce, hcallback, evalList_eq]
      | some m =>
        simp only [callOnce, hcallback]
        cases args with
        | nil => rfl
        | cons first rest => cases first <;> rfl
    | _ => simp only [callOnce, evalList_eq]

/-- **The value of an expression comes from the values of what is inside it.** -/
theorem eval_eq (e : Expr) (env : Env) : e.eval env = evalOnce eval e env := by
  cases e with
  | array items => rw [eval, evalOnce, evalList_eq]
  | member => exact (eval.eq_def ..).trans rfl
  | call callee args =>
    cases h : env.callee callee with
    | builtin | refused =>
      rw [eval.eq_def]
      simp only [evalOnce, evalList_eq, h]
    | method =>
      cases callee with
      | member => simp only [call_method_eq, evalOnce, h]
      | _ => simp only [eval, evalOnce, h]
  | _ => rw [eval, evalOnce]

/-! ### Steps in a row -/

/-- So many steps, and a fallback for what lies deeper. -/
def evalWithin (fallback : Evaluator) : Nat → Evaluator
  | 0 => fallback
  | depth + 1 => evalOnce (evalWithin fallback depth)

variable {inner inner' : Evaluator}

theorem evalItems_congr (h : ∀ e ∈ items, ∀ env, inner e env = inner' e env) (env : Env) :
    evalItems inner items env = evalItems inner' items env := by
  induction items with
  | nil => rfl
  | cons e rest ih =>
    obtain ⟨he, hrest⟩ := List.forall_mem_cons.1 h
    rw [evalItems, evalItems, he, ih hrest]

theorem callOnce_congr {args : List Expr} {limit : Nat}
    (h : ∀ part, part.weight < limit → ∀ env, inner part env = inner' part env)
    (hargs : ∀ e ∈ args, e.weight < limit) (receiver : Value) (method : String) (optional : Bool)
    (env : Env) :
    callOnce inner receiver method optional args env =
      callOnce inner' receiver method optional args env := by
  have hitems := evalItems_congr (fun e he => h e (hargs e he)) env
  unfold callOnce
  split
  · rfl
  · rfl
  · split
    · split
      · next param body rest =>
        -- between the body and the call lies the function
        have hbody : body.weight < (lambda param body).weight :=
          weight_lt_of_mem_parts (List.mem_singleton.2 rfl)
        have hlambda := hargs (lambda param body) List.mem_cons_self
        simp only [h body (Nat.lt_trans hbody hlambda)]
      · rfl
    · rw [hitems]
  · rw [hitems]

/-- **One step evaluates lighter expressions only.** -/
theorem evalOnce_congr
    (h : ∀ part, part.weight < e.weight → ∀ env, inner part env = inner' part env) (env : Env) :
    evalOnce inner e env = evalOnce inner' e env := by
  have hpart (part : Expr) (hmem : part ∈ e.parts) := h part (weight_lt_of_mem_parts hmem)
  cases e with
  | literal | undefined | ident | lambda => rfl
  | array items =>
    have hitems : evalItems inner items env = evalItems inner' items env :=
      evalItems_congr hpart env
    rw [evalOnce, evalOnce, hitems]
  | member object | unary op object => simp only [evalOnce, hpart object List.mem_cons_self]
  | index left right | binary op left right | logical op left right =>
    simp only [evalOnce, hpart left List.mem_cons_self,
      hpart right (List.mem_cons_of_mem _ List.mem_cons_self)]
  | call callee args =>
    have hargs (arg : Expr) (harg : arg ∈ args) := List.mem_cons_of_mem callee harg
    simp only [evalOnce, evalItems_congr fun arg harg => hpart arg (hargs arg harg)]
    cases env.callee callee with
    | builtin | refused => rfl
    | method =>
      cases callee with
      | member object property optional =>
        -- between the object and the call lies the method
        let callee := member object property optional
        have hcallee : callee.weight < (call callee args).weight :=
          weight_lt_of_mem_parts List.mem_cons_self
        have hobject : object.weight < callee.weight := weight_lt_of_mem_parts List.mem_cons_self
        simp only [h object (Nat.lt_trans hobject hcallee),
          callOnce_congr h fun arg harg => weight_lt_of_mem_parts (hargs arg harg)]
      | _ => rfl
  | conditional test consequent alternate =>
    simp only [evalOnce, hpart test List.mem_cons_self,
      hpart consequent (List.mem_cons_of_mem _ List.mem_cons_self),
      hpart alternate (List.mem_cons_of_mem _ (List.mem_cons_of_mem _ List.mem_cons_self))]

/-- **A depth above the weight is enough,** whatever would come below. -/
theorem evalWithin_eq_eval (fallback : Evaluator) {depth : Nat} (h : e.weight < depth) (env : Env) :
    evalWithin fallback depth e env = e.eval env := by
  induction depth generalizing e env with
  | zero => exact absurd h (Nat.not_lt_zero _)
  | succ depth ih =>
    rw [evalWithin, eval_eq]
    exact evalOnce_congr (fun part hpart => ih (Nat.lt_of_lt_of_le hpart (Nat.le_of_lt_succ h))) env

end Expr

end SchemaCanvas
