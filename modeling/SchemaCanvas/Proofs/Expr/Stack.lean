import SchemaCanvas.Proofs.Expr.Unrolled

/-!
# Parameters on a stack

An environment is a value: a function that is called gets a new one. Here evaluation has one stack
of parameters instead. A call puts its parameter on the stack, evaluates the body and takes off what
lies on top, whether the body had a value or not, and all methods of lists share one loop over the
items. Nothing in this says that a failure inside leaves the stack in order; it is proved, together
with the agreement of both ways.

* `OnStack`, `Expr.evalOn` : evaluation on a stack;
* `ListCallback.loop` : the loop of the methods that take a function;
* `ListCallback.loop_eq_run` : what the loop gives;
* `Expr.evalOn_eq` : the outcome is that of `Expr.eval`, and the stack is left as it was.
-/

namespace SchemaCanvas

/-- An evaluation with a stack of parameters. It leaves a stack behind where it fails, too. -/
abbrev OnStack := EStateM EvalError (List (String × Value))

namespace OnStack

variable {α β : Type}

/-- An outcome that leaves the stack alone. -/
def ofOutcome (r : Except EvalError α) : OnStack α := fun params =>
  match r with
  | .ok a => .ok a params
  | .error e => .error e params

/-- Look something up in the scope and on the stack. -/
def asking (scope : Scope) (f : Env → α) : OnStack α := fun params => .ok (f ⟨scope, params⟩) params

/-- Evaluate with one more parameter, and take off what lies on top afterwards. -/
def withParam (param : String) (v : Value) (body : OnStack α) : OnStack α := fun params =>
  match body ((param, v) :: params) with
  | .ok a left => .ok a left.tail
  | .error e left => .error e left.tail

variable {params : List (String × Value)}

/-- **One step after the other.** If both leave the stack alone, so do they together. -/
theorem bind_eq {x : OnStack α} {next : α → OnStack β} {r : Except EvalError α}
    {next' : α → Except EvalError β} (h : x params = ofOutcome r params)
    (hnext : ∀ a, next a params = ofOutcome (next' a) params) :
    (x >>= next) params = ofOutcome (r >>= next') params := by
  change EStateM.bind x next params = _
  rw [EStateM.bind, h]
  cases r with
  | ok a => exact hnext a
  | error e => rfl

theorem asking_bind (scope : Scope) (f : Env → α) (next : α → OnStack β) :
    (asking scope f >>= next) params = next (f ⟨scope, params⟩) params := rfl

theorem withParam_eq {param : String} {v : Value} {body : OnStack α} {r : Except EvalError α}
    (h : body ((param, v) :: params) = ofOutcome r ((param, v) :: params)) :
    withParam param v body params = ofOutcome r params := by
  rw [withParam, h]
  cases r <;> rfl

end OnStack

/-! ### The loop over the items -/

namespace ListCallback

/-- What follows from the result for one item: the value of the call, or items for the list that is
made. -/
def round (m : ListCallback) (i : Nat) (item : Json) (result : Value) : Value ⊕ List Json :=
  let stop (stops : Bool) (v : Json) : Value ⊕ List Json :=
    if stops then .inl (Option.some v) else .inr []
  match m with
  | map => .inr [result.getD .null]
  | filter => .inr (if result.isTruthy then [item] else [])
  | find => stop result.isTruthy item
  | findIndex => stop result.isTruthy (TextMethod.positionOrNone (Option.some i))
  | some => stop result.isTruthy (.bool true)
  | every => stop (!result.isTruthy) (.bool false)

/-- The value of a call that was not stopped. -/
def finish (m : ListCallback) (made : List Json) : Value :=
  match m with
  | map | filter => Option.some (.arr made)
  | find => none
  | findIndex => Option.some (TextMethod.positionOrNone none)
  | some => Option.some (.bool false)
  | every => Option.some (.bool true)

/-- The loop that all methods share. -/
def loop {M : Type → Type} [Monad M] (m : ListCallback) (call : Json → M Value) :
    Nat → List Json → List Json → M Value
  | _, made, [] => pure (m.finish made)
  | i, made, item :: rest => do
    let result ← call item
    match m.round i item result with
    | .inl v => pure v
    | .inr more => loop m call (i + 1) (made ++ more) rest

variable {f : Json → Except EvalError Value} {m : ListCallback}

theorem loop_eq_firstHit (stops : Value → Bool) {found : Option (Nat × Json) → Value}
    (hround : ∀ i item result, m.round i item result =
      if stops result then .inl (found (Option.some (i, item))) else .inr [])
    (hfinish : ∀ made, m.finish made = found none) (i : Nat) (made items : List Json) :
    m.loop f i made items = (firstHit (fun v => (f v).map stops) i items).map found := by
  induction items generalizing i made with
  | nil =>
    rw [loop, hfinish]
    rfl
  | cons item rest ih =>
    rw [loop, firstHit]
    cases f item with
    | error e => rfl
    | ok result =>
      change (match m.round i item result with | .inl v => _ | .inr more => _) =
        Except.map _ (if stops result then _ else _)
      rw [hround]
      cases stops result with
      | true => rfl
      | false => exact ih (i + 1) (made ++ [])

theorem loop_eq_collect (collect : List Json → Except EvalError (List Json))
    (more : Json → Value → List Json)
    (hround : ∀ i item result, m.round i item result = .inr (more item result))
    (hfinish : ∀ made, m.finish made = Option.some (.arr made)) (hnil : collect [] = .ok [])
    (hcons : ∀ item rest, collect (item :: rest) = do
      let result ← f item
      let vs ← collect rest
      .ok (more item result ++ vs))
    (i : Nat) (made items : List Json) :
    m.loop f i made items = (collect items).map fun vs => Option.some (.arr (made ++ vs)) := by
  induction items generalizing i made with
  | nil =>
    rw [loop, hfinish, hnil, Except.map, List.append_nil]
    rfl
  | cons item rest ih =>
    rw [loop, hcons]
    cases f item with
    | error e => rfl
    | ok result =>
      change (match m.round i item result with | .inl v => _ | .inr more => _) =
        Except.map _ (Except.bind (collect rest) _)
      rw [hround]
      refine (ih (i + 1) (made ++ more item result)).trans ?_
      cases collect rest with
      | error e => rfl
      | ok vs => simp only [Except.map, Except.bind, List.append_assoc]

/-- **The loop gives the value of the call.** -/
theorem loop_eq_run (m : ListCallback) (f : Json → Except EvalError Value) (items : List Json) :
    m.loop f 0 [] items = m.run f items := by
  cases m with
  | map =>
    exact loop_eq_collect (mapItems f) (fun _ result => [result.getD .null]) (fun _ _ _ => rfl)
      (fun _ => rfl) rfl (fun _ _ => rfl) 0 [] items
  | filter =>
    refine loop_eq_collect (filterItems fun v => (f v).map Value.isTruthy)
      (fun item result => if result.isTruthy then [item] else []) (fun _ _ _ => rfl)
      (fun _ => rfl) rfl (fun item rest => ?_) 0 [] items
    rw [filterItems]
    cases f item with
    | error e => rfl
    | ok result =>
      change Except.bind (filterItems _ rest) _ = Except.bind (filterItems _ rest) _
      refine congrArg (Except.bind _) (funext fun vs => ?_)
      split <;> rfl
  | find | findIndex | some =>
    exact loop_eq_firstHit Value.isTruthy (fun _ _ _ => rfl) (fun _ => rfl) 0 [] items
  | every =>
    have hstops : (fun v => ((f v).map Value.isTruthy).map (!·)) =
        fun v => (f v).map fun result => !result.isTruthy := by
      funext v
      cases f v <;> rfl
    rw [run]
    dsimp only
    rw [hstops]
    exact loop_eq_firstHit _ (fun _ _ _ => rfl) (fun _ => rfl) 0 [] items

theorem loop_eq_ofOutcome {call : Json → OnStack Value} {params : List (String × Value)}
    (h : ∀ v, call v params = OnStack.ofOutcome (f v) params) (m : ListCallback) (i : Nat)
    (made items : List Json) :
    m.loop call i made items params = OnStack.ofOutcome (m.loop f i made items) params := by
  induction items generalizing i made with
  | nil => rfl
  | cons item rest ih =>
    rw [loop, loop]
    refine OnStack.bind_eq (h item) fun result => ?_
    cases m.round i item result with
    | inl v => rfl
    | inr more => exact ih (i + 1) (made ++ more)

end ListCallback

/-! ### Evaluation -/

namespace Expr

open OnStack

/-- The value of a method call on a value. -/
def callOn (receiver : Value) (method : String) (optional : Bool)
    (function? : Option (String × OnStack Value)) (args : OnStack (List Value)) : OnStack Value :=
  match receiver with
  | some .null => ofOutcome (skipped "null" method optional)
  | none => ofOutcome (skipped "undefined" method optional)
  | some (.arr items) =>
    match ListCallback.ofName? method with
    | some m =>
      match function? with
      | some (param, body) => m.loop (fun v => withParam param (some v) body) 0 [] items
      | none => throw (.badArguments method .arrowExpected)
    | none => do ofOutcome ((Json.arr items).callMethod method (← args))
  | some receiver => do ofOutcome (receiver.callMethod method (← args))

mutual

/-- The value of an expression, with the parameters on a stack. -/
def evalOn (scope : Scope) : Expr → OnStack Value
  | literal v => pure (some v)
  | undefined => pure none
  | ident name => do ofOutcome (← asking scope fun env => env.find name)
  | array items => do
    let vs ← evalAllOn scope items
    pure (some (.arr (vs.map fun v => v.getD .null)))
  | member object property optional => do
    match ← asking scope fun env => env.constant? (.member object property optional) with
    | some v => pure (some v)
    | none => do
      let target ← evalOn scope object
      ofOutcome (target.property property (optional || object.isOptionalChain))
  | index object key optional => do
    let target ← evalOn scope object
    let key ← evalOn scope key
    ofOutcome (target.property key.propertyName (optional || object.isOptionalChain))
  | call callee args => do
    match ← asking scope fun env => env.callee callee with
    | .builtin f => do
      let vs ← evalAllOn scope args
      pure (f.apply vs)
    | .refused name => throw (.notCallable name)
    | .method =>
      match callee with
      | member object method optional => do
        let receiver ← evalOn scope object
        callOn receiver method (optional || object.isOptionalChain) (functionOn? scope args)
          (evalAllOn scope args)
      | e => throw (.notCallable (e.dottedName?.getD "expression"))
  | lambda .. => throw .lambdaOutsideCall
  | unary op operand => do
    let v ← evalOn scope operand
    pure (some (op.apply v))
  | binary op left right => do
    let l ← evalOn scope left
    let r ← evalOn scope right
    pure (some (op.apply l r))
  | logical op left right => do
    let l ← evalOn scope left
    if op.isSettled l then pure l else evalOn scope right
  | conditional test consequent alternate => do
    let v ← evalOn scope test
    if v.isTruthy then evalOn scope consequent else evalOn scope alternate

/-- The values of a list of expressions. -/
def evalAllOn (scope : Scope) : List Expr → OnStack (List Value)
  | [] => pure []
  | e :: rest => do
    let v ← evalOn scope e
    let vs ← evalAllOn scope rest
    pure (v :: vs)

/-- The function that comes first among arguments. -/
def functionOn? (scope : Scope) : List Expr → Option (String × OnStack Value)
  | lambda param body :: _ => some (param, evalOn scope body)
  | _ => none

end

variable {scope : Scope} {params : List (String × Value)}

theorem callOn_eq {args : List Expr}
    (hargs : evalAllOn scope args params = ofOutcome (evalItems eval args ⟨scope, params⟩) params)
    (hbody : ∀ param body rest, args = lambda param body :: rest →
      ∀ params, evalOn scope body params = ofOutcome (body.eval ⟨scope, params⟩) params)
    (receiver : Value) (method : String) (optional : Bool) :
    callOn receiver method optional (functionOn? scope args) (evalAllOn scope args) params =
      ofOutcome (callOnce eval receiver method optional args ⟨scope, params⟩) params := by
  cases receiver with
  | none => rfl
  | some v =>
    cases v with
    | null => rfl
    | arr items =>
      rw [callOn, callOnce]
      cases ListCallback.ofName? method with
      | none => exact bind_eq hargs fun vs => rfl
      | some m =>
        cases args with
        | nil => rfl
        | cons first rest =>
          cases first with
          | lambda param body =>
            have hcall (v : Json) :=
              withParam_eq (v := some v) (hbody param body rest rfl ((param, some v) :: params))
            have hloop := ListCallback.loop_eq_ofOutcome hcall m 0 [] items
            rw [ListCallback.loop_eq_run] at hloop
            exact hloop
          | _ => rfl
    | _ => exact bind_eq hargs fun vs => rfl

mutual

/-- **The outcome is that of an environment, and the stack is left as it was,** also by a
failure. -/
theorem evalOn_eq (scope : Scope) (params : List (String × Value)) : (e : Expr) →
    evalOn scope e params = ofOutcome (e.eval ⟨scope, params⟩) params
  | literal _ | undefined | ident _ | lambda .. => rfl
  | array items => by
    rw [evalOn, eval_eq, evalOnce]
    exact bind_eq (evalAllOn_eq scope params items) fun vs => rfl
  | member object property optional => by
    rw [evalOn, asking_bind, eval_eq, evalOnce]
    cases Env.constant? ⟨scope, params⟩ (.member object property optional) with
    | some v => rfl
    | none => exact bind_eq (evalOn_eq scope params object) fun target => rfl
  | index object key optional => by
    rw [evalOn, eval]
    refine bind_eq (evalOn_eq scope params object) fun target => ?_
    exact bind_eq (evalOn_eq scope params key) fun key => rfl
  | call callee args => by
    have hargs := evalAllOn_eq scope params args
    rw [evalOn.eq_def, eval_eq, evalOnce.eq_def]
    dsimp only
    rw [asking_bind]
    cases Env.callee ⟨scope, params⟩ callee with
    | builtin f => exact bind_eq hargs fun vs => rfl
    | refused name => rfl
    | method =>
      cases callee with
      | member object method optional =>
        refine bind_eq (evalOn_eq scope params object) fun receiver => ?_
        exact callOn_eq hargs (body_eq scope args) receiver method _
      | _ => rfl
  | unary op operand => by
    rw [evalOn, eval]
    exact bind_eq (evalOn_eq scope params operand) fun v => rfl
  | binary op left right => by
    rw [evalOn, eval]
    refine bind_eq (evalOn_eq scope params left) fun l => ?_
    exact bind_eq (evalOn_eq scope params right) fun r => rfl
  | logical op left right => by
    rw [evalOn, eval]
    refine bind_eq (evalOn_eq scope params left) fun l => ?_
    split
    · rfl
    · exact evalOn_eq scope params right
  | conditional test consequent alternate => by
    rw [evalOn, eval]
    refine bind_eq (evalOn_eq scope params test) fun v => ?_
    split
    · exact evalOn_eq scope params consequent
    · exact evalOn_eq scope params alternate

theorem evalAllOn_eq (scope : Scope) (params : List (String × Value)) : (items : List Expr) →
    evalAllOn scope items params = ofOutcome (evalItems eval items ⟨scope, params⟩) params
  | [] => rfl
  | e :: rest => by
    rw [evalAllOn, evalItems]
    refine bind_eq (evalOn_eq scope params e) fun v => ?_
    exact bind_eq (evalAllOn_eq scope params rest) fun vs => rfl

theorem body_eq (scope : Scope) : (args : List Expr) → ∀ param body rest,
    args = lambda param body :: rest →
      ∀ params, evalOn scope body params = ofOutcome (body.eval ⟨scope, params⟩) params
  | lambda _ body :: _, _, _, _, rfl, params => evalOn_eq scope params body

end

end Expr

end SchemaCanvas
