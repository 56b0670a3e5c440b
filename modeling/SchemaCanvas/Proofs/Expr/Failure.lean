import SchemaCanvas.Proofs.Expr.Unrolled

/-!
# Why evaluation fails

Reading is over when evaluation starts, so evaluation never fails because a text is malformed. This
holds of every function of the language, passes through one step of evaluation and so holds of any
number of steps. What a text gives is malformed only if its trimmed text cannot be read, in one
context as in any other.

* `Expr.wellFormed_eval` : no expression evaluates to a malformed text;
* `Expr.malformed_evaluate_iff` : when the text of an expression is malformed.
-/

namespace SchemaCanvas

/-- A result that does not blame the text of an expression. -/
def WellFormed {α : Type} (r : Except EvalError α) : Prop := ∀ e, r ≠ .error (.malformed e)

variable {α β : Type}

theorem wellFormed_ok (a : α) : WellFormed (.ok a) := nofun

theorem wellFormed_badArguments (function : String) (fault : ArgumentFault) :
    WellFormed (.error (.badArguments function fault) : Except EvalError α) := nofun

theorem WellFormed.ite {c : Prop} [Decidable c] {r r' : Except EvalError α} (h : WellFormed r)
    (h' : WellFormed r') : WellFormed (if c then r else r') := by
  split
  · exact h
  · exact h'

theorem WellFormed.bind {r : Except EvalError α} {f : α → Except EvalError β} (h : WellFormed r)
    (hf : ∀ a, WellFormed (f a)) : WellFormed (r >>= f) := by
  cases r with
  | ok a => exact hf a
  | error err =>
    rintro e heq
    cases heq
    exact h e rfl

theorem WellFormed.map {r : Except EvalError α} (h : WellFormed r) (f : α → β) :
    WellFormed (r.map f) := by
  cases r with
  | ok a => exact wellFormed_ok _
  | error err =>
    rintro e heq
    cases heq
    exact h e rfl

/-! ### Functions of the language -/

theorem wellFormed_find (env : Env) (name : String) : WellFormed (env.find name) := by
  unfold Env.find
  split
  · exact wellFormed_ok _
  · split
    · exact wellFormed_ok _
    · exact nofun

theorem wellFormed_property (v : Value) (name : String) (optional : Bool) :
    WellFormed (v.property name optional) := by
  unfold Value.property
  split
  · exact .ite (wellFormed_ok _) nofun
  · exact .ite (wellFormed_ok _) nofun
  · exact wellFormed_ok _

theorem wellFormed_textMethod (m : TextMethod) (s : String) (args : List Value) :
    WellFormed (m.apply s args) := by
  cases m with
  | padStart =>
    exact .map (.ite (wellFormed_badArguments _ _) (.ite (wellFormed_ok _) (wellFormed_ok _))) _
  | _ => exact wellFormed_ok _

theorem wellFormed_callMethod (receiver : Json) (method : String) (args : List Value) :
    WellFormed (receiver.callMethod method args) := by
  unfold Json.callMethod
  split
  · split
    · exact (wellFormed_textMethod _ _ _).map _
    · exact nofun
  · split
    · exact wellFormed_ok _
    · exact nofun
  · exact .ite (.map (.ite (wellFormed_ok _) (wellFormed_badArguments _ _)) _)
      (.ite (wellFormed_ok _) nofun)
  · exact .ite (wellFormed_ok _) nofun
  · exact nofun

theorem wellFormed_mapItems {f : Json → Except EvalError Value} (hf : ∀ v, WellFormed (f v))
    (items : List Json) : WellFormed (ListCallback.mapItems f items) := by
  induction items with
  | nil => exact wellFormed_ok _
  | cons v rest ih => exact (hf v).bind fun w => ih.bind fun ws => wellFormed_ok _

theorem wellFormed_filterItems {f : Json → Except EvalError Bool} (hf : ∀ v, WellFormed (f v))
    (items : List Json) : WellFormed (ListCallback.filterItems f items) := by
  induction items with
  | nil => exact wellFormed_ok _
  | cons v rest ih => exact (hf v).bind fun w => ih.bind fun ws => wellFormed_ok _

theorem wellFormed_firstHit {f : Json → Except EvalError Bool} (hf : ∀ v, WellFormed (f v))
    (i : Nat) (items : List Json) : WellFormed (ListCallback.firstHit f i items) := by
  induction items generalizing i with
  | nil => exact wellFormed_ok _
  | cons v rest ih =>
    exact (hf v).bind fun hit => .ite (wellFormed_ok _) (ih _)

theorem wellFormed_run (m : ListCallback) {f : Json → Except EvalError Value}
    (hf : ∀ v, WellFormed (f v)) (items : List Json) : WellFormed (m.run f items) := by
  have hholds (v : Json) : WellFormed ((f v).map Value.isTruthy) := (hf v).map _
  cases m with
  | map => exact (wellFormed_mapItems hf items).map _
  | filter => exact (wellFormed_filterItems hholds items).map _
  | find | findIndex | some => exact (wellFormed_firstHit hholds 0 items).map _
  | every => exact (wellFormed_firstHit (fun v => (hholds v).map _) 0 items).map _

namespace Expr

/-! ### Evaluation -/

section

variable {inner : Evaluator} (hinner : ∀ e env, WellFormed (inner e env))

include hinner

theorem wellFormed_evalItems (items : List Expr) (env : Env) :
    WellFormed (evalItems inner items env) := by
  induction items with
  | nil => exact wellFormed_ok _
  | cons e rest ih => exact (hinner e env).bind fun v => ih.bind fun vs => wellFormed_ok _

theorem wellFormed_callOnce (receiver : Value) (method : String) (optional : Bool)
    (args : List Expr) (env : Env) :
    WellFormed (callOnce inner receiver method optional args env) := by
  have hargs := wellFormed_evalItems hinner args env
  have hskipped (target : String) : WellFormed (skipped target method optional) :=
    .ite (wellFormed_ok _) nofun
  unfold callOnce
  split
  · exact hskipped _
  · exact hskipped _
  · split
    · split
      · exact wellFormed_run _ (fun v => hinner _ _) _
      · exact nofun
    · exact hargs.bind fun vs => wellFormed_callMethod _ _ _
  · exact hargs.bind fun vs => wellFormed_callMethod _ _ _

theorem wellFormed_evalOnce (e : Expr) (env : Env) : WellFormed (evalOnce inner e env) := by
  cases e with
  | literal | undefined => exact wellFormed_ok _
  | ident name => exact wellFormed_find env name
  | array items => exact (wellFormed_evalItems hinner items env).bind fun vs => wellFormed_ok _
  | member object property optional =>
    rw [evalOnce]
    split
    · exact wellFormed_ok _
    · exact (hinner object env).bind fun target => wellFormed_property _ _ _
  | index object key optional =>
    exact (hinner object env).bind fun target => (hinner key env).bind fun key =>
      wellFormed_property _ _ _
  | call callee args =>
    rw [evalOnce.eq_def]
    dsimp only
    split
    · exact (wellFormed_evalItems hinner args env).bind fun vs => wellFormed_ok _
    · rintro e ⟨⟩
    · split
      · exact (hinner _ env).bind fun receiver => wellFormed_callOnce hinner _ _ _ _ _
      · rintro e ⟨⟩
  | lambda => rintro e ⟨⟩
  | unary op operand => exact (hinner operand env).bind fun v => wellFormed_ok _
  | binary op left right =>
    exact (hinner left env).bind fun l => (hinner right env).bind fun r => wellFormed_ok _
  | logical op left right =>
    exact (hinner left env).bind fun l => .ite (wellFormed_ok _) (hinner right env)
  | conditional test consequent alternate =>
    exact (hinner test env).bind fun v => .ite (hinner consequent env) (hinner alternate env)

end

theorem wellFormed_evalWithin {fallback : Evaluator} (h : ∀ e env, WellFormed (fallback e env))
    (depth : Nat) (e : Expr) (env : Env) : WellFormed (evalWithin fallback depth e env) := by
  induction depth generalizing e env with
  | zero => exact h e env
  | succ depth ih => exact wellFormed_evalOnce ih e env

/-- **Evaluation never finds that a text is malformed.** -/
theorem wellFormed_eval (e : Expr) (env : Env) : WellFormed (e.eval env) := by
  rw [← evalWithin_eq_eval (fun _ _ => .ok none) (Nat.lt_succ_self e.weight)]
  exact wellFormed_evalWithin (fun _ _ => wellFormed_ok _) _ e env

/-- The text of an expression is malformed in a context. -/
def Malformed (text : String) (context : Json) : Prop :=
  ∃ e, evaluate text context = .error (.malformed e)

/-- **A text is malformed in a context if its trimmed text cannot be read.** -/
theorem malformed_iff {text : String} {context : Json} :
    Malformed text context ↔ ∃ e, parse? (Text.trim text) = .error e := by
  rw [Malformed, evaluate]
  cases parse? (Text.trim text) with
  | error e => simp
  | ok e =>
    exact ⟨fun ⟨err, h⟩ => absurd h (wellFormed_eval e _ err), nofun⟩

end Expr

end SchemaCanvas
