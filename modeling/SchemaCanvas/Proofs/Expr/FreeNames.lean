import SchemaCanvas.Proofs.Expr.Callbacks

/-!
# Names that an expression reads

An expression reads the names in it that are neither properties nor parameters of a function around
them. Nothing else of the context can make a difference to it: where all these names have the same
values, or the same of them have none, the expression has the same value or fails for the same
reason. The first name of a chain of members is among them, so this holds also for the choice
between a function of the language, a constant and a method.

* `Expr.freeNames` : the names that an expression reads;
* `Env.AgreeOn` : environments with the same values for some names;
* `Expr.eval_congr` : these give the same outcome to an expression that reads no other names;
* `Expr.evaluate_of_freeNames` : the same for texts and contexts.
-/

namespace SchemaCanvas

namespace Expr

mutual

/-- The names that an expression reads. A function does not read its own parameter. -/
def freeNames : Expr → List String
  | literal _ | undefined => []
  | ident name => [name]
  | array items => freeNamesOfList items
  | member object _ _ => freeNames object
  | index object key _ => freeNames object ++ freeNames key
  | call callee args => freeNames callee ++ freeNamesOfList args
  | lambda param body => (freeNames body).filter (· ≠ param)
  | unary _ operand => freeNames operand
  | binary _ left right | logical _ left right => freeNames left ++ freeNames right
  | conditional test consequent alternate =>
    freeNames test ++ (freeNames consequent ++ freeNames alternate)

/-- The names that a list of expressions reads. -/
def freeNamesOfList : List Expr → List String
  | [] => []
  | e :: rest => freeNames e ++ freeNamesOfList rest

end

theorem mem_freeNames_of_rootName? {e : Expr} {root : String} (h : e.rootName? = some root) :
    root ∈ e.freeNames := by
  fun_induction rootName? e with
  | case1 name =>
    obtain rfl := Option.some.inj h
    exact List.mem_singleton_self name
  | case2 object property optional ih => exact ih h
  | case3 => cases h

end Expr

/-! ### Environments that agree -/

namespace Env

/-- Each of the names has the same value in both environments, or none in both. -/
def AgreeOn (names : List String) (env env' : Env) : Prop :=
  ∀ name ∈ names, env.find name = env'.find name

variable {env env' : Env} {names more : List String}

theorem isBound_eq_isSome_find (env : Env) (name : String) :
    env.isBound name = (env.find name).toOption.isSome := by
  rw [isBound, find]
  cases env.params.lookup name with
  | some v => rfl
  | none => cases env.scope.lookup name <;> rfl

theorem isBound_congr {name : String} (h : env.find name = env'.find name) :
    env.isBound name = env'.isBound name := by
  rw [isBound_eq_isSome_find, isBound_eq_isSome_find, h]

theorem AgreeOn.left (h : AgreeOn (names ++ more) env env') : AgreeOn names env env' :=
  fun name hname => h name (List.mem_append_left more hname)

theorem AgreeOn.right (h : AgreeOn (names ++ more) env env') : AgreeOn more env env' :=
  fun name hname => h name (List.mem_append_right names hname)

theorem AgreeOn.bind {param : String} (h : AgreeOn (names.filter (· ≠ param)) env env')
    (v : Value) : AgreeOn names (env.bind param v) (env'.bind param v) := by
  intro name hname
  by_cases heq : name = param
  · rw [heq, find_bind_self, find_bind_self]
  · rw [env.find_bind_of_ne param v heq, env'.find_bind_of_ne param v heq]
    exact h name (List.mem_filter.2 ⟨hname, decide_eq_true heq⟩)

variable {e : Expr}

theorem AgreeOn.constant?_eq (h : AgreeOn e.freeNames env env') :
    env.constant? e = env'.constant? e := by
  unfold constant?
  split
  · next name root _ hroot =>
    rw [isBound_congr (h root (Expr.mem_freeNames_of_rootName? hroot))]
  · rfl

theorem AgreeOn.callee_eq (h : AgreeOn e.freeNames env env') : env.callee e = env'.callee e := by
  unfold callee
  split
  · next name root _ hroot =>
    rw [isBound_congr (h root (Expr.mem_freeNames_of_rootName? hroot))]
  · rfl

end Env

/-! ### Evaluation -/

namespace Expr

open Env (AgreeOn)

/-- A method evaluates its arguments, or calls the function among them with a parameter. -/
theorem callOnce_eq_of_args {env env' : Env} {args : List Expr}
    (hargs : evalItems eval args env = evalItems eval args env')
    (hbody : ∀ param body rest, args = lambda param body :: rest →
      ∀ v, body.eval (env.bind param v) = body.eval (env'.bind param v))
    (receiver : Value) (method : String) (optional : Bool) :
    callOnce eval receiver method optional args env =
      callOnce eval receiver method optional args env' := by
  unfold callOnce
  split
  · rfl
  · rfl
  · split
    · split
      · next param body rest => simp only [hbody param body rest rfl]
      · rfl
    · rw [hargs]
  · rw [hargs]

mutual

/-- **Environments that agree on the names that an expression reads** give it the same outcome. -/
theorem eval_congr (env env' : Env) : (e : Expr) → AgreeOn e.freeNames env env' →
    e.eval env = e.eval env'
  | literal _, _ | undefined, _ | lambda .., _ => rfl
  | ident name, h => by rw [eval, eval, h name (List.mem_singleton_self name)]
  | array items, h => by
    rw [eval_eq, eval_eq, evalOnce, evalOnce, evalAll_congr env env' items h]
  | member object property optional, h => by
    have hconstant : env.constant? (member object property optional) =
        env'.constant? (member object property optional) := AgreeOn.constant?_eq h
    rw [eval_eq, eval_eq, evalOnce, evalOnce, hconstant, eval_congr env env' object h]
  | index object key optional, h => by
    rw [eval, eval, eval_congr env env' object h.left, eval_congr env env' key h.right]
  | call callee args, h => by
    have hcallee : AgreeOn callee.freeNames env env' := h.left
    have hargs := evalAll_congr env env' args h.right
    rw [eval_eq, eval_eq, evalOnce.eq_def, evalOnce.eq_def]
    dsimp only
    rw [hcallee.callee_eq, hargs]
    cases env'.callee callee with
    | builtin | refused => rfl
    | method =>
      cases callee with
      | member object method optional =>
        have hcall := callOnce_eq_of_args hargs (body_congr env env' args h.right)
        simp only [eval_congr env env' object hcallee, hcall]
      | _ => rfl
  | unary op operand, h => by rw [eval, eval, eval_congr env env' operand h]
  | binary op left right, h => by
    rw [eval, eval, eval_congr env env' left h.left, eval_congr env env' right h.right]
  | logical op left right, h => by
    rw [eval, eval, eval_congr env env' left h.left, eval_congr env env' right h.right]
  | conditional test consequent alternate, h => by
    rw [eval, eval, eval_congr env env' test h.left, eval_congr env env' consequent h.right.left,
      eval_congr env env' alternate h.right.right]

theorem evalAll_congr (env env' : Env) : (items : List Expr) →
    AgreeOn (freeNamesOfList items) env env' → evalItems eval items env = evalItems eval items env'
  | [], _ => rfl
  | e :: rest, h => by
    rw [evalItems, evalItems, eval_congr env env' e h.left, evalAll_congr env env' rest h.right]

theorem body_congr (env env' : Env) : (args : List Expr) →
    AgreeOn (freeNamesOfList args) env env' → ∀ param body rest, args = lambda param body :: rest →
      ∀ v, body.eval (env.bind param v) = body.eval (env'.bind param v)
  | lambda _ body :: _, h, _, _, _, rfl, v => eval_congr _ _ body (AgreeOn.bind h.left v)

end

/-! ### Contexts -/

end Expr

namespace Scope

variable {names : List String} {scope scope' : Scope}

/-- The entries of some names. -/
def restrict (scope : Scope) (names : List String) : Scope :=
  scope.filter fun entry => entry.1 ∈ names

theorem lookup_restrict {name : String} (h : name ∈ names) (scope : Scope) :
    (scope.restrict names).lookup name = scope.lookup name := by
  induction scope with
  | nil => rfl
  | cons entry rest ih =>
    obtain ⟨k, v⟩ := entry
    by_cases heq : name = k
    · subst heq
      simp [restrict, h]
    · have hother : (name == k) = false := beq_false_of_ne heq
      rw [List.lookup_cons, hother, ← ih, restrict, List.filter_cons]
      split
      · rw [List.lookup_cons, hother]
        rfl
      · rfl

theorem agreeOn_of_lookup (h : ∀ name ∈ names, scope.lookup name = scope'.lookup name) :
    Env.AgreeOn names ⟨scope, []⟩ ⟨scope', []⟩ := by
  intro name hname
  rw [Env.find, Env.find]
  simp only [h name hname]

end Scope

namespace Expr

/-- **An expression depends on the names that it reads, and on nothing else.** In contexts that have
the same entries for these names, and for the same of them none, it has the same value or fails for
the same reason. So all other entries of a context can be left out. -/
theorem evaluate_of_freeNames {text : String} {context context' : Json}
    (h : ∀ e, parse? (Text.trim text) = .ok e → ∀ name ∈ e.freeNames,
      (Scope.ofContext context).lookup name = (Scope.ofContext context').lookup name) :
    evaluate text context = evaluate text context' ∧
    ∀ e, parse? (Text.trim text) = .ok e →
      evaluate text context = e.eval ⟨(Scope.ofContext context').restrict e.freeNames, []⟩ := by
  rw [evaluate, evaluate]
  cases hread : parse? (Text.trim text) with
  | error err =>
    refine ⟨rfl, ?_⟩
    rintro _ ⟨⟩
  | ok e =>
    have hsame := Scope.agreeOn_of_lookup (h e hread)
    refine ⟨eval_congr _ _ e hsame, ?_⟩
    rintro _ ⟨⟩
    refine eval_congr _ _ e (Scope.agreeOn_of_lookup fun name hname => ?_)
    rw [h e hread name hname, Scope.lookup_restrict hname]

/-- Rows, and what stands for a name that is missing. -/
def namedRows : Entries Json :=
  [("none", .str "nobody"), ("rows", .arr [.obj [("name", .str "Ada")], .obj []])]

/-- The names of the rows as one text. -/
def rowNames : Expr :=
  call (ident "String") [(ident "rows").callback .map "row"
    (logical .nullish (member (ident "row") "name" false) (ident "none"))]

/-- A parameter and a property are no names that are read, and `String` is bound in neither
context. -/
theorem evaluate_of_freeNames_namedRows :
    evaluate "String(rows.map(row => row.name ?? none))"
        (.obj (("name", .str "Bob") :: namedRows)) =
      evaluate "String(rows.map(row => row.name ?? none))"
        (.obj (namedRows ++ [("row", .arr [])])) ∧
    evaluate "String(rows.map(row => row.name ?? none))"
        (.obj (namedRows ++ [("row", .arr [])])) = .ok (some (.str "Ada,nobody")) := by
  have hread : parse? (Text.trim "String(rows.map(row => row.name ?? none))") = .ok rowNames :=
    parse?_of_tokens rfl rfl
  have hnames : rowNames.freeNames = ["String", "rows", "none"] := rfl
  refine ⟨(evaluate_of_freeNames fun e he name hname => ?_).1, ?_⟩
  · obtain rfl := Except.ok.inj (hread.symm.trans he)
    rw [hnames] at hname
    simp only [List.mem_cons, List.not_mem_nil, or_false] at hname
    obtain rfl | rfl | rfl := hname <;> rfl
  · rw [evaluate, hread]
    rfl

end Expr

end SchemaCanvas
