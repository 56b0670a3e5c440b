import SchemaCanvas.Proofs.Expr.Canonical
import SchemaCanvas.Proofs.Expr.Scanning
import SchemaCanvas.Proofs.Expr.Unrolled
import Mathlib.Data.List.Basic

/-!
# What methods are called on

A call is first looked up by its whole name, among the functions of the language and the groups in
which they stand, and only then taken as a method of a value. A receiver that has a value is caught
by this in one case, where it is the name of a constant: no method can be called on that. In all
other cases a method sees nothing of its receiver but the value.

* `Env.NamesConstant` : the names of constants;
* `Env.namesConstant_of_eval` : no other chain of members has a value where its first name is not
  bound;
* `Expr.eval_invoke`, `Expr.eval_invoke_of_namesConstant` : a method is called on the value of its
  receiver, but not on a constant by its name;
* `Expr.method_sees_value` : when two receivers of one value are the same to all methods.
-/

namespace SchemaCanvas

/-! ### Constants -/

theorem Json.ofFloat_of_isFinite {f : Float} (h : f.isFinite) : ofFloat f = .num (.float f h) := by
  rw [ofFloat, Number.ofFloat?, dif_pos h]
  rfl

namespace Builtin

variable {name : String} {v : Json}

theorem cases_of_constant? (h : constant? name = some v) :
    (name = "Math.PI" ∧ v = Json.ofFloat 3.141592653589793) ∨
      (name = "Math.E" ∧ v = Json.ofFloat 2.718281828459045) := by
  rw [constant?] at h
  split at h
  · next heq => exact .inl ⟨heq, (Option.some.inj h).symm⟩
  · split at h
    · next heq => exact .inr ⟨heq, (Option.some.inj h).symm⟩
    · cases h

theorem exists_num_of_constant? (h : constant? name = some v) : ∃ n, v = .num n := by
  obtain ⟨-, rfl⟩ | ⟨-, rfl⟩ := cases_of_constant? h
  · exact ⟨_, Json.ofFloat_of_isFinite (by decide)⟩
  · exact ⟨_, Json.ofFloat_of_isFinite (by decide)⟩

theorem constant?_inj {name' : String} (h : constant? name = some v)
    (h' : constant? name' = some v) : name = name' := by
  have hne : Json.ofFloat 3.141592653589793 ≠ Json.ofFloat 2.718281828459045 := fun heq =>
    absurd (congrArg (fun v : Json => (Value.toFloat (some v)).toBits) heq) (by decide +kernel)
  obtain ⟨rfl, rfl⟩ | ⟨rfl, rfl⟩ := cases_of_constant? h <;>
    obtain ⟨rfl, heq⟩ | ⟨rfl, heq⟩ := cases_of_constant? h'
  · rfl
  · exact absurd heq hne
  · exact absurd heq.symm hne
  · rfl

theorem eq_of_constant?_dotted {base : String} (h : constant? (base ++ "." ++ name) = some v) :
    base = "Math" ∧ (name = "PI" ∨ name = "E") := by
  have hparts (short : String) (hshort : '.' ∉ short.toList)
      (heq : base ++ "." ++ name = "Math" ++ "." ++ short) : base = "Math" ∧ name = short := by
    have hchars : "Math".toList ++ '.' :: short.toList = base.toList ++ '.' :: name.toList := by
      simpa using congrArg String.toList heq.symm
    obtain ⟨hbase, -, hname⟩ := (List.append_cons_inj_of_notMem (by decide) hshort).1 hchars
    exact ⟨String.toList_inj.1 hbase.symm, String.toList_inj.1 hname.symm⟩
  obtain ⟨heq, -⟩ | ⟨heq, -⟩ := cases_of_constant? h
  · exact (hparts "PI" (by decide) heq).imp_right .inl
  · exact (hparts "E" (by decide) heq).imp_right .inr

theorem ofName?_eq_none (group name method : String) :
    ofName? (group ++ "." ++ name ++ "." ++ method) = none := by
  refine List.find?_eq_none.2 fun f _ hname => ?_
  have hdots : f.name.toList.count '.' ≤ 1 := by cases f <;> decide
  rw [of_decide_eq_true hname] at hdots
  simp only [String.toList_append, List.count_append] at hdots
  have hdot : ".".toList.count '.' = 1 := by decide
  omega

end Builtin

/-! ### Names of constants -/

namespace Expr

/-- A method called on an expression. -/
def invoke (e : Expr) (method : String) (args : List Expr) : Expr :=
  call (member e method false) args

theorem eq_ident_of_dottedName? {e : Expr} {name : String} (h : e.dottedName? = some name)
    (hname : '.' ∉ name.toList) : e = ident name := by
  cases e with
  | ident =>
    obtain rfl := Option.some.inj h
    rfl
  | member object property optional =>
    obtain ⟨base, -, rfl⟩ := Option.map_eq_some_iff.1 h
    exact absurd (by simp) hname
  | _ => cases h

end Expr

namespace Env

/-- The name of a constant, `Math.PI` or `Math.E`. It is the name of something else where `Math` is
bound. -/
def NamesConstant (env : Env) (e : Expr) : Prop :=
  ∃ name optional, (name = "PI" ∨ name = "E") ∧ e = .member (.ident "Math") name optional ∧
    env.isBound "Math" = false

variable {env : Env} {e : Expr} {v : Json}

theorem find_of_isBound_eq_false {name : String} (h : env.isBound name = false) :
    env.find name = .error (.unknownIdentifier name) := by
  obtain ⟨hparams, hscope⟩ := Bool.or_eq_false_iff.1 h
  rw [Option.isSome_eq_false_iff, Option.isNone_iff_eq_none] at hparams hscope
  rw [find, hparams]
  simp only [hscope]

theorem namesConstant_of_constant? {object : Expr} {property : String} {optional : Bool}
    (h : env.constant? (.member object property optional) = some v) :
    env.NamesConstant (.member object property optional) := by
  rw [constant?] at h
  split at h
  · next name root hname hroot =>
    obtain ⟨base, hbase, rfl⟩ := Option.map_eq_some_iff.1 hname
    split at h
    · cases h
    · next hbound =>
      obtain ⟨rfl, hproperty⟩ := Builtin.eq_of_constant?_dotted h
      obtain rfl := Expr.eq_ident_of_dottedName? hbase (by decide)
      obtain rfl := Option.some.inj hroot
      exact ⟨property, optional, hproperty, rfl, eq_false_of_ne_true hbound⟩
  · cases h

theorem NamesConstant.constant?_eq (h : env.NamesConstant e) (hv : e.eval env = .ok (some v)) :
    ∃ name, e.dottedName? = some name ∧ Builtin.constant? name = some v := by
  obtain ⟨name, optional, hname, rfl, hbound⟩ := h
  obtain ⟨c, hc⟩ : ∃ c, Builtin.constant? ("Math" ++ "." ++ name) = some c := by
    obtain rfl | rfl := hname
    · exact ⟨_, rfl⟩
    · exact ⟨_, rfl⟩
  have hconstant : env.constant? (.member (.ident "Math") name optional) = some c := by
    simp only [constant?, Expr.dottedName?, Expr.rootName?, Option.map_some, hbound, hc,
      Bool.false_eq_true, if_false]
  rw [Expr.eval_eq, Expr.evalOnce, hconstant] at hv
  obtain rfl := Option.some.inj (Except.ok.inj hv)
  exact ⟨_, rfl, hc⟩

theorem exists_of_property {target : Value} {name : String} {optional : Bool}
    (h : target.property name optional = .ok (some v)) :
    ∃ w, target = some w ∧ w.property? name = some v := by
  rw [Value.property.eq_def] at h
  split at h
  · split at h <;> cases h
  · split at h <;> cases h
  · next w _ => exact ⟨w, rfl, Except.ok.inj h⟩

/-- **A chain of members that has a value without a bound name is the name of a constant.** It does
not go on from there, since a number has no properties. -/
theorem namesConstant_of_eval {root : String} (hroot : e.rootName? = some root)
    (hbound : env.isBound root = false) (h : e.eval env = .ok (some v)) : env.NamesConstant e := by
  fun_induction Expr.rootName? e generalizing v with
  | case1 name =>
    obtain rfl := Option.some.inj hroot
    rw [Expr.eval, find_of_isBound_eq_false hbound] at h
    cases h
  | case2 object property optional ih =>
    rw [Expr.eval_eq, Expr.evalOnce] at h
    split at h
    · next hconstant => exact namesConstant_of_constant? hconstant
    · -- the object would be the name of a constant already
      cases htarget : object.eval env with
      | error => rw [htarget] at h; cases h
      | ok target =>
        rw [htarget] at h
        obtain ⟨w, rfl, hproperty⟩ := exists_of_property h
        obtain ⟨name, -, hconstant⟩ := (ih hroot htarget).constant?_eq htarget
        obtain ⟨n, rfl⟩ := Builtin.exists_num_of_constant? hconstant
        cases hproperty
  | case3 => cases hroot

end Env

namespace Expr

variable {env : Env} {e e₁ e₂ : Expr} {v : Json}

/-! ### Texts and outcomes -/

theorem parse?_of_tokens {text : String} (htokens : Token.tokens? 0 text.toList = some e.tokens)
    (hrun : Parser.run (e.tokens.map (⟨·, 0⟩)) 0 = .ok e) : parse? text = .ok e :=
  parse?_eq_ok_iff.2 ⟨_, htokens, hrun⟩

theorem eq_ok_str {r : Except EvalError Value} {s : String}
    (h : r.toOption.join.bind Json.text? = some s) : r = .ok (some (.str s)) := by
  obtain ⟨v, hv, htext⟩ := Option.bind_eq_some_iff.1 h
  cases r with
  | error => cases hv
  | ok value =>
    obtain rfl : value = some v := by simpa [Except.toOption] using hv
    cases v with
    | str =>
      obtain rfl := Option.some.inj htext
      rfl
    | _ => cases htext

/-! ### Method calls -/

theorem eval_invoke (hv : v ≠ .null) (h : e.eval env = .ok (some v)) (hname : ¬ env.NamesConstant e)
    (method : String) (args : List Expr) :
    (e.invoke method args).eval env = callOnce eval (some v) method false args env := by
  have hcallee : env.callee (member e method false) = .method := by
    rw [Env.callee]
    split
    · next name root _ hroot =>
      cases hbound : env.isBound root with
      | true => rfl
      | false => exact absurd (Env.namesConstant_of_eval (e := e) hroot hbound h) hname
    · rfl
  rw [invoke, call_method_eq _ _ _ _ _ hcallee, h]
  -- links that may be skipped make a difference for null only
  cases v with
  | null => exact absurd rfl hv
  | _ => rfl

theorem eval_invoke_of_namesConstant (h : env.NamesConstant e) (method : String)
    (args : List Expr) :
    ∃ name, e.dottedName? = some name ∧
      (e.invoke method args).eval env = .error (.notCallable (name ++ "." ++ method)) := by
  obtain ⟨name, optional, -, rfl, hbound⟩ := h
  refine ⟨_, rfl, ?_⟩
  have hcallee : env.callee (member (member (ident "Math") name optional) method false) =
      .refused ("Math" ++ "." ++ name ++ "." ++ method) := by
    simp only [Env.callee, dottedName?, rootName?, Option.map_some, hbound, Bool.false_eq_true,
      if_false, Builtin.ofName?_eq_none]
    rfl
  rw [invoke, eval, hcallee]

/-- Receivers of one value are the same to a method if both or neither are names of constants. -/
theorem eval_invoke_eq (hv : v ≠ .null) (h₁ : e₁.eval env = .ok (some v))
    (h₂ : e₂.eval env = .ok (some v)) (hiff : env.NamesConstant e₁ ↔ env.NamesConstant e₂)
    (method : String) (args : List Expr) :
    (e₁.invoke method args).eval env = (e₂.invoke method args).eval env := by
  by_cases hname₁ : env.NamesConstant e₁
  · have hname₂ := hiff.1 hname₁
    obtain ⟨name₁, hdotted₁, hrefused₁⟩ := eval_invoke_of_namesConstant hname₁ method args
    obtain ⟨name₂, hdotted₂, hrefused₂⟩ := eval_invoke_of_namesConstant hname₂ method args
    obtain ⟨_, heq₁, hconstant₁⟩ := hname₁.constant?_eq h₁
    obtain ⟨_, heq₂, hconstant₂⟩ := hname₂.constant?_eq h₂
    obtain rfl := Option.some.inj (hdotted₁.symm.trans heq₁)
    obtain rfl := Option.some.inj (hdotted₂.symm.trans heq₂)
    rw [hrefused₁, hrefused₂, Builtin.constant?_inj hconstant₁ hconstant₂]
  · rw [eval_invoke hv h₁ hname₁, eval_invoke hv h₂ (mt hiff.2 hname₁)]

/-- A number has a text, but the constant that is named is not asked for it. -/
theorem eval_invoke_ne (hv : v ≠ .null) (h₁ : e₁.eval env = .ok (some v))
    (h₂ : e₂.eval env = .ok (some v)) (hname₁ : env.NamesConstant e₁)
    (hname₂ : ¬ env.NamesConstant e₂) :
    (e₁.invoke "toString" []).eval env ≠ (e₂.invoke "toString" []).eval env := by
  obtain ⟨_, -, hrefused⟩ := eval_invoke_of_namesConstant hname₁ "toString" []
  obtain ⟨_, -, hconstant⟩ := hname₁.constant?_eq h₁
  obtain ⟨n, rfl⟩ := Builtin.exists_num_of_constant? hconstant
  rw [hrefused, eval_invoke hv h₂ hname₂]
  nofun

/-- **A method sees the value of its receiver and nothing else, unless a constant is named.** Two
receivers of one value, not null, are the same to all methods if and only if both or neither are
names of constants. Texts of such calls then have the same value, or fail for the same reason. -/
theorem method_sees_value (hv : v ≠ .null) (h₁ : e₁.eval env = .ok (some v))
    (h₂ : e₂.eval env = .ok (some v)) :
    ((∀ method args, (e₁.invoke method args).eval env = (e₂.invoke method args).eval env) ↔
      (env.NamesConstant e₁ ↔ env.NamesConstant e₂)) ∧
    ((env.NamesConstant e₁ ↔ env.NamesConstant e₂) →
      ∀ context, env = ⟨Scope.ofContext context, []⟩ → ∀ method args text₁ text₂,
        parse? (Text.trim text₁) = .ok (e₁.invoke method args) →
        parse? (Text.trim text₂) = .ok (e₂.invoke method args) →
        evaluate text₁ context = evaluate text₂ context) := by
  refine ⟨⟨fun hsame => ?_, eval_invoke_eq hv h₁ h₂⟩, ?_⟩
  · by_cases hname₁ : env.NamesConstant e₁ <;> by_cases hname₂ : env.NamesConstant e₂
    · exact iff_of_true hname₁ hname₂
    · exact absurd (hsame ..) (eval_invoke_ne hv h₁ h₂ hname₁ hname₂)
    · exact absurd (hsame ..).symm (eval_invoke_ne hv h₂ h₁ hname₂ hname₁)
    · exact iff_of_false hname₁ hname₂
  · rintro hiff context rfl method args text₁ text₂ hread₁ hread₂
    rw [evaluate, evaluate, hread₁, hread₂]
    exact eval_invoke_eq hv h₁ h₂ hiff method args

/-- A context that binds the name of a group. -/
def mathContext : Json := .obj [("Math", .obj [("PI", .str " a ")]), ("x", .str " a ")]

theorem method_sees_value_mathContext :
    evaluate "Math.PI.trim()" mathContext = evaluate "x.trim()" mathContext ∧
      evaluate "x.trim()" mathContext = .ok (some (.str "a")) := by
  have hread₁ : parse? (Text.trim "Math.PI.trim()") =
      .ok ((member (ident "Math") "PI" false).invoke "trim" []) :=
    parse?_of_tokens rfl rfl
  have hread₂ : parse? (Text.trim "x.trim()") = .ok ((ident "x").invoke "trim" []) :=
    parse?_of_tokens rfl rfl
  have hvalue₁ : (member (ident "Math") "PI" false).eval ⟨Scope.ofContext mathContext, []⟩ =
      .ok (some (.str " a ")) := rfl
  have hvalue₂ : (ident "x").eval ⟨Scope.ofContext mathContext, []⟩ = .ok (some (.str " a ")) := rfl
  have hname (e : Expr) : ¬ Env.NamesConstant ⟨Scope.ofContext mathContext, []⟩ e := by
    rintro ⟨_, _, _, _, hbound⟩
    exact absurd hbound (by decide)
  have hsees := method_sees_value (by simp) hvalue₁ hvalue₂
  refine ⟨hsees.2 (iff_of_false (hname _) (hname _)) mathContext rfl "trim" [] _ _ hread₁ hread₂,
    ?_⟩
  rw [evaluate, hread₂]
  rfl

/-- A context with the value of a constant. -/
def piContext : Json := .obj [("x", .ofFloat 3.141592653589793)]

/-- The constant and the name have the same value, but only the name can be asked for two digits of
it. -/
theorem not_method_sees_value :
    evaluate "Math.PI" piContext = .ok (some (.ofFloat 3.141592653589793)) ∧
      evaluate "x" piContext = .ok (some (.ofFloat 3.141592653589793)) ∧
      (∀ v, evaluate "Math.PI.toFixed(2)" piContext ≠ .ok v) ∧
      evaluate "x.toFixed(2)" piContext = .ok (some (.str "3.14")) := by
  have hread : parse? (Text.trim "Math.PI") = .ok (member (ident "Math") "PI" false) :=
    parse?_of_tokens rfl rfl
  refine ⟨?_, by rfl, fun v heq => ?_, eq_ok_str (by decide +kernel)⟩
  · rw [evaluate, hread]
    rfl
  · have hfails : (evaluate "Math.PI.toFixed(2)" piContext).toOption.isNone := by decide +kernel
    rw [heq] at hfails
    cases hfails

end Expr

end SchemaCanvas
