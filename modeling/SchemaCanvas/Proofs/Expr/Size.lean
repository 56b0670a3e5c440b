import SchemaCanvas.Proofs.Expr.Canonical

/-!
# The size of an expression

An expression is measured in two ways, which are the two that reading limits.

* `Expr.composites` counts what is made of parts, lists apart;
* `Expr.nesting` is how deep expressions lie inside one another in the written form: inside
  parentheses, brackets, functions and choices, and behind unary operators.

`Expr.Readable` says of an expression that it has the shape of one that was read.
-/

namespace SchemaCanvas

namespace Infix

theorem level_lt (op : Infix) : op.level < 7 := by
  obtain op | op := op <;> cases op <;> decide

/-- A token stands for an operator of one level only. -/
theorem ofToken?_eq_some_iff {level : Nat} {t : Token} {op : Infix} :
    ofToken? level t = some op ↔ t = .mark op.mark ∧ op.level = level := by
  constructor
  · intro h
    cases t with
    | mark m =>
      have hmark := List.find?_some h
      have hmem := List.mem_of_find?_eq_some h
      refine ⟨by simpa [eq_comm] using hmark, ?_⟩
      unfold ofLevel at hmem
      split at hmem
      all_goals
        simp only [List.mem_cons, List.not_mem_nil, or_false] at hmem
      · exact hmem ▸ rfl
      · exact hmem ▸ rfl
      · exact hmem ▸ rfl
      · rcases hmem with rfl | rfl | rfl | rfl <;> rfl
      · rcases hmem with rfl | rfl | rfl | rfl <;> rfl
      · rcases hmem with rfl | rfl <;> rfl
      · rcases hmem with rfl | rfl | rfl <;> rfl
    | num | str | ident => cases h
  · rintro ⟨rfl, rfl⟩
    obtain op | op := op <;> cases op <;> rfl

end Infix

namespace Expr

/-! ### Measures -/

mutual

/-- How many members, indices, calls, functions, operators and conditionals there are. -/
def composites : Expr → Nat
  | literal _ | undefined | ident _ => 0
  | array items => listComposites items
  | member object _ _ => composites object + 1
  | index object key _ => composites object + composites key + 1
  | call callee args => composites callee + listComposites args + 1
  | lambda _ body => composites body + 1
  | unary _ operand => composites operand + 1
  | binary _ left right | logical _ left right => composites left + composites right + 1
  | conditional test consequent alternate =>
    composites test + composites consequent + composites alternate + 1

/-- The same in a list of expressions. -/
def listComposites : List Expr → Nat
  | [] => 0
  | e :: rest => composites e + listComposites rest

end

/-- What is inside parentheses, if these are needed, lies one deeper. -/
def enclosed (needed : Bool) (nesting : Nat) : Nat := if needed then nesting + 1 else nesting

mutual

/-- How deep expressions lie inside one another where an expression is written. -/
def nesting : Expr → Nat
  | literal _ | undefined | ident _ => 0
  | array items => listNesting items
  | member object _ _ => enclosed (object.level < 9) (nesting object)
  | index object key _ => max (enclosed (object.level < 9) (nesting object)) (nesting key + 1)
  | call callee args => max (enclosed (callee.level < 9) (nesting callee)) (listNesting args)
  | lambda _ body => nesting body + 1
  | unary _ operand => enclosed (operand.level < 8) (nesting operand) + 1
  | binary op left right =>
    let level := (Infix.binary op).level
    max (enclosed (left.level < level + 1) (nesting left))
      (enclosed (right.level < level + 2) (nesting right))
  | logical op left right =>
    let level := (Infix.logical op).level
    max (enclosed (left.level < level + 1) (nesting left))
      (enclosed (right.level < level + 2) (nesting right))
  | conditional test consequent alternate =>
    max (enclosed (test.level < 1) (nesting test))
      (max (nesting consequent + 1) (nesting alternate + 1))

/-- How deep the expressions of a list lie. -/
def listNesting : List Expr → Nat
  | [] => 0
  | e :: rest => max (nesting e + 1) (listNesting rest)

end

/-- How deep expressions lie inside one another at a place that asks for a level. -/
def nestingAt (place : Nat) (e : Expr) : Nat := enclosed (e.level < place) e.nesting

variable {e : Expr} {place place' : Nat}

theorem nestingAt_of_le (h : place ≤ e.level) : e.nestingAt place = e.nesting := by
  rw [nestingAt, enclosed, if_neg (by simpa using h)]

theorem nestingAt_of_lt (h : e.level < place) : e.nestingAt place = e.nesting + 1 := by
  rw [nestingAt, enclosed, if_pos (by simpa using h)]

theorem nestingAt_le_of_le (h : place ≤ place') : e.nestingAt place ≤ e.nestingAt place' := by
  by_cases hplace : place ≤ e.level
  · rw [nestingAt_of_le hplace]
    by_cases hplace' : place' ≤ e.level
    · exact Nat.le_of_eq (nestingAt_of_le hplace').symm
    · rw [nestingAt_of_lt (by omega)]
      exact Nat.le_succ _
  · have hlt : e.nestingAt place = e.nesting + 1 := nestingAt_of_lt (by omega)
    exact Nat.le_of_eq (hlt.trans (nestingAt_of_lt (by omega)).symm)

theorem nestingAt_succ (h : e.level ≠ place) : e.nestingAt (place + 1) = e.nestingAt place := by
  simp only [nestingAt, show e.level < place + 1 ↔ e.level < place by omega]

theorem nestingAt_le (place : Nat) (e : Expr) : e.nestingAt place ≤ e.nesting + 1 := by
  rw [nestingAt, enclosed]
  split <;> omega

/-! ### Infix operators

Both kinds of infix operators are measured in the same way. -/

section

variable (op : Infix) (left right : Expr)

theorem level_apply : (op.apply left right).level = op.level + 1 := by cases op <;> rfl

theorem composites_apply :
    (op.apply left right).composites = left.composites + right.composites + 1 := by
  cases op <;> rfl

theorem nesting_apply : (op.apply left right).nesting =
    max (left.nestingAt (op.level + 1)) (right.nestingAt (op.level + 2)) := by
  cases op <;> rfl

theorem tokens_apply : (op.apply left right).tokens =
    left.tokensAt (op.level + 1) ++ .mark op.mark :: right.tokensAt (op.level + 2) := by
  cases op <;> rfl

end

/-! ### Expressions that can be read -/

/-- Names that stand for something else than a variable. -/
def reservedNames : List String := ["true", "false", "null", "undefined", "typeof"]

/-- An expression that some tokens can be read as. -/
inductive Readable : Expr → Prop
  | null : Readable (.literal .null)
  | bool (b : Bool) : Readable (.literal (.bool b))
  | str (s : String) : Readable (.literal (.str s))
  | num {n : Number} (h : Json.computed n.spelled = .num n) : Readable (.literal (.num n))
  | undefined : Readable .undefined
  | ident {name : String} (h : name ∉ reservedNames) : Readable (.ident name)
  | array {items : List Expr} (h : ∀ e ∈ items, Readable e) : Readable (.array items)
  | member {object : Expr} (h : Readable object) (property : String) (optional : Bool) :
      Readable (.member object property optional)
  | index {object key : Expr} (h : Readable object) (hkey : Readable key) (optional : Bool) :
      Readable (.index object key optional)
  | call {callee : Expr} {args : List Expr} (h : Readable callee) (hargs : ∀ e ∈ args, Readable e) :
      Readable (.call callee args)
  | lambda (param : String) {body : Expr} (h : Readable body) : Readable (.lambda param body)
  | unary (op : UnaryOp) {operand : Expr} (h : Readable operand) : Readable (.unary op operand)
  | operation (op : Infix) {left right : Expr} (hleft : Readable left) (hright : Readable right) :
      Readable (op.apply left right)
  | conditional {test consequent alternate : Expr} (htest : Readable test)
      (hconsequent : Readable consequent) (halternate : Readable alternate) :
      Readable (.conditional test consequent alternate)

end Expr

end SchemaCanvas
