import SchemaCanvas.Proofs.Edit.Outcome
import SchemaCanvas.Proofs.Expr.Receiver
import SchemaCanvas.Proofs.Expr.Stack
import SchemaCanvas.Proofs.Number.Rounding

/-!
# Methods that take a function

Six methods of lists call a function on the items. Some of them say the same in different words: all
items pass if none fails, an item passes if the position of the first is not `-1`, and the first
item that passes is the one at this position. This holds where the function fails, too, since all of
them stop at the same item.

* `ListCallback.firstHit_eq_ok`, `ListCallback.exists_mapItems_iff`, `ListCallback.filterItems_eq` :
  what the three walks over the items give;
* `Expr.eval_callback` : a call gives the parameter to the body and to nothing else;
* `Expr.CallbacksAgree`, `Expr.callbacks_agree` : how the methods agree.
-/

namespace SchemaCanvas

/-! ### Walks over the items -/

namespace ListCallback

variable {f : Json → Except EvalError Value} {items : List Json}

theorem firstHit_eq_ok {holds : Json → Except EvalError Bool} {i j : Nat} {v : Json}
    (h : firstHit holds i items = .ok (Option.some (j, v))) :
    ∃ n, ∃ hn : n < items.length, j = i + n ∧ items[n] = v := by
  induction items generalizing i with
  | nil => cases h
  | cons item rest ih =>
    rw [firstHit] at h
    cases hholds : holds item with
    | error e => rw [hholds] at h; cases h
    | ok hit =>
      rw [hholds] at h
      cases hit with
      | true =>
        cases h
        exact ⟨0, Nat.zero_lt_succ _, rfl, rfl⟩
      | false =>
        obtain ⟨n, hn, rfl, hv⟩ := ih h
        exact ⟨n + 1, Nat.succ_lt_succ hn, by omega, hv⟩

theorem mapItems_cons_eq_ok_iff {item : Json} {rest vs : List Json} :
    mapItems f (item :: rest) = .ok vs ↔
      ∃ w, f item = .ok w ∧ ∃ ws, mapItems f rest = .ok ws ∧ w.getD .null :: ws = vs := by
  simp only [mapItems, bind_eq_ok_iff, Except.ok.injEq]

/-- **A function has results on all items if it has one on each.** -/
theorem exists_mapItems_iff :
    (∃ vs, mapItems f items = .ok vs) ↔ ∀ item ∈ items, ∃ v, f item = .ok v := by
  induction items with
  | nil => exact ⟨nofun, fun _ => ⟨[], rfl⟩⟩
  | cons item rest ih =>
    simp only [List.forall_mem_cons, ← ih, mapItems_cons_eq_ok_iff]
    constructor
    · rintro ⟨_, w, hw, ws, hws, -⟩
      exact ⟨⟨w, hw⟩, ws, hws⟩
    · rintro ⟨⟨w, hw⟩, ws, hws⟩
      exact ⟨_, w, hw, ws, hws, rfl⟩

theorem length_of_mapItems {vs : List Json} (h : mapItems f items = .ok vs) :
    vs.length = items.length := by
  induction items generalizing vs with
  | nil =>
    cases h
    rfl
  | cons item rest ih =>
    obtain ⟨w, -, ws, hws, rfl⟩ := mapItems_cons_eq_ok_iff.1 h
    exact congrArg Nat.succ (ih hws)

/-- **The items that are kept are those on which the function holds,** in their order. -/
theorem filterItems_eq {p : Value → Bool} {vs : List Json}
    (h : filterItems (fun v => (f v).map p) items = .ok vs) :
    vs = items.filter fun v => (f v).toOption.any p := by
  induction items generalizing vs with
  | nil =>
    cases h
    rfl
  | cons item rest ih =>
    simp only [filterItems, bind_eq_ok_iff, map_eq_ok_iff, Except.ok.injEq] at h
    obtain ⟨_, ⟨w, hw, rfl⟩, ws, hws, rfl⟩ := h
    obtain rfl := ih hws
    have hany : (f item).toOption.any p = p w := by
      rw [hw]
      rfl
    rw [List.filter_cons, hany]

end ListCallback

/-! ### Parameters -/

namespace Env

variable (env : Env) (param : String) (v : Value)

theorem find_bind_self : (env.bind param v).find param = .ok v := by
  simp [bind, find]

theorem isBound_bind_self : (env.bind param v).isBound param = true := by
  simp [bind, isBound]

theorem find_bind_of_ne {name : String} (h : name ≠ param) :
    (env.bind param v).find name = env.find name := by
  simp [bind, find, List.lookup_cons, beq_false_of_ne h]

theorem isBound_bind_of_ne {name : String} (h : name ≠ param) :
    (env.bind param v).isBound name = env.isBound name := by
  simp [bind, isBound, List.lookup_cons, beq_false_of_ne h]

end Env

/-! ### Positions -/

/-- The one negative position stands for no position. -/
theorem TextMethod.looseEq_positionOrNone (i : Option Nat) :
    Value.looseEq (some (positionOrNone i)) (some (.ofInt (-1))) = i.isNone := by
  cases i with
  | none => decide +kernel
  | some i =>
    by_cases hi : Word.minSigned ≤ (i : Int) ∧ (i : Int) ≤ Word.maxUnsigned
    · have hnum : positionOrNone (some i) = .num (.int i hi) := by
        rw [positionOrNone, Json.ofNat, Json.ofInt, Number.ofInt?, dif_pos hi]
        rfl
      have hbound : (i : Int) ≤ 0xFFFFFFFFFFFFFFFF := hi.2
      rw [hnum]
      exact Binary.beq_ofInt_of_neg (Int.natCast_nonneg i) (by omega) (by decide) (by decide)
    · -- no number is written for such a position
      have hnull : positionOrNone (some i) = .null := by
        rw [positionOrNone, Json.ofNat, Json.ofInt, Number.ofInt?, dif_neg hi]
        rfl
      rw [hnull]
      rfl

namespace Expr

/-! ### Calls with a function -/

/-- A method of a list that is called with a function. -/
def callback (list : Expr) (m : ListCallback) (param : String) (body : Expr) : Expr :=
  list.invoke m.name [lambda param body]

variable {env : Env} {list : Expr} {items : List Json}

/-- **A call gives the parameter to the body and to nothing else.** -/
theorem eval_callback (h : list.eval env = .ok (some (.arr items))) (m : ListCallback)
    (param : String) (body : Expr) :
    (list.callback m param body).eval env =
      m.run (fun item => body.eval (env.bind param (some item))) items := by
  have hname : ¬ env.NamesConstant list := by
    intro hconstant
    obtain ⟨name, -, hvalue⟩ := hconstant.constant?_eq h
    obtain ⟨n, heq⟩ := Builtin.exists_num_of_constant? hvalue
    cases heq
  rw [callback, eval_invoke (by simp) h hname, callOnce, ListCallback.ofName?_name]

/-- The number `-1` as it is written. -/
def minusOne : Expr := unary .neg (literal (.ofNat 1))

theorem eval_minusOne (env : Env) : minusOne.eval env = .ok (some (.ofInt (-1))) := by
  have hwhole : (Binary.ofFloat (-(Float.ofInt 1))).whole? = some (-1) := by decide +kernel
  rw [minusOne, eval, eval]
  change Except.ok (some (Json.computed (-(Float.ofInt 1)))) = _
  rw [Json.computed, hwhole]
  rfl

variable (param : String) (body : Expr)

theorem eval_every_eq (h : list.eval env = .ok (some (.arr items))) :
    (list.callback .every param body).eval env =
      (unary .not (list.callback .some param (unary .not body))).eval env := by
  have hfails (env : Env) : ((unary .not body).eval env).map Value.isTruthy =
      ((body.eval env).map Value.isTruthy).map (!·) := by
    rw [eval]
    cases body.eval env <;> rfl
  rw [eval, eval_callback h, eval_callback h, ListCallback.run, ListCallback.run]
  simp only [hfails]
  cases ListCallback.firstHit _ 0 items with
  | error e => rfl
  | ok hit => cases hit <;> rfl

theorem eval_some_eq (h : list.eval env = .ok (some (.arr items))) :
    (list.callback .some param body).eval env =
      (binary .looseNe (list.callback .findIndex param body) minusOne).eval env := by
  rw [eval, eval_callback h, eval_callback h, eval_minusOne, ListCallback.run, ListCallback.run]
  cases ListCallback.firstHit _ 0 items with
  | error e => rfl
  | ok hit =>
    have hne := TextMethod.looseEq_positionOrNone (hit.map Prod.fst)
    change Except.ok (some (Json.bool hit.isSome)) = Except.ok (some (Json.bool !_))
    rw [hne]
    cases hit <;> rfl

theorem exists_hit (h : list.eval env = .ok (some (.arr items))) :
    ∃ hit : Except EvalError (Option (Fin items.length)),
      (list.callback .findIndex param body).eval env =
          hit.map (fun i => some (TextMethod.positionOrNone (i.map Fin.val))) ∧
        (list.callback .find param body).eval env = hit.map (Option.map items.get) := by
  rw [eval_callback h, eval_callback h, ListCallback.run, ListCallback.run]
  cases hfirst : ListCallback.firstHit _ 0 items with
  | error e => exact ⟨.error e, rfl, rfl⟩
  | ok hit =>
    cases hit with
    | none => exact ⟨.ok none, rfl, rfl⟩
    | some p =>
      obtain ⟨n, hn, hposition, hitem⟩ := ListCallback.firstHit_eq_ok hfirst
      rw [Nat.zero_add] at hposition
      refine ⟨.ok (some ⟨n, hn⟩), ?_, ?_⟩
      · simp [Except.map, hposition]
      · simp [Except.map, hitem]

/-! ### Agreement -/

/-- How the methods agree on the list that an expression is, with one parameter and body. -/
structure CallbacksAgree (env : Env) (list : Expr) (items : List Json) (param : String)
    (body : Expr) : Prop where
  /-- All items pass if no item fails to. -/
  every_eq : (list.callback .every param body).eval env =
    (unary .not (list.callback .some param (unary .not body))).eval env
  /-- An item passes if the position of the first is not `-1`. -/
  some_eq : (list.callback .some param body).eval env =
    (binary .looseNe (list.callback .findIndex param body) minusOne).eval env
  /-- What is found is the item at the position that is found, or undefined for `-1`. -/
  find_eq : ∃ hit : Except EvalError (Option (Fin items.length)),
    (list.callback .findIndex param body).eval env =
        hit.map (fun i => some (TextMethod.positionOrNone (i.map Fin.val))) ∧
      (list.callback .find param body).eval env = hit.map (Option.map items.get)
  /-- There is a list of results if there is one for each item. -/
  map_iff : (∃ v, (list.callback .map param body).eval env = .ok v) ↔
    ∀ item ∈ items, ∃ v, body.eval (env.bind param (some item)) = .ok v
  map_length : ∀ v, (list.callback .map param body).eval env = .ok v →
    ∃ results, v = some (.arr results) ∧ results.length = items.length
  /-- The items are kept for which the body is truthy, in their order. -/
  filter_eq : ∀ v, (list.callback .filter param body).eval env = .ok v →
    v = some (.arr (items.filter fun item =>
      (body.eval (env.bind param (some item))).toOption.any Value.isTruthy))

theorem callbacksAgree (h : list.eval env = .ok (some (.arr items))) :
    CallbacksAgree env list items param body where
  every_eq := eval_every_eq param body h
  some_eq := eval_some_eq param body h
  find_eq := exists_hit param body h
  map_iff := by
    rw [eval_callback h, ListCallback.run, ← ListCallback.exists_mapItems_iff]
    simp only [map_eq_ok_iff]
    constructor
    · rintro ⟨_, vs, hvs, -⟩
      exact ⟨vs, hvs⟩
    · rintro ⟨vs, hvs⟩
      exact ⟨_, vs, hvs, rfl⟩
  map_length := by
    intro v hv
    rw [eval_callback h, ListCallback.run, map_eq_ok_iff] at hv
    obtain ⟨vs, hvs, rfl⟩ := hv
    exact ⟨vs, rfl, ListCallback.length_of_mapItems hvs⟩
  filter_eq := by
    intro v hv
    rw [eval_callback h, ListCallback.run, map_eq_ok_iff] at hv
    obtain ⟨vs, hvs, rfl⟩ := hv
    rw [ListCallback.filterItems_eq hvs]

/-- **The methods that take a function agree.** They agree on every list, with every parameter and
every body, also where the body fails. All that they do with the parameter is to evaluate the body
for items, where the parameter hides what has its name and nothing else. With one stack of
parameters every expression has the same outcome and leaves the stack as it was, be it a value or a
failure. -/
theorem callbacks_agree (h : list.eval env = .ok (some (.arr items))) :
    CallbacksAgree env list items param body ∧
    (∀ m : ListCallback, (list.callback m param body).eval env =
      m.loop (fun item => body.eval (env.bind param (some item))) 0 [] items) ∧
    (∀ v, (env.bind param v).find param = .ok v ∧ (env.bind param v).isBound param ∧
      ∀ name, name ≠ param → (env.bind param v).find name = env.find name ∧
        (env.bind param v).isBound name = env.isBound name) ∧
    ∀ e params, evalOn env.scope e params =
      OnStack.ofOutcome (e.eval ⟨env.scope, params⟩) params := by
  refine ⟨callbacksAgree param body h, fun m => ?_, fun v => ?_, fun e params => ?_⟩
  · rw [eval_callback h, ListCallback.loop_eq_run]
  · refine ⟨env.find_bind_self param v, env.isBound_bind_self param v, fun name hname => ?_⟩
    exact ⟨env.find_bind_of_ne param v hname, env.isBound_bind_of_ne param v hname⟩
  · exact evalOn_eq env.scope params e

/-- Rows of which the second has no entries, beside a name that a parameter may hide. -/
def rowsContext : Json :=
  .obj [("row", .str "first"), ("rows", .arr [.obj [("done", .bool false)], .null])]

theorem callbacks_agree_rowsContext :
    let env : Env := ⟨Scope.ofContext rowsContext, [("old", none)]⟩
    let done := member (ident "row") "done" false
    (unary .not ((ident "rows").callback .some "row" (unary .not done))).eval env =
        .ok (some (.bool false)) ∧
      (∀ v, ((ident "rows").callback .map "row" done).eval env ≠ .ok v) ∧
      evalOn env.scope ((ident "rows").callback .map "row" done) env.params =
        .error (.nullAccess "done" "null") [("old", none)] := by
  intro env done
  have hrows : (ident "rows").eval env =
      .ok (some (.arr [.obj [("done", .bool false)], .null])) := rfl
  obtain ⟨hagree, -, -, hstack⟩ := callbacks_agree "row" done hrows
  have hfails : ((ident "rows").callback .map "row" done).eval env =
      .error (.nullAccess "done" "null") := rfl
  refine ⟨hagree.every_eq.symm.trans rfl, fun v hv => ?_, ?_⟩
  · rw [hfails] at hv
    cases hv
  · rw [hstack, hfails]
    rfl

end Expr

end SchemaCanvas
