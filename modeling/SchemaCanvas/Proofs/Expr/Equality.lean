import SchemaCanvas.Proofs.Expr.Callbacks
import SchemaCanvas.Proofs.Number.Whole

/-!
# The two equalities

Floats are equal if they are the same float or both are zeros, and what is no number is not equal to
itself. JSON numbers are finite, so with the sign of zeros left out they are equal exactly if they
are the same; lists and objects of them are compared part by part and differ in no other way. This
makes equality without conversion the kernel of a function, and so an equivalence.

Equality with conversion is defined by kinds of operands. Each kind is chosen by both operands
alike, which makes it symmetric; operands that are equal without conversion are of one kind, and
none of the conversions tells them apart.

* `Binary.beq_iff` : when floats are equal;
* `Json.same_iff`, `Value.strictEq_iff` : equal values are the same with one zero;
* `Value.looseEq_comm`, `Value.looseEq_of_strictEq` : the equality with conversion;
* `Value.equalities_lawful` : the laws, and what they say of operators and of searches in lists.
-/

namespace SchemaCanvas

open Float.Model Float.Model.UnpackedFloat

/-! ### Floats -/

namespace Binary

variable {x y : Float} {u v : UnpackedFloat}

/-- An unpacked float, with one zero. -/
def unsignedZero : UnpackedFloat → UnpackedFloat
  | .zero _ => .zero .positive
  | u => u

theorem unsignedZero_eq_notANumber_iff : unsignedZero u = .notANumber ↔ u = .notANumber := by
  cases u <;> simp [unsignedZero]

theorem compare_infinity_eq_iff {s s' : Sign} :
    UnpackedFloat.compare (.infinity s) (.infinity s') = some .eq ↔ s = s' := by
  rw [UnpackedFloat.compare, Option.some_inj]
  cases s <;> cases s'
  · exact iff_of_true rfl rfl
  · exact iff_of_false (by decide) Sign.noConfusion
  · exact iff_of_false (by decide) Sign.noConfusion
  · exact iff_of_true rfl rfl

theorem compare_finite_eq_iff {s s' : Sign} {m m' : ℕ} {e e' : ℤ} {hm : 0 < m} {hm' : 0 < m'} :
    UnpackedFloat.compare (.finite s m e hm) (.finite s' m' e' hm') = some .eq ↔
      s = s' ∧ m = m' ∧ e = e' := by
  cases s <;> cases s' <;> simp [UnpackedFloat.compare, Ordering.then_eq_eq, and_comm]

/-- **Floats are equal if they are the same up to the sign of a zero,** and are numbers. -/
theorem unpacked_beq_iff :
    u.beq v = true ↔ u ≠ .notANumber ∧ unsignedZero u = unsignedZero v := by
  have hdiffer (hbeq : u.beq v = false) (hne : unsignedZero u ≠ unsignedZero v) :
      u.beq v = true ↔ u ≠ .notANumber ∧ unsignedZero u = unsignedZero v :=
    iff_of_false (by simp [hbeq]) fun h => hne h.2
  cases u with
  | notANumber => exact iff_of_false (by rintro ⟨⟩) fun h => h.1 rfl
  | infinity s =>
    cases v with
    | infinity s' =>
      rw [UnpackedFloat.beq, beq_iff_eq, compare_infinity_eq_iff]
      simp [unsignedZero]
    | notANumber => exact hdiffer rfl nofun
    | zero | finite => exact hdiffer (by cases s <;> rfl) nofun
  | zero s =>
    cases v with
    | zero => exact iff_of_true rfl ⟨nofun, rfl⟩
    | notANumber => exact hdiffer rfl nofun
    | infinity s' | finite s' => exact hdiffer (by cases s' <;> rfl) nofun
  | finite s m e hm =>
    cases v with
    | finite s' m' e' hm' =>
      rw [UnpackedFloat.beq, beq_iff_eq, compare_finite_eq_iff]
      simp [unsignedZero]
    | notANumber => exact hdiffer rfl nofun
    | infinity s' => exact hdiffer (by cases s' <;> rfl) nofun
    | zero => exact hdiffer (by cases s <;> rfl) nofun

theorem beq_iff : (x == y) = true ↔
    x.toModel.unpack ≠ .notANumber ∧
      unsignedZero x.toModel.unpack = unsignedZero y.toModel.unpack :=
  unpacked_beq_iff

theorem beq_comm (x y : Float) : (x == y) = (y == x) := by
  have hturn {x y : Float} (h : (x == y) = true) : (y == x) = true := by
    rw [beq_iff] at h ⊢
    obtain ⟨hnumber, heq⟩ := h
    refine ⟨fun hy => hnumber ?_, heq.symm⟩
    rwa [← unsignedZero_eq_notANumber_iff, heq, unsignedZero_eq_notANumber_iff]
  exact Bool.eq_iff_iff.2 ⟨hturn, hturn⟩

/-- A float, with one zero. -/
def oneZero (x : Float) : Float := if x == 0 then 0 else x

theorem unpack_oneZero (x : Float) :
    (oneZero x).toModel.unpack = unsignedZero x.toModel.unpack := by
  have hzero : (0 : Float).toModel.unpack = .zero .positive := rfl
  rw [oneZero]
  split
  · next h => rw [hzero, (beq_iff.1 h).2, hzero, unsignedZero]
  · next h =>
    cases hx : x.toModel.unpack with
    | zero s => exact absurd (beq_iff.2 (by simp [hx, hzero, unsignedZero])) h
    | notANumber | infinity | finite => rfl

theorem unpack_injective (h : x.toModel.unpack = y.toModel.unpack) : x = y := by
  have hmodel : x.toModel = y.toModel := by
    rw [← pack_unpack_toModel x, h, pack_unpack_toModel]
  cases x
  cases y
  exact congrArg _ hmodel

/-- **Numbers are equal if they are the same with one zero.** -/
theorem beq_iff_oneZero (h : x.isFinite) : (x == y) = true ↔ oneZero x = oneZero y := by
  have hnumber : x.toModel.unpack ≠ .notANumber := by
    intro hx
    change x.toModel.unpack.isFinite = true at h
    rw [hx] at h
    cases h
  rw [beq_iff, and_iff_right hnumber, ← unpack_oneZero, ← unpack_oneZero]
  exact ⟨unpack_injective, fun h => congrArg (fun x => x.toModel.unpack) h⟩

theorem isFinite_oneZero (h : x.isFinite) : (oneZero x).isFinite := by
  rw [oneZero]
  split
  · decide
  · exact h

end Binary

/-! ### JSON values -/

namespace Number

/-- A number, with one zero among the floats. -/
def oneZero : Number → Number
  | int n h => int n h
  | float x h => float (Binary.oneZero x) (Binary.isFinite_oneZero h)

theorem same_iff {m n : Number} : m.same n = true ↔ m.oneZero = n.oneZero := by
  cases m with
  | int => cases n <;> simp [same, oneZero]
  | float x hx => cases n <;> simp [same, oneZero, Binary.beq_iff_oneZero hx]

theorem isFinite_toFloat (n : Number) : n.toFloat.isFinite := by
  obtain ⟨negative, m, e, hfinite⟩ := n.exists_ofFloat_toFloat
  rw [Binary.ofFloat_eq] at hfinite
  change n.toFloat.toModel.unpack.isFinite = true
  cases hunpack : n.toFloat.toModel.unpack with
  | notANumber | infinity => rw [hunpack] at hfinite; cases hfinite
  | zero | finite => rfl

end Number

namespace Json

mutual

/-- A value with all numbers in it changed. -/
def mapNumbers (f : Number → Number) : Json → Json
  | null => null
  | bool b => bool b
  | num n => num (f n)
  | str s => str s
  | arr items => arr (mapNumbersOfItems f items)
  | obj fields => obj (mapNumbersOfFields f fields)

/-- Items with all numbers in them changed. -/
def mapNumbersOfItems (f : Number → Number) : List Json → List Json
  | [] => []
  | v :: rest => mapNumbers f v :: mapNumbersOfItems f rest

/-- Fields with all numbers in them changed. -/
def mapNumbersOfFields (f : Number → Number) : List (String × Json) → List (String × Json)
  | [] => []
  | (k, v) :: rest => (k, mapNumbers f v) :: mapNumbersOfFields f rest

end

mutual

/-- **Values are equal if they are the same with one zero.** -/
theorem same_iff : ∀ a b : Json,
    a.same b = true ↔ a.mapNumbers Number.oneZero = b.mapNumbers Number.oneZero
  | .null, b | .bool _, b | .str _, b => by cases b <;> simp [same, mapNumbers]
  | .num _, b => by cases b <;> simp [same, mapNumbers, Number.same_iff]
  | .arr as, b => by cases b <;> simp [same, mapNumbers, sameItems_iff as]
  | .obj as, b => by cases b <;> simp [same, mapNumbers, sameFields_iff as]

theorem sameItems_iff : ∀ as bs : List Json, sameItems as bs = true ↔
    mapNumbersOfItems Number.oneZero as = mapNumbersOfItems Number.oneZero bs
  | [], bs => by cases bs <;> simp [sameItems, mapNumbersOfItems]
  | a :: as, bs => by
    cases bs <;> simp [sameItems, mapNumbersOfItems, same_iff a, sameItems_iff as]

theorem sameFields_iff : ∀ as bs : List (String × Json), sameFields as bs = true ↔
    mapNumbersOfFields Number.oneZero as = mapNumbersOfFields Number.oneZero bs
  | [], bs => by cases bs <;> simp [sameFields, mapNumbersOfFields]
  | (k, a) :: as, bs => by
    cases bs <;> simp [sameFields, mapNumbersOfFields, same_iff a, sameFields_iff as]

end

end Json

/-! ### Values of expressions -/

namespace Value

variable {a b : Value}

/-- What equality without conversion compares: a number as a float, and any other value as it is,
with one zero. -/
def strictKey : Value → Float ⊕ Value
  | some (.num n) => .inl (Binary.oneZero n.toFloat)
  | v => .inr (v.map (Json.mapNumbers Number.oneZero))

/-- **Equality without conversion is sameness of what is compared.** -/
theorem strictEq_iff : strictEq a b = true ↔ strictKey a = strictKey b := by
  cases a with
  | none =>
    cases b with
    | none => simp [strictEq]
    | some b => cases b <;> simp [strictEq, strictKey]
  | some a =>
    cases b with
    | none => cases a <;> simp [strictEq, strictKey]
    | some b =>
      cases a with
      | num m =>
        cases b with
        | num n =>
          rw [strictEq, Binary.beq_iff_oneZero m.isFinite_toFloat, strictKey, strictKey,
            Sum.inl.injEq]
        | null | bool | str | arr | obj => simp [strictEq, strictKey, Json.same]
      | null | bool | str | arr | obj =>
        cases b with
        | num n => simp [strictEq, strictKey, Json.same]
        | null | bool | str | arr | obj => simp [strictEq, strictKey, Json.same_iff]

theorem equivalence_strictEq : Equivalence fun a b : Value => strictEq a b = true where
  refl _ := strictEq_iff.2 rfl
  symm h := strictEq_iff.2 (strictEq_iff.1 h).symm
  trans h h' := strictEq_iff.2 ((strictEq_iff.1 h).trans (strictEq_iff.1 h'))

theorem strictEq_comm (a b : Value) : strictEq a b = strictEq b a :=
  Bool.eq_iff_iff.2 ⟨equivalence_strictEq.symm, equivalence_strictEq.symm⟩

/-! ### Conversion -/

theorem comparesAsNumbers_comm (a b : Value) : comparesAsNumbers a b = comparesAsNumbers b a := by
  rcases a with _ | (_ | _ | _ | _ | _ | _) <;> rcases b with _ | (_ | _ | _ | _ | _ | _) <;> rfl

theorem looseEq_comm (a b : Value) : looseEq a b = looseEq b a := by
  rw [looseEq, looseEq, Bool.or_comm, Bool.and_comm, comparesAsNumbers_comm, Binary.beq_comm,
    strictEq_comm]

theorem isNullish_of_strictEq (h : strictEq a b = true) : a.isNullish = b.isNullish := by
  rcases a with _ | (_ | _ | _ | _ | _ | _) <;> rcases b with _ | (_ | _ | _ | _ | _ | _) <;>
    first | rfl | cases h

/-- Of equal values, only truth values are compared as numbers. -/
theorem exists_bool_of_strictEq (h : strictEq a b = true)
    (hnumbers : comparesAsNumbers a b = true) :
    ∃ p, a = some (.bool p) ∧ b = some (.bool p) := by
  unfold comparesAsNumbers at hnumbers
  split at hnumbers
  · cases h
  · cases h
  · next p =>
    rcases b with _ | (_ | q | _ | _ | _ | _) <;> try cases h
    exact ⟨p, rfl, by rw [eq_of_beq h]⟩
  · next q _ =>
    rcases a with _ | (_ | p | _ | _ | _ | _) <;> try cases h
    exact ⟨q, by rw [eq_of_beq h], rfl⟩
  · cases hnumbers

/-- **Values that are equal without conversion are equal with it.** -/
theorem looseEq_of_strictEq (h : strictEq a b = true) : looseEq a b = true := by
  rw [looseEq, isNullish_of_strictEq h, Bool.or_self, Bool.and_self]
  split
  · assumption
  · split
    · next hnumbers =>
      obtain ⟨p, rfl, rfl⟩ := exists_bool_of_strictEq h hnumbers
      cases p <;> decide
    · exact h

theorem looseEq_self (a : Value) : looseEq a a = true :=
  looseEq_of_strictEq (equivalence_strictEq.refl a)

/-! ### Operators and searches -/

theorem eval_binary {env : Env} {l r : Expr} (hl : l.eval env = .ok a) (hr : r.eval env = .ok b)
    (op : BinaryOp) : (Expr.binary op l r).eval env = .ok (some (op.apply a b)) := by
  rw [Expr.eval, hl, hr]
  rfl

theorem apply_comm {op : BinaryOp}
    (h : op ∈ [BinaryOp.looseEq, .looseNe, .strictEq, .strictNe]) (a b : Value) :
    op.apply a b = op.apply b a := by
  simp only [List.mem_cons, List.not_mem_nil, or_false] at h
  rcases h with rfl | rfl | rfl | rfl
  · exact congrArg Json.bool (looseEq_comm a b)
  · exact congrArg (fun p => Json.bool !p) (looseEq_comm a b)
  · exact congrArg Json.bool (strictEq_comm a b)
  · exact congrArg (fun p => Json.bool !p) (strictEq_comm a b)

/-- The position of the first item of a list that equals a value. -/
def firstEqual (items : List Json) (v : Value) : Option Nat :=
  items.findIdx? fun item => strictEq (some item) v

theorem strictEq_of_mem_firstEqual {items : List Json} {v : Value} {i : Nat}
    (h : i ∈ firstEqual items v) :
    ∃ item, items[i]? = some item ∧ strictEq (some item) v = true := by
  obtain ⟨hi, hitem, -⟩ := List.findIdx?_eq_some_iff_getElem.1 h
  exact ⟨items[i], List.getElem?_eq_getElem hi, hitem⟩

theorem exists_firstEqual_le {items : List Json} {v : Value} {j : Nat} {item : Json}
    (hitem : items[j]? = some item) (h : strictEq v (some item) = true) :
    ∃ i ∈ firstEqual items v, i ≤ j := by
  obtain ⟨hj, rfl⟩ := List.getElem?_eq_some_iff.1 hitem
  rw [strictEq_comm] at h
  cases hfound : firstEqual items v with
  | none => exact absurd h (by simp [List.findIdx?_eq_none_iff.1 hfound _ (List.getElem_mem hj)])
  | some i =>
    obtain ⟨hi, -, hbefore⟩ := List.findIdx?_eq_some_iff_getElem.1 hfound
    exact ⟨i, rfl, Nat.not_lt.1 fun hlt => hbefore j hlt h⟩

theorem callMethod_includes (items : List Json) (args : List Value) :
    (Json.arr items).callMethod "includes" args =
      .ok (some (.bool (firstEqual items (argument args 0)).isSome)) := by
  rw [firstEqual, List.findIdx?_isSome]
  rfl

/-- **The laws of the two equalities,** and what follows for those who use them. The operators give
the same answer in both orders of operands, the answers with conversion follow those without, and
both searches in a list find the first item that equals the value in either order. -/
theorem equalities_lawful :
    (Equivalence fun a b : Value => strictEq a b = true) ∧
    (∀ a, looseEq a a = true) ∧ (∀ a b, looseEq a b = looseEq b a) ∧
    (∀ a b, strictEq a b = true → looseEq a b = true) ∧
    (∀ (env : Env) (l r : Expr) (a b : Value), l.eval env = .ok a → r.eval env = .ok b →
      (∀ op ∈ [BinaryOp.looseEq, .looseNe, .strictEq, .strictNe],
        (Expr.binary op l r).eval env = (Expr.binary op r l).eval env) ∧
      ∃ strict loose : Bool, (strict = true → loose = true) ∧
        (Expr.binary .strictEq l r).eval env = .ok (some (.bool strict)) ∧
        (Expr.binary .strictNe l r).eval env = .ok (some (.bool !strict)) ∧
        (Expr.binary .looseEq l r).eval env = .ok (some (.bool loose)) ∧
        (Expr.binary .looseNe l r).eval env = .ok (some (.bool !loose))) ∧
    (∀ (items : List Json) (args : List Value), ∃ found : Option Nat,
      (Json.arr items).callMethod "indexOf" args =
        .ok (some (TextMethod.positionOrNone found)) ∧
      (Json.arr items).callMethod "includes" args = .ok (some (.bool found.isSome)) ∧
      looseEq (some (TextMethod.positionOrNone found)) (some (.ofInt (-1))) = found.isNone ∧
      (∀ i ∈ found, ∃ item, items[i]? = some item ∧ strictEq (some item) (argument args 0) = true) ∧
      ∀ j item, items[j]? = some item → strictEq (argument args 0) (some item) = true →
        ∃ i ∈ found, i ≤ j) := by
  refine ⟨equivalence_strictEq, looseEq_self, looseEq_comm, fun _ _ => looseEq_of_strictEq, ?_, ?_⟩
  · intro env l r a b hl hr
    refine ⟨fun op hop => ?_, strictEq a b, looseEq a b, looseEq_of_strictEq, ?_⟩
    · rw [eval_binary hl hr, eval_binary hr hl, apply_comm hop]
    · exact ⟨eval_binary hl hr _, eval_binary hl hr _, eval_binary hl hr _, eval_binary hl hr _⟩
  · intro items args
    exact ⟨firstEqual items (argument args 0), rfl, callMethod_includes items args,
      TextMethod.looseEq_positionOrNone _, fun _ => strictEq_of_mem_firstEqual,
      fun _ _ => exists_firstEqual_le⟩

/-- The least positive integer that is no float. -/
def betweenFloats : Json := .num (.int 9007199254740993 (by decide))

/-- The float nearest to it. -/
def nearestFloat : Json := .num (.float 9007199254740992 (by decide))

theorem equalities_lawful_nearestFloat :
    let env : Env := ⟨[], []⟩
    strictEq (some betweenFloats) (some nearestFloat) = true ∧
      strictEq (some nearestFloat) (some betweenFloats) = true ∧
      looseEq (some betweenFloats) (some nearestFloat) = true ∧
      (Expr.binary .strictEq (.literal betweenFloats) (.literal nearestFloat)).eval env =
        (Expr.binary .strictEq (.literal nearestFloat) (.literal betweenFloats)).eval env ∧
      ∃ i ≤ 1, (Json.arr [.null, nearestFloat]).callMethod "indexOf" [some betweenFloats] =
        .ok (some (TextMethod.positionOrNone (some i))) := by
  intro env
  obtain ⟨hequivalence, -, -, hloose, hoperators, hsearches⟩ := equalities_lawful
  have heq : strictEq (some betweenFloats) (some nearestFloat) = true := rfl
  obtain ⟨found, hfound, -, -, -, hfirst⟩ :=
    hsearches [.null, nearestFloat] [some betweenFloats]
  obtain ⟨i, rfl, hi⟩ := hfirst 1 nearestFloat rfl heq
  exact ⟨heq, hequivalence.symm heq, hloose _ _ heq,
    (hoperators env _ _ _ _ rfl rfl).1 _ (by decide), i, hi, hfound⟩

end Value

end SchemaCanvas
