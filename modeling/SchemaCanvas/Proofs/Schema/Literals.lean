import SchemaCanvas.Schema.PropValue

/-!
# Literals and references

A value given in a schema is a literal unless it refers to the context. An object refers to the
context by a text under `$exp` or `$bind`. Records may also be written as the list of their fields,
so some lists of texts are read as references although they hold neither name.

* `DataRef.isSome_ofJson?_obj_iff` and `DataRef.isSome_ofJson?_arr_iff` : which objects and which
  lists are references;
* `PropValue.literal_iff` : which values are literals, and stand for themselves in every context.
-/

namespace SchemaCanvas

namespace Json

theorem text?_eq_some_iff {v : Json} {s : String} : v.text? = some s ↔ v = .str s := by
  cases v <;> simp [text?]

theorem mapM_text?_eq_some_iff {items : List Json} {names : List String} :
    items.mapM text? = some names ↔ items = names.map .str := by
  induction items generalizing names with
  | nil => cases names <;> simp
  | cons v items ih =>
    simp only [List.mapM_cons, Option.bind_eq_bind, Option.bind_eq_some_iff, text?_eq_some_iff, ih,
      Option.pure_def, Option.some.injEq]
    constructor
    · rintro ⟨name, rfl, names, rfl, rfl⟩
      rfl
    · intro h
      obtain ⟨name, names, rfl, rfl, rfl⟩ := List.map_eq_cons_iff.1 h.symm
      exact ⟨name, rfl, names, rfl, rfl⟩

/-- A list that gives the fields of a reference by position: the text of an expression, or a path
and its transforms. -/
inductive ListsReference : Json → Prop
  | expression (text : String) : ListsReference (.arr [.str text])
  | path (path : String) : ListsReference (.arr [.str path, .null])
  | transform (path name : String) : ListsReference (.arr [.str path, .str name])
  | transforms (path : String) (names : List String) :
      ListsReference (.arr [.str path, .arr (names.map .str)])

end Json

namespace DataRef

theorem expression?_obj (fields : Entries Json) :
    expression? (.obj fields) = ((fields.lookup "$exp").bind Json.text?).map expression := by
  change ((fields.lookup "$exp").bind fun v => v.text?.bind fun text => some (expression text)) = _
  cases fields.lookup "$exp" with
  | none => rfl
  | some v => exact Option.map_eq_bind.symm

theorem path?_obj (fields : Entries Json) :
    path? (.obj fields) = ((fields.lookup "$bind").bind Json.text?).bind fun p =>
      (transformNames? (fields.lookup "$transform")).map (path p) := by
  change ((fields.lookup "$bind").bind fun v => v.text?.bind fun p =>
    (transformNames? (fields.lookup "$transform")).bind fun names => some (path p names)) = _
  simp only [Option.bind_assoc, Option.map_eq_bind]
  rfl

/-- An object is a reference if it has the text of an expression, or a path and perhaps names of
transforms. -/
theorem isSome_ofJson?_obj_iff {fields : Entries Json} :
    (ofJson? (.obj fields)).isSome ↔
      ((fields.lookup "$exp").bind Json.text?).isSome ∨
        ((fields.lookup "$bind").bind Json.text?).isSome ∧
          (transformNames? (fields.lookup "$transform")).isSome := by
  rw [ofJson?, expression?_obj, path?_obj]
  cases (fields.lookup "$exp").bind Json.text? with
  | some text => simp
  | none => cases (fields.lookup "$bind").bind Json.text? <;> simp

theorem transformNames?_of_arr (items : List Json) :
    transformNames? (some (.arr items)) = items.mapM Json.text? := rfl

theorem isSome_transformNames?_iff {v : Json} :
    (transformNames? (some v)).isSome ↔
      v = .null ∨ (∃ name, v = .str name) ∨ ∃ names : List String, v = .arr (names.map .str) := by
  cases v with
  | arr items =>
    rw [transformNames?_of_arr, Option.isSome_iff_exists]
    simp [Json.mapM_text?_eq_some_iff]
  | _ => simp [transformNames?, Json.texts?]

theorem ofJson?_path_arr (p : String) (v : Json) :
    ofJson? (.arr [.str p, v]) = (transformNames? (some v)).map (path p) := by
  show ((transformNames? (some v)).bind fun names => some (path p names)) = _
  rw [Option.map_eq_bind]
  rfl

/-- A list is a reference if it gives the fields of one by position. -/
theorem isSome_ofJson?_arr_iff {items : List Json} :
    (ofJson? (.arr items)).isSome ↔ Json.ListsReference (.arr items) := by
  constructor
  · intro h
    match items with
    | [] => cases h
    | [v] =>
      cases v with
      | str text => exact .expression text
      | null | bool | num | arr | obj => cases h
    | [v, w] =>
      cases v with
      | str p =>
        rw [ofJson?_path_arr, Option.isSome_map, isSome_transformNames?_iff] at h
        obtain rfl | ⟨name, rfl⟩ | ⟨names, rfl⟩ := h
        · exact .path p
        · exact .transform p name
        · exact .transforms p names
      | null | bool | num | arr | obj => cases h
    | v :: w :: x :: rest => cases h
  · intro h
    cases h with
    | expression | path | transform => rfl
    | transforms p names =>
      rw [ofJson?_path_arr, Option.isSome_map]
      exact isSome_transformNames?_iff.2 (.inr (.inr ⟨names, rfl⟩))

end DataRef

/-! ### Literals -/

namespace PropValue

variable {v : Json}

theorem ofJson_eq_literal_iff : ofJson v = .literal v ↔ DataRef.ofJson? v = none := by
  rw [ofJson]
  cases DataRef.ofJson? v <;> simp

theorem resolve_literal (h : ∀ s, v ≠ .str s) (context : Json) (transforms : Transforms) :
    (literal v).resolve context transforms = some v := by
  cases v with
  | str s => exact absurd rfl (h s)
  | null | bool | num | arr | obj => rfl

/-- **A value that is no text and has no text under `$exp` and `$bind` is a literal, and stands for
itself in every context, if and only if it does not give the fields of a reference by position.** -/
theorem literal_iff (htext : ∀ s, v ≠ .str s) (hexp : (v.field? "$exp").bind Json.text? = none)
    (hbind : (v.field? "$bind").bind Json.text? = none) :
    (ofJson v = .literal v ∧
      ∀ context transforms, v.resolve context transforms = some v) ↔ ¬ v.ListsReference := by
  have hliteral : ofJson v = .literal v ↔ ¬ v.ListsReference := by
    rw [ofJson_eq_literal_iff, ← Option.not_isSome_iff_eq_none]
    refine not_congr ?_
    cases v with
    | str s => exact absurd rfl (htext s)
    | arr items => exact DataRef.isSome_ofJson?_arr_iff
    | obj fields =>
      change (fields.lookup "$exp").bind Json.text? = none at hexp
      change (fields.lookup "$bind").bind Json.text? = none at hbind
      rw [DataRef.isSome_ofJson?_obj_iff, hexp, hbind]
      simp only [Option.isSome_none, Bool.false_eq_true, false_and, or_self, false_iff]
      nofun
    | null | bool | num => exact ⟨nofun, nofun⟩
  rw [hliteral, and_iff_left_iff_imp]
  intro h context transforms
  rw [Json.resolve, hliteral.2 h]
  exact resolve_literal htext context transforms

/-- A list of one text. -/
def oneText : Json := .arr [.str "a"]

/-- A list of one text is read as an expression. Where its name stands for nothing, the list is
lost. -/
theorem not_literal_oneText :
    ¬ (ofJson oneText = .literal oneText ∧
      ∀ context transforms, oneText.resolve context transforms = some oneText) ∧
    oneText.resolve (.obj []) [] = none :=
  ⟨nofun, rfl⟩

/-- A list of more texts than a reference has fields. -/
def threeTexts : Json := .arr [.str "a", .str "b", .str "c"]

theorem literal_iff_threeTexts :
    (∀ s, threeTexts ≠ .str s) ∧ (threeTexts.field? "$exp").bind Json.text? = none ∧
      (threeTexts.field? "$bind").bind Json.text? = none ∧ ¬ threeTexts.ListsReference ∧
      ofJson threeTexts = .literal threeTexts ∧
      ∀ context transforms, threeTexts.resolve context transforms = some threeTexts := by
  have htext : ∀ s, threeTexts ≠ .str s := nofun
  have hlist : ¬ threeTexts.ListsReference := nofun
  exact ⟨htext, rfl, rfl, hlist, (literal_iff htext rfl rfl).2 hlist⟩

end PropValue

end SchemaCanvas
