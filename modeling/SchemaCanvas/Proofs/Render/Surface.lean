import SchemaCanvas.Render.Platform
import SchemaCanvas.Proofs.Schema.Reread

/-!
# What a surface changes

An element is put on a surface by way of its written form: the fields of the change are put over the
written ones, and the whole is read again. Since an element that has been read is read back as it
was, this comes to a change field by field: what the change gives is read in the way of its field,
and all else stays.

* `fieldOr?` is a field of a record with what counts if it is not there, and `Over.fieldOr?_eq` says
  what becomes of it when a change is put over the record;
* `Element.Overlaid` says field by field what is shown;
* `Element.onSurface_overlays` : what is shown is this, and there is such an element exactly if
  everything that the change gives can be read.
-/

namespace SchemaCanvas

/-! ### Single fields -/

section

variable {α : Type} {read : Json → Option α} {own : α} {fields change : Entries Json}
  {name : String}

/-- A field of a record, or what counts if the record does not have it. -/
def fieldOr? (read : Json → Option α) (fields : Entries Json) (name : String) (own : α) :
    Option α :=
  match fields.lookup name with
  | some v => read v
  | none => some own

/-- A value where null stands for nothing. -/
def orNull (read : Json → Option α) : Json → Option (Option α)
  | .null => some none
  | v => (read v).map some

/-- Props as a value. -/
def propsOf? : Json → Option (Entries PropValue)
  | .obj props => some (props.map fun (name, v) => (name, PropValue.ofJson v))
  | _ => none

theorem optionalField_eq_fieldOr? :
    optionalField read fields name = fieldOr? (orNull read) fields name none := by
  rw [optionalField, fieldOr?]
  cases fields.lookup name with
  | none => rfl
  | some v => cases v <;> rfl

theorem props?_eq_fieldOr? : props? fields = fieldOr? propsOf? fields "props" [] := by
  rw [props?, fieldOr?]
  cases fields.lookup "props" with
  | none => rfl
  | some v => cases v <;> rfl

theorem children_parts_eq_fieldOr? :
    some (Node.parts fields).children =
      fieldOr? (some ∘ Node.childList) fields "children" none := by
  rw [Node.parts_eq, fieldOr?]
  cases fields.lookup "children" <;> rfl

theorem otherwise_parts_eq_fieldOr? :
    (Node.parts fields).otherwise = fieldOr? Node.otherwise? fields "else" none := by
  rw [Node.parts_eq, fieldOr?]
  cases fields.lookup "else" <;> rfl

theorem exists_fieldOr?_iff (own : α) :
    (∃ x, fieldOr? read change name own = some x) ↔
      ∀ v, change.lookup name = some v → (read v).isSome := by
  rw [fieldOr?]
  cases change.lookup name with
  | none => simp
  | some v => simp [Option.isSome_iff_exists]

end

/-! ### A change put over a record -/

section

variable {fields change base : Entries Json}

/-- Under a name there is what the change gives, or else what the record holds. -/
def Over (change base fields : Entries Json) (name : String) : Prop :=
  fields.lookup name = (change.lookup name).or (base.lookup name)

namespace Over

variable {α : Type} {read : Json → Option α} {name : String}

theorem fieldOr?_eq {own none? : α} (h : Over change base fields name)
    (hbase : fieldOr? read base name none? = some own) :
    fieldOr? read fields name none? = fieldOr? read change name own := by
  rw [fieldOr?] at hbase ⊢
  rw [fieldOr?, h]
  cases change.lookup name with
  | none => exact hbase
  | some v => rfl

theorem requiredText?_eq {own : String} (h : Over change base fields name)
    (hbase : requiredText? base name = some own) :
    requiredText? fields name = fieldOr? Json.text? change name own := by
  rw [requiredText?] at hbase ⊢
  rw [fieldOr?, h]
  cases change.lookup name with
  | none => exact hbase
  | some v => rfl

theorem optionalField_eq {own : Option α} (h : Over change base fields name)
    (hbase : optionalField read base name = some own) :
    optionalField read fields name = fieldOr? (orNull read) change name own := by
  rw [optionalField_eq_fieldOr?] at hbase ⊢
  exact h.fieldOr?_eq hbase

theorem props?_eq {own : Entries PropValue} (h : Over change base fields "props")
    (hbase : props? base = some own) : props? fields = fieldOr? propsOf? change "props" own := by
  rw [props?_eq_fieldOr?] at hbase ⊢
  exact h.fieldOr?_eq hbase

theorem children_eq (h : Over change base fields "children") :
    some (Node.parts fields).children =
      fieldOr? (some ∘ Node.childList) change "children" (Node.parts base).children := by
  rw [children_parts_eq_fieldOr?]
  exact h.fieldOr?_eq children_parts_eq_fieldOr?.symm

theorem otherwise_eq {own : Option ElseBranch} (h : Over change base fields "else")
    (hbase : (Node.parts base).otherwise = some own) :
    (Node.parts fields).otherwise = fieldOr? Node.otherwise? change "else" own := by
  rw [otherwise_parts_eq_fieldOr?] at hbase ⊢
  exact h.fieldOr?_eq hbase

end Over

end

/-! ### Elements -/

namespace Element

variable {e shown : Element} {change : Entries Json}

/-- An element is shown with the fields of a change in place of its own. Where null is read, it
takes a field away. -/
structure Overlaid (change : Entries Json) (e shown : Element) : Prop where
  id : shown.id = e.id
  type : fieldOr? Json.text? change "type" e.type = some shown.type
  props : fieldOr? propsOf? change "props" e.props = some shown.props
  children : fieldOr? (some ∘ Node.childList) change "children" e.children = some shown.children
  condition : fieldOr? (orNull (some ∘ PropValue.ofJson)) change "if" e.condition =
    some shown.condition
  elseIf : fieldOr? (orNull (some ∘ PropValue.ofJson)) change "elseIf" e.elseIf = some shown.elseIf
  otherwise : fieldOr? Node.otherwise? change "else" e.otherwise = some shown.otherwise
  loop : fieldOr? (orNull Loop.ofJson?) change "for" e.loop = some shown.loop
  key : fieldOr? (orNull (some ∘ PropValue.ofJson)) change "key" e.key = some shown.key
  link : fieldOr? (orNull LinkTarget.ofJson?) change "link-to" e.link = some shown.link
  platform : shown.platform = none

/-- The fields that a change can give, each with the values that it takes. -/
def changeable : List (String × (Json → Bool)) :=
  [("type", fun v => v.text?.isSome),
    ("props", fun v => (propsOf? v).isSome),
    ("children", fun v => ((some ∘ Node.childList) v).isSome),
    ("if", fun v => (orNull (some ∘ PropValue.ofJson) v).isSome),
    ("elseIf", fun v => (orNull (some ∘ PropValue.ofJson) v).isSome),
    ("else", fun v => (Node.otherwise? v).isSome),
    ("for", fun v => (orNull Loop.ofJson? v).isSome),
    ("key", fun v => (orNull (some ∘ PropValue.ofJson) v).isSome),
    ("link-to", fun v => (orNull LinkTarget.ofJson? v).isSome)]

/-- These are all fields but those that no change can give. -/
theorem names_changeable :
    changeable.map Prod.fst = (fieldNames.erase "id").erase "platform" := rfl

/-- There is something to show exactly if everything that the change gives can be read. -/
theorem exists_overlaid_iff :
    (∃ shown, Overlaid change e shown) ↔
      ∀ field ∈ changeable, ∀ v, change.lookup field.1 = some v → field.2 v := by
  simp only [changeable, List.forall_mem_cons, List.not_mem_nil, false_implies, implies_true,
    and_true]
  rw [← exists_fieldOr?_iff e.type, ← exists_fieldOr?_iff e.props,
    ← exists_fieldOr?_iff e.children, ← exists_fieldOr?_iff e.condition,
    ← exists_fieldOr?_iff e.elseIf, ← exists_fieldOr?_iff e.otherwise,
    ← exists_fieldOr?_iff e.loop, ← exists_fieldOr?_iff e.key, ← exists_fieldOr?_iff e.link]
  constructor
  · rintro ⟨shown, h⟩
    exact ⟨⟨_, h.type⟩, ⟨_, h.props⟩, ⟨_, h.children⟩, ⟨_, h.condition⟩, ⟨_, h.elseIf⟩,
      ⟨_, h.otherwise⟩, ⟨_, h.loop⟩, ⟨_, h.key⟩, ⟨_, h.link⟩⟩
  · rintro ⟨⟨type, htype⟩, ⟨props, hprops⟩, ⟨children, hchildren⟩, ⟨condition, hcondition⟩,
      ⟨elseIf, helseIf⟩, ⟨otherwise, hotherwise⟩, ⟨loop, hloop⟩, ⟨key, hkey⟩, ⟨link, hlink⟩⟩
    exact ⟨⟨e.id, type, props, children, condition, elseIf, otherwise, loop, key, link, none⟩, rfl,
      htype, hprops, hchildren, hcondition, helseIf, hotherwise, hloop, hkey, hlink, rfl⟩

theorem overlaid_nil : Overlaid [] e { e with platform := none } :=
  ⟨rfl, rfl, rfl, rfl, rfl, rfl, rfl, rfl, rfl, rfl, rfl⟩

/-- An element is read from a record with a change over it as it is from the record alone, but for
the fields of the change. -/
theorem ofFields?_over {fields base : Entries Json}
    (hbase : ofFields? base (Node.parts base) = some e)
    (hid : fields.lookup "id" = some (.str e.id)) (hplatform : fields.lookup "platform" = none)
    (hover : ∀ name, name ≠ "id" ∧ name ≠ "platform" → Over change base fields name) :
    ofFields? fields (Node.parts fields) = some shown ↔ Overlaid change e shown := by
  obtain ⟨-, htype, hprops, hchildren, hif, helseIf, helse, hfor, hkey, hlink, -⟩ :=
    ofFields?_eq_some_iff.1 hbase
  have hid : defaultText? fields "id" = some e.id := by
    rw [defaultText?, hid]
    rfl
  have hplatform : optionalField Json.fields? fields "platform" = some none := by
    rw [optionalField, hplatform]
  rw [ofFields?_eq_some_iff, ← Option.some_inj (a := (Node.parts fields).children), hid, hplatform,
    (hover "type" (by decide)).requiredText?_eq htype,
    (hover "props" (by decide)).props?_eq hprops,
    (hover "children" (by decide)).children_eq, hchildren,
    (hover "if" (by decide)).optionalField_eq hif,
    (hover "elseIf" (by decide)).optionalField_eq helseIf,
    (hover "else" (by decide)).otherwise_eq helse,
    (hover "for" (by decide)).optionalField_eq hfor,
    (hover "key" (by decide)).optionalField_eq hkey,
    (hover "link-to" (by decide)).optionalField_eq hlink]
  constructor
  · rintro ⟨hid, htype, hprops, hchildren, hif, helseIf, helse, hfor, hkey, hlink, hplatform⟩
    exact ⟨(Option.some.inj hid).symm, htype, hprops, hchildren, hif, helseIf, helse, hfor, hkey,
      hlink, (Option.some.inj hplatform).symm⟩
  · rintro ⟨hid, htype, hprops, hchildren, hif, helseIf, helse, hfor, hkey, hlink, hplatform⟩
    exact ⟨congrArg some hid.symm, htype, hprops, hchildren, hif, helseIf, helse, hfor, hkey, hlink,
      congrArg some hplatform.symm⟩

/-- What is read of an element that has been read and changed in its written form. -/
theorem overlay?_eq_some_iff {v : Json} (h : Node.element? v = some e) :
    e.overlay? change = some shown ↔ Overlaid (Entries.ofList change) e shown := by
  have hlookup := lookup_ofList_given (e.entries Json.object) (by simp [entries])
  have hbase := Node.elementReadBack e (readInvariant_settled.forall_element v trivial h) _
    hlookup
  rw [← Node.encodeElement_eq] at hbase
  unfold overlay?
  refine ofFields?_over hbase (Entries.lookup_insert_self ..) ?_ fun name hname => ?_
  · rw [Entries.lookup_insert_of_ne (by decide), Entries.lookup_erase_self]
  · rw [Over, Entries.lookup_insert_of_ne hname.1, Entries.lookup_erase_of_ne hname.2,
      Entries.lookup_ofList]
    exact Entries.lookup_foldl_insert ..

/-- **A change for a surface is an overlay, field by field.** What is shown of an element that has
been read keeps its id, lists no changes, and has every other field from the change if the change
gives it and else from the element. It is shown exactly if everything that the change gives can be
read; and a change that gives nothing shows what is shown where there is no change. -/
theorem onSurface_overlays {v : Json} {surface : Option String} {change : Entries Json}
    (h : Node.element? v = some e) (hchange : e.change? surface = some (.obj change)) :
    (∀ shown, e.onSurface surface = .ok shown ↔ Overlaid (Entries.ofList change) e shown) ∧
    ((∃ shown, e.onSurface surface = .ok shown) ↔
      ∀ field ∈ changeable, ∀ v, (Entries.ofList change).lookup field.1 = some v → field.2 v) ∧
    (change = [] → ∀ plain, e.change? plain = none → e.onSurface surface = e.onSurface plain) := by
  have hshown (shown : Element) :
      e.onSurface surface = .ok shown ↔ Overlaid (Entries.ofList change) e shown := by
    rw [← overlay?_eq_some_iff h]
    cases hoverlay : e.overlay? change <;> simp [onSurface, hchange, hoverlay]
  refine ⟨hshown, ?_, fun hnil plain hplain => ?_⟩
  · rw [← exists_overlaid_iff (e := e)]
    exact exists_congr hshown
  · subst hnil
    rw [(hshown _).2 overlaid_nil, onSurface, hplain]

/-- A change that gives another type and target and takes the condition away. The id that it gives
does not count. -/
def asButton : Entries Json :=
  [("id", .str "x"), ("if", .null), ("link-to", .obj [("ui", .str "home")]),
    ("type", .str "button")]

/-- A link that a small screen shows as a button. -/
def homeLink : Json :=
  .obj [("id", .str "home"), ("type", .str "a"),
    ("children", .arr [.obj [("type", .str "svg"), ("id", .str "icon")], .str "Home"]),
    ("if", .obj [("$exp", .str "ready")]), ("link-to", .str "/home"),
    ("platform", .obj [("small", .obj asButton)])]

theorem onSurface_overlays_homeLink :
    ∃ e, Node.element? homeLink = some e ∧ e.change? (some "small") = some (.obj asButton) ∧
      ∃ shown, e.onSurface (some "small") = .ok shown ∧ shown.id = "home" ∧
        shown.type = "button" ∧ shown.condition = none ∧ e.condition.isSome ∧
        shown.link = some (.target "home" none) ∧ shown.children = e.children ∧
        e.children.isSome := by
  obtain ⟨e, he⟩ : ∃ e, Node.element? homeLink = some e := ⟨_, rfl⟩
  obtain ⟨hchange, hid, hcondition, hchildren⟩ :
      e.change? (some "small") = some (.obj asButton) ∧ e.id = "home" ∧ e.condition.isSome ∧
        e.children.isSome := by
    cases he
    exact ⟨rfl, rfl, rfl, rfl⟩
  obtain ⟨hshown, hexists, -⟩ := onSurface_overlays he hchange
  obtain ⟨shown, h⟩ := hexists.2 (by decide +kernel)
  have hover := (hshown shown).1 h
  have hsorted : Entries.ofList asButton = asButton := rfl
  have htype := hover.type
  have hif := hover.condition
  have hlink := hover.link
  have hsame := hover.children
  rw [hsorted] at htype hif hlink hsame
  refine ⟨e, he, hchange, shown, h, hover.id.trans hid, (Option.some.inj htype).symm,
    (Option.some.inj hif).symm, hcondition, (Option.some.inj hlink).symm,
    (Option.some.inj hsame).symm, hchildren⟩

end Element

end SchemaCanvas
