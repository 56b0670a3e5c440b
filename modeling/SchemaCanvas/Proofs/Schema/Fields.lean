import SchemaCanvas.Schema.Load
import Mathlib.Tactic.SplitIfs

/-!
# The fields of a node

What is read of a node depends on its fields by their names alone. `Node.parts` and
`Schema.checkParts` walk over the fields, so that they can look into them; what they find is what a
lookup gives. A record is read exactly if each of its fields is.
-/

namespace SchemaCanvas

variable {fields : Entries Json}

/-! ### Lookups -/

namespace Node

/-- What the walk over the fields finds. -/
theorem parts_eq (fields : Entries Json) :
    parts fields =
      { children := (fields.lookup "children").bind childList
        otherwise := ((fields.lookup "else").map otherwise?).getD (some none)
        render := (fields.lookup "render").bind element? } := by
  induction fields with
  | nil => rfl
  | cons field rest ih =>
    obtain ⟨name, v⟩ := field
    rw [parts, ih]
    split_ifs with hchildren helse hrender
    · subst hchildren; rfl
    · subst helse; rfl
    · subst hrender; rfl
    · simp only [List.lookup_cons, beq_eq_false_iff_ne.2 (Ne.symm hchildren),
        beq_eq_false_iff_ne.2 (Ne.symm helse), beq_eq_false_iff_ne.2 (Ne.symm hrender)]

/-- Fields that are given by position are found as the fields of an object are. -/
theorem partsByPosition_eq {names : List String} (h : "render" ∉ names) (items : List Json) :
    partsByPosition names items = parts (names.zip items) := by
  induction names generalizing items with
  | nil => cases items <;> rfl
  | cons name names ih =>
    obtain ⟨hname, hnames⟩ := not_or.1 (mt List.mem_cons.2 h)
    cases items with
    | nil => rfl
    | cons v rest =>
      rw [partsByPosition, ih hnames, List.zip_cons_cons, parts, if_neg (Ne.symm hname)]

theorem element?_eq (v : Json) :
    element? v = (v.record? Element.fieldNames).bind fun fields =>
      Element.ofFields? fields (parts fields) := by
  cases v with
  | arr items =>
    rw [element?, Json.record?, partsByPosition_eq (by decide)]
    split_ifs <;> rfl
  | null | bool | num | str | obj => rfl

theorem childItems_eq_map (items : List Json) : childItems items = items.map childItem := by
  induction items with
  | nil => rfl
  | cons v rest ih => rw [childItems, ih, List.map_cons]

theorem childItem_eq_plainItem {v : Json} (h : ∀ fields, v ≠ .obj fields) :
    childItem v = plainItem v := by
  cases v with
  | obj fields => exact absurd rfl (h fields)
  | null | bool | num | str | arr => rfl

end Node

namespace Schema

theorem checkParts_eq (place : List String) (fields : Entries Json) :
    checkParts place fields =
      { children := ((fields.lookup "children").map (checkChildren (place ++ ["children"]))).getD []
        otherwise := ((fields.lookup "else").map (checkBranch (place ++ ["else"]))).getD []
        render := ((fields.lookup "render").map (checkRender (place ++ ["render"]))).getD [] } := by
  induction fields with
  | nil => rfl
  | cons field rest ih =>
    obtain ⟨name, v⟩ := field
    rw [checkParts, ih]
    split_ifs with hchildren helse hrender
    · subst hchildren; rfl
    · subst helse; rfl
    · subst hrender; rfl
    · simp only [List.lookup_cons, beq_eq_false_iff_ne.2 (Ne.symm hchildren),
        beq_eq_false_iff_ne.2 (Ne.symm helse), beq_eq_false_iff_ne.2 (Ne.symm hrender)]

end Schema

/-! ### Records -/

namespace Json

theorem fields?_eq_some_iff {v : Json} : v.fields? = some fields ↔ v = .obj fields := by
  cases v <;> simp [fields?]

theorem items?_eq_some_iff {v : Json} {items : List Json} :
    v.items? = some items ↔ v = .arr items := by
  cases v <;> simp [items?]

end Json

theorem isSome_optionalField {α : Type} {read : Json → Option α} (h : ∀ v, (read v).isSome)
    (fields : Entries Json) (name : String) : (optionalField read fields name).isSome := by
  rw [optionalField]
  split
  · rfl
  · rfl
  · next v _ _ =>
    rw [Option.isSome_map]
    exact h v

theorem Loop.ofJson?_eq_some_iff {v : Json} {l : Loop} :
    Loop.ofJson? v = some l ↔ ∃ fields, v.record? ["in", "as", "index", "key"] = some fields ∧
      (fields.lookup "in").bind LoopSource.ofJson? = some l.source ∧
      requiredText? fields "as" = some l.item ∧
      optionalField Json.text? fields "index" = some l.index ∧
      optionalField (some ∘ PropValue.ofJson) fields "key" = some l.key := by
  simp only [Loop.ofJson?, Option.bind_eq_bind, Option.bind_eq_some_iff]
  refine exists_congr fun fields => and_congr_right fun _ => ?_
  constructor
  · rintro ⟨_, hsource, _, hitem, _, hindex, _, hkey, heq⟩
    obtain rfl := Option.some.inj heq
    exact ⟨hsource, hitem, hindex, hkey⟩
  · rintro ⟨hsource, hitem, hindex, hkey⟩
    exact ⟨_, hsource, _, hitem, _, hindex, _, hkey, rfl⟩

theorem LoopSource.cases_of_ofJson? {v : Json} {s : LoopSource} (h : ofJson? v = some s) :
    (∃ r, s = ref r ∧ DataRef.ofJson? v = some r) ∨ ∃ text, s = path text ∧ v = .str text := by
  rw [ofJson?] at h
  cases hr : DataRef.ofJson? v with
  | some r =>
    rw [hr] at h
    obtain rfl := Option.some.inj h
    exact .inl ⟨r, rfl, rfl⟩
  | none =>
    rw [hr] at h
    cases v with
    | str text =>
      obtain rfl := Option.some.inj h
      exact .inr ⟨text, rfl, rfl⟩
    | null | bool | num | arr | obj => cases h

/-- What a link target is read from: a reference, an object with a target or a text. -/
theorem LinkTarget.cases_of_ofJson? {v : Json} {t : LinkTarget} (h : ofJson? v = some t) :
    (∃ r, t = ref r ∧ DataRef.ofJson? v = some r) ∨
    (∃ fields ui params, t = target ui params ∧ v = .obj fields ∧
      optionalField Json.fields? fields "params" = some params) ∨
    ∃ text, t = path text ∧ v = .str text := by
  rw [ofJson?] at h
  cases hr : DataRef.ofJson? v with
  | some r =>
    rw [hr] at h
    obtain rfl := Option.some.inj h
    exact .inl ⟨r, rfl, rfl⟩
  | none =>
    rw [hr] at h
    cases v with
    | str text =>
      obtain rfl := Option.some.inj h
      exact .inr (.inr ⟨text, rfl, rfl⟩)
    | obj fields =>
      have htarget : target? (.obj fields) = some t := by
        cases ht : target? (.obj fields) with
        | some t' => rw [ht] at h; exact h
        | none => rw [ht] at h; cases h
      simp only [target?, Json.fields?, Option.bind_eq_bind, Option.bind_some,
        Option.bind_eq_some_iff] at htarget
      obtain ⟨ui, -, params, hparams, heq⟩ := htarget
      obtain rfl := Option.some.inj heq
      exact .inr (.inl ⟨fields, ui, params, rfl, rfl, hparams⟩)
    | null | bool | num | arr => cases h

theorem Element.ofFields?_eq_some_iff {parts : Parts} {e : Element} :
    Element.ofFields? fields parts = some e ↔
      defaultText? fields "id" = some e.id ∧ requiredText? fields "type" = some e.type ∧
      props? fields = some e.props ∧ parts.children = e.children ∧
      optionalField (some ∘ PropValue.ofJson) fields "if" = some e.condition ∧
      optionalField (some ∘ PropValue.ofJson) fields "elseIf" = some e.elseIf ∧
      parts.otherwise = some e.otherwise ∧
      optionalField Loop.ofJson? fields "for" = some e.loop ∧
      optionalField (some ∘ PropValue.ofJson) fields "key" = some e.key ∧
      optionalField LinkTarget.ofJson? fields "link-to" = some e.link ∧
      optionalField Json.fields? fields "platform" = some e.platform := by
  simp only [Element.ofFields?, Option.bind_eq_bind, Option.bind_eq_some_iff]
  constructor
  · rintro ⟨_, hid, _, htype, _, hprops, _, hif, _, helseIf, _, helse, _, hfor, _, hkey, _, hlink,
      _, hplatform, heq⟩
    obtain rfl := Option.some.inj heq
    exact ⟨hid, htype, hprops, rfl, hif, helseIf, helse, hfor, hkey, hlink, hplatform⟩
  · rintro ⟨hid, htype, hprops, hchildren, hif, helseIf, helse, hfor, hkey, hlink, hplatform⟩
    refine ⟨_, hid, _, htype, _, hprops, _, hif, _, helseIf, _, helse, _, hfor, _, hkey, _, hlink,
      _, hplatform, ?_⟩
    rw [hchildren]
    cases e
    rfl

theorem Component.ofFields?_eq_some_iff {c : Component} :
    Component.ofFields? fields = some c ↔
      defaultText? fields "id" = some c.id ∧ optionalField Json.text? fields "name" = some c.name ∧
      optionalField some fields "data" = some c.data ∧
      optionalField Json.fields? fields "props" = some c.props ∧
      optionalField some fields "states" = some c.states ∧
      optionalField Json.fields? fields "methods" = some c.methods ∧
      optionalField Json.items? fields "effects" = some c.effects := by
  simp only [Component.ofFields?, Option.bind_eq_bind, Option.bind_eq_some_iff]
  constructor
  · rintro ⟨_, hid, _, hname, _, hdata, _, hprops, _, hstates, _, hmethods, _, heffects, heq⟩
    obtain rfl := Option.some.inj heq
    exact ⟨hid, hname, hdata, hprops, hstates, hmethods, heffects⟩
  · rintro ⟨hid, hname, hdata, hprops, hstates, hmethods, heffects⟩
    exact ⟨_, hid, _, hname, _, hdata, _, hprops, _, hstates, _, hmethods, _, heffects, rfl⟩

/-! ### Nodes -/

namespace Node

theorem ofFields?_component (hkind : kindOf fields = "component") (parts : Parts) :
    ofFields? fields parts = (Component.ofFields? fields).bind fun component =>
      parts.render.map fun element => ⟨some component, element⟩ := by
  rw [ofFields?, ofFields, hkind]
  cases Component.ofFields? fields <;> cases parts.render <;> rfl

theorem ofFields?_element (hkind : kindOf fields = "element") (parts : Parts) :
    ofFields? fields parts = (Element.ofFields? fields parts).map fun element =>
      ⟨none, element⟩ := by
  rw [ofFields?, ofFields, hkind]
  cases Element.ofFields? fields parts <;> rfl

theorem ofJson_obj_eq_ok_iff {n : Node} :
    ofJson (.obj fields) = .ok n ↔ ofFields? fields (parts fields) = some n := by
  rw [ofJson, ofFields?]
  cases ofFields fields (parts fields) <;> simp [Except.toOption]

/-- What a node is read from: the fields of a component and its element, or those of an element. -/
theorem cases_of_ofFields? {parts : Parts} {n : Node} (h : ofFields? fields parts = some n) :
    (kindOf fields = "component" ∧ ∃ component element, n = ⟨some component, element⟩ ∧
      Component.ofFields? fields = some component ∧ parts.render = some element) ∨
    (kindOf fields = "element" ∧ ∃ element, n = ⟨none, element⟩ ∧
      Element.ofFields? fields parts = some element) := by
  by_cases hcomponent : kindOf fields = "component"
  · rw [ofFields?_component hcomponent] at h
    obtain ⟨component, hc, h⟩ := Option.bind_eq_some_iff.1 h
    obtain ⟨element, he, rfl⟩ := Option.map_eq_some_iff.1 h
    exact .inl ⟨hcomponent, component, element, rfl, hc, he⟩
  · by_cases helement : kindOf fields = "element"
    · rw [ofFields?_element helement] at h
      obtain ⟨element, he, rfl⟩ := Option.map_eq_some_iff.1 h
      exact .inr ⟨helement, element, rfl, he⟩
    · rw [ofFields?, ofFields] at h
      split at h
      · next heq => exact absurd heq hcomponent
      · next heq => exact absurd heq helement
      · cases h

end Node

end SchemaCanvas
