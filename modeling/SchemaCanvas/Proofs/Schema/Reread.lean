import SchemaCanvas.Proofs.Schema.Pieces
import SchemaCanvas.Proofs.Schema.Written

/-!
# Written trees are read back

Reading is lenient and so loses nothing that counts, but not every tree is the result of a reading:
a literal could have the form of a reference, a condition could be null. What has been read once is
settled, and a tree made of settled pieces is read back as it was written.

* `Piece.Settled` : a piece that is read back as it is written;
* `Node.settled_of_ofJson` : what is read is settled;
* `Node.ofJson_toJson` : a tree made of settled pieces is read back;
* `Node.ofJson_toJson_of_ofJson` : so is every tree that has been read.
-/

namespace SchemaCanvas

/-! ### Settled pieces -/

namespace PropValue

/-- A literal does not have the form of a reference. -/
def Settled (p : PropValue) : Prop := ofJson p.toJson = p

/-- A value that may be left out is not written as null. -/
def Given (p : PropValue) : Prop := p.Settled ∧ p.toJson ≠ .null

end PropValue

/-- An element whose own fields are read back. -/
structure Element.Settled (e : Element) : Prop where
  props : ∀ prop ∈ e.props, prop.2.Settled
  condition : ∀ p, e.condition = some p → p.Given
  elseIf : ∀ p, e.elseIf = some p → p.Given
  key : ∀ p, e.key = some p → p.Given
  loopKey : ∀ loop p, e.loop = some loop → loop.key = some p → p.Given

/-- A component whose own fields are read back. -/
structure Component.Settled (c : Component) : Prop where
  data : c.data ≠ some .null
  states : c.states ≠ some .null

/-- A piece that is read back as it is written. -/
def Piece.Settled : Piece → Prop
  | component c => c.Settled
  | element e => e.Settled
  | item (.other v) => Node.childItem v = .other v
  | item _ => True

namespace DataRef

theorem ofJson?_toJson (r : DataRef) : ofJson? r.toJson = some r := by
  cases r with
  | expression text => rfl
  | path p transforms =>
    cases transforms with
    | nil => rfl
    | cons name names =>
      have hnames : ((name :: names).map Json.str).mapM Json.text? = some (name :: names) :=
        Json.mapM_text?_eq_some_iff.2 rfl
      have hread : ofJson? (toJson (path p (name :: names))) =
          (transformNames? (some (.arr ((name :: names).map .str)))).map (path p) := by
        rw [ofJson?, toJson, expression?_obj, path?_obj]
        rfl
      rw [hread, transformNames?_of_arr, hnames, Option.map_some]

end DataRef

namespace PropValue

theorem settled_ofJson (v : Json) : (ofJson v).Settled := by
  rw [ofJson]
  cases h : DataRef.ofJson? v with
  | some r => rw [Settled, toJson, ofJson, r.ofJson?_toJson]
  | none => rw [Settled, toJson, ofJson, h]

theorem given_ofJson {v : Json} (h : v ≠ .null) : (ofJson v).Given := by
  refine ⟨settled_ofJson v, ?_⟩
  rw [ofJson]
  cases DataRef.ofJson? v with
  | some r => cases r <;> simp [toJson, DataRef.toJson]
  | none => exact h

end PropValue

/-! ### What is read is settled -/

theorem exists_of_optionalField {α : Type} {read : Json → Option α} {fields : Entries Json}
    {name : String} {x : α} (h : optionalField read fields name = some (some x)) :
    ∃ v, fields.lookup name = some v ∧ v ≠ .null ∧ read v = some x := by
  rw [optionalField] at h
  split at h
  · cases h
  · cases h
  · next v hnull hv =>
    obtain ⟨x', hx, heq⟩ := Option.map_eq_some_iff.1 h
    obtain rfl := Option.some.inj heq
    exact ⟨v, hv, hnull, hx⟩

theorem given_of_optionalField {fields : Entries Json} {name : String} {p : PropValue}
    (h : optionalField (some ∘ PropValue.ofJson) fields name = some (some p)) : p.Given := by
  obtain ⟨v, -, hnull, hp⟩ := exists_of_optionalField h
  obtain rfl := Option.some.inj hp
  exact PropValue.given_ofJson hnull

theorem settled_of_props? {fields : Entries Json} {props : Entries PropValue}
    (h : props? fields = some props) : ∀ prop ∈ props, prop.2.Settled := by
  rw [props?] at h
  split at h
  · cases h
    exact List.forall_mem_nil _
  · cases h
    exact List.forall_mem_map.2 fun field _ => PropValue.settled_ofJson field.2
  · cases h

/-- A child that is kept as a value is kept as the value that it is. -/
theorem Node.eq_of_childItem_eq_other {v w : Json} (h : childItem v = .other w) : v = w := by
  by_cases hobj : ∃ fields, v = .obj fields
  · obtain ⟨fields, rfl⟩ := hobj
    rw [childItem, objectItem] at h
    split at h
    · cases h
    · cases h
    · injection h
  · have hobj := not_exists.1 hobj
    rw [childItem_eq_plainItem hobj, plainItem.eq_def] at h
    split at h
    · cases h
    · cases hr : DataRef.ofJson? v with
      | some r => rw [hr] at h; cases h
      | none =>
        rw [hr] at h
        injection h

theorem readInvariant_settled : ReadInvariant (fun _ => True) Piece.Settled where
  items _ _ _ _ := trivial
  fields _ _ _ _ := trivial
  element fields parts e _ h := by
    obtain ⟨-, -, hprops, -, hcondition, helseIf, -, hloop, hkey, -⟩ :=
      Element.ofFields?_eq_some_iff.1 h
    refine ⟨settled_of_props? hprops, fun p hp => ?_, fun p hp => ?_, fun p hp => ?_,
      fun loop p hl hp => ?_⟩
    · exact given_of_optionalField (hcondition.trans (congrArg some hp))
    · exact given_of_optionalField (helseIf.trans (congrArg some hp))
    · exact given_of_optionalField (hkey.trans (congrArg some hp))
    · obtain ⟨v, -, -, hv⟩ := exists_of_optionalField (hloop.trans (congrArg some hl))
      obtain ⟨_, -, -, -, -, hkey⟩ := Loop.ofJson?_eq_some_iff.1 hv
      exact given_of_optionalField (hkey.trans (congrArg some hp))
  component fields c _ h := by
    obtain ⟨-, -, hdata, -, hstates, -⟩ := Component.ofFields?_eq_some_iff.1 h
    refine ⟨fun hnull => ?_, fun hnull => ?_⟩
    · obtain ⟨v, -, hv, heq⟩ := exists_of_optionalField (hdata.trans (congrArg some hnull))
      exact hv (Option.some.inj heq)
    · obtain ⟨v, -, hv, heq⟩ := exists_of_optionalField (hstates.trans (congrArg some hnull))
      exact hv (Option.some.inj heq)
  item v _ h := by
    cases hitem : Node.childItem v with
    | text | ref => trivial
    | node n => rw [hitem] at h; cases h
    | other w =>
      obtain rfl := Node.eq_of_childItem_eq_other hitem
      exact hitem

/-- **What is read is settled.** -/
theorem Node.settled_of_ofJson {v : Json} {n : Node} (h : ofJson v = .ok n) :
    ∀ p ∈ n.pieces, p.Settled :=
  readInvariant_settled.forall_of_ofJson trivial h

/-! ### Fields that are read back -/

/-- A field that is never written as null is read back, and so is one that is left out. -/
theorem optionalField_eq {α : Type} {read : Json → Option α} {write : α → Json}
    {fields : Entries Json} {name : String} {x? : Option α}
    (hfield : fields.lookup name = x?.map write)
    (hread : ∀ x, x? = some x → write x ≠ .null ∧ read (write x) = some x) :
    optionalField read fields name = some x? := by
  rw [optionalField, hfield]
  cases x? with
  | none => rfl
  | some x =>
    obtain ⟨hnull, hx⟩ := hread x rfl
    rw [Option.map_some]
    split
    · next heq => cases heq
    · next heq => exact absurd (Option.some.inj heq) hnull
    · next heq =>
      obtain rfl := Option.some.inj heq
      rw [hx, Option.map_some]

theorem optionalField_propValue {fields : Entries Json} {name : String} {p? : Option PropValue}
    (hfield : fields.lookup name = p?.map PropValue.toJson) (h : ∀ p, p? = some p → p.Given) :
    optionalField (some ∘ PropValue.ofJson) fields name = some p? :=
  optionalField_eq hfield fun p hp => ⟨(h p hp).2, congrArg some (h p hp).1⟩

theorem props?_eq {fields : Entries Json} {props : Entries PropValue}
    (hfield : fields.lookup "props" = propsValue props) (h : ∀ prop ∈ props, prop.2.Settled) :
    props? fields = some props := by
  rw [props?, hfield, propsValue]
  cases props with
  | nil => rfl
  | cons prop rest =>
    have hread : ∀ prop' ∈ prop :: rest, (prop'.1, PropValue.ofJson prop'.2.toJson) = prop' :=
      fun prop' hprop => Prod.ext rfl (h prop' hprop)
    simp only [List.isEmpty_cons, Bool.false_eq_true, if_false, List.map_map, Option.some.injEq]
    exact (List.map_congr_left hread).trans (List.map_id' _)

theorem LoopSource.ofJson?_toJson (s : LoopSource) : ofJson? s.toJson = some s := by
  cases s with
  | ref r => rw [toJson, ofJson?, r.ofJson?_toJson]; rfl
  | path text => rfl

theorem Loop.ofJson?_encode {l : Loop} (h : ∀ p, l.key = some p → p.Given) :
    ofJson? (l.encode Json.object) = some l := by
  have hlookup := lookup_ofList_given l.entries (by simp [entries])
  rw [encode_eq, Json.object]
  generalize SchemaCanvas.Entries.ofList (given l.entries) = fields at hlookup ⊢
  simp only [entries, List.forall_mem_cons] at hlookup
  obtain ⟨hsource, hitem, hindex, hkey, -⟩ := hlookup
  refine ofJson?_eq_some_iff.2 ⟨fields, rfl, ?_, ?_, ?_, optionalField_propValue hkey h⟩
  · rw [hsource]
    exact l.source.ofJson?_toJson
  · rw [requiredText?, hitem]
    rfl
  · exact optionalField_eq hindex fun _ _ => ⟨by simp, rfl⟩

theorem LinkTarget.ofJson?_encode (t : LinkTarget) : ofJson? (t.encode Json.object) = some t := by
  cases t with
  | ref r => rw [encode, ofJson?, r.ofJson?_toJson]; rfl
  | path text => rfl
  | target ui params =>
    have hlookup := lookup_ofList_given (entries ui params) (by simp [entries])
    have hnone : DataRef.ofJson? (Json.object (given (entries ui params))) = none :=
      DataRef.ofJson?_object_given (by simp [entries]) (by simp [entries])
    rw [encode_target, ofJson?, hnone, Json.object]
    generalize SchemaCanvas.Entries.ofList (given (entries ui params)) = fields at hlookup ⊢
    simp only [entries, List.forall_mem_cons] at hlookup
    obtain ⟨hui, hparams, -⟩ := hlookup
    have hparams : optionalField Json.fields? fields "params" = some params :=
      optionalField_eq hparams fun _ _ => ⟨by simp, rfl⟩
    have htarget : target? (.obj fields) = some (target ui params) := by
      simp [target?, Json.fields?, requiredText?, hui, hparams, Json.text?]
    rw [htarget]
    rfl

theorem LinkTarget.encode_ne_null (t : LinkTarget) : t.encode Json.object ≠ .null := by
  intro hnull
  have hread := t.ofJson?_encode
  rw [hnull] at hread
  cases hread

theorem Component.ofFields?_eq {c : Component} {fields : Entries Json}
    (hfields : ∀ entry ∈ c.entries, fields.lookup entry.1 = entry.2) (h : c.Settled) :
    ofFields? fields = some c := by
  simp only [entries, List.forall_mem_cons] at hfields
  obtain ⟨hid, hname, hdata, hprops, hstates, hmethods, heffects, -⟩ := hfields
  refine ofFields?_eq_some_iff.2 ⟨?_, ?_, ?_, ?_, ?_, ?_, ?_⟩
  · rw [defaultText?, hid]
    rfl
  · exact optionalField_eq hname fun _ _ => ⟨by simp, rfl⟩
  · exact optionalField_eq (hdata.trans (Option.map_id' ..).symm) fun v hv =>
      ⟨fun hnull => h.data (hnull ▸ hv), rfl⟩
  · exact optionalField_eq hprops fun _ _ => ⟨by simp, rfl⟩
  · exact optionalField_eq (hstates.trans (Option.map_id' ..).symm) fun v hv =>
      ⟨fun hnull => h.states (hnull ▸ hv), rfl⟩
  · exact optionalField_eq hmethods fun _ _ => ⟨by simp, rfl⟩
  · exact optionalField_eq heffects fun _ _ => ⟨by simp, rfl⟩

theorem Element.ofFields?_eq {e : Element} {fields : Entries Json}
    (hfields : ∀ entry ∈ e.entries Json.object, fields.lookup entry.1 = entry.2) (h : e.Settled)
    (hitems : ∀ items, e.children = some items →
      Node.childItems (Node.encodeItems Json.object items) = items)
    (hbranch : ∀ b, e.otherwise = some b →
      Node.otherwise? (Node.encodeBranch Json.object b) = some (some b)) :
    ofFields? fields (Node.parts fields) = some e := by
  simp only [entries, List.forall_mem_cons] at hfields
  obtain ⟨hid, htype, hprops, hchildren, hif, helseIf, helse, hfor, hkey, hlink, hplatform, -⟩ :=
    hfields
  rw [Node.parts_eq]
  refine ofFields?_eq_some_iff.2 ⟨?_, ?_, props?_eq hprops h.props, ?_,
    optionalField_propValue hif h.condition, optionalField_propValue helseIf h.elseIf, ?_, ?_,
    optionalField_propValue hkey h.key, ?_, ?_⟩
  · rw [defaultText?, hid]
    rfl
  · rw [requiredText?, htype]
    rfl
  · change (fields.lookup "children").bind Node.childList = _
    rw [hchildren]
    cases hc : e.children with
    | none => rfl
    | some items => exact congrArg some (hitems items hc)
  · change ((fields.lookup "else").map Node.otherwise?).getD _ = _
    rw [helse]
    cases hb : e.otherwise with
    | none => rfl
    | some b => exact hbranch b hb
  · refine optionalField_eq hfor fun l hl => ⟨?_, Loop.ofJson?_encode fun p => h.loopKey l p hl⟩
    simp [Loop.encode_eq, Json.object]
  · exact optionalField_eq hlink fun t _ => ⟨t.encode_ne_null, t.ofJson?_encode⟩
  · exact optionalField_eq hplatform fun _ _ => ⟨by simp, rfl⟩

namespace Node

/-- A node is written as an object that is no reference, and read back from its fields. -/
def ReadBack (n : Node) : Prop :=
  ∃ fields, n.toJson = .obj fields ∧ DataRef.ofJson? (.obj fields) = none ∧
    ofFields? fields (parts fields) = some n

/-- An element is read back from every object that holds its fields. -/
def ElementReadBack (e : Element) : Prop :=
  ∀ fields, (∀ entry ∈ e.entries Json.object, fields.lookup entry.1 = entry.2) →
    Element.ofFields? fields (parts fields) = some e

theorem readBack_element {e : Element} (h : ElementReadBack e) : ReadBack ⟨none, e⟩ := by
  let written := entries Json.object ⟨none, e⟩
  have hlookup := lookup_ofList_given written
    (by simp [written, entries, Element.entries])
  obtain ⟨hkind, hlookup⟩ := List.forall_mem_cons.1 hlookup
  refine ⟨Entries.ofList (given written), encode_eq _ _, ?_, ?_⟩
  · exact DataRef.ofJson?_object_given (by simp [written, entries, Element.entries])
      (by simp [written, entries, Element.entries])
  · rw [ofFields?_element (by rw [kindOf, hkind]), h _ hlookup]
    rfl

theorem readBack_component {c : Component} {e : Element} (hc : c.Settled) (h : ElementReadBack e) :
    ReadBack ⟨some c, e⟩ := by
  let written := entries Json.object ⟨some c, e⟩
  have hlookup := lookup_ofList_given written
    (by simp [written, entries, Component.entries])
  obtain ⟨hkind, hlookup⟩ := List.forall_mem_cons.1 hlookup
  obtain ⟨hlookup, hrender⟩ := List.forall_mem_append.1 hlookup
  refine ⟨Entries.ofList (given written), encode_eq _ _, ?_, ?_⟩
  · exact DataRef.ofJson?_object_given (by simp [written, entries, Component.entries])
      (by simp [written, entries, Component.entries])
  · have helement : element? (Json.object (encodeElement Json.object e)) = some e := by
      rw [encodeElement_eq]
      exact h _ (lookup_ofList_given _ (by simp [Element.entries]))
    have hrender : (parts (Entries.ofList (given written))).render = some e := by
      rw [parts_eq]
      change ((Entries.ofList (given written)).lookup "render").bind element? = _
      rw [hrender _ (List.mem_singleton_self _)]
      exact helement
    rw [ofFields?_component (by rw [kindOf, hkind]), Component.ofFields?_eq hlookup hc, hrender]
    rfl

mutual

/-- A node made of settled pieces is read back. -/
theorem readBack : ∀ n : Node, (∀ p ∈ n.pieces, p.Settled) → n.ReadBack
  | ⟨none, element⟩, h => readBack_element (elementReadBack element h)
  | ⟨some component, element⟩, h => by
    obtain ⟨hcomponent, helement⟩ := List.forall_mem_cons.1 h
    have hcomponent : component.Settled := ⟨hcomponent.data, hcomponent.states⟩
    exact readBack_component hcomponent (elementReadBack element helement)

theorem elementReadBack : ∀ e : Element, (∀ p ∈ piecesOfElement e, p.Settled) → ElementReadBack e
  | ⟨id, type, props, children, condition, elseIf, otherwise, loop, key, link, platform⟩, h => by
    obtain ⟨halone, hbranch, hitems⟩ := forall_piecesOfElement_iff.1 h
    intro fields hfields
    refine Element.ofFields?_eq hfields ?_ ?_ ?_
    · exact ⟨halone.props, halone.condition, halone.elseIf, halone.key, halone.loopKey⟩
    · cases children with
      | none => nofun
      | some items =>
        rintro _ ⟨⟩
        exact childItems_encodeItems items (hitems items rfl)
    · cases otherwise with
      | none => nofun
      | some branch =>
        rintro _ ⟨⟩
        exact otherwise?_encodeBranch branch (hbranch branch rfl)

theorem childItems_encodeItems : ∀ items : List ChildItem, (∀ p ∈ piecesOfItems items, p.Settled) →
    childItems (encodeItems Json.object items) = items
  | [], _ => rfl
  | item :: rest, h => by
    obtain ⟨hitem, hrest⟩ := List.forall_mem_append.1 h
    rw [encodeItems, childItems, childItem_encodeItem item hitem, childItems_encodeItems rest hrest]

theorem childItem_encodeItem : ∀ item : ChildItem, (∀ p ∈ piecesOfItem item, p.Settled) →
    childItem (encodeItem Json.object item) = item
  | .text _, _ => rfl
  | .ref r, _ => by
    obtain ⟨fields, heq⟩ : ∃ fields, r.toJson = .obj fields := by cases r <;> exact ⟨_, rfl⟩
    rw [encodeItem, heq, childItem, objectItem, ← heq, r.ofJson?_toJson]
  | .node n, h => by
    obtain ⟨fields, heq, hnone, hn⟩ := readBack n h
    rw [encodeItem]
    change childItem n.toJson = _
    rw [heq, childItem, objectItem, hnone, hn]
  | .other v, h => h _ (List.mem_singleton_self _)

theorem otherwise?_encodeBranch : ∀ b : ElseBranch, (∀ p ∈ piecesOfBranch b, p.Settled) →
    otherwise? (encodeBranch Json.object b) = some (some b)
  | .flag _, _ => rfl
  | .node n, h => by
    obtain ⟨fields, heq, -, hn⟩ := readBack n h
    rw [encodeBranch]
    change otherwise? n.toJson = _
    rw [heq, otherwise?, hn]
    rfl

end

/-- **A tree made of settled pieces is read back.** -/
theorem ofJson_toJson {n : Node} (h : ∀ p ∈ n.pieces, p.Settled) : ofJson n.toJson = .ok n := by
  obtain ⟨fields, heq, -, hn⟩ := readBack n h
  rw [heq]
  exact ofJson_obj_eq_ok_iff.2 hn

/-- **What has been read is read back from what is written.** Reading settles a tree in one step:
its written form gives exactly the same tree, and is written again as it is. -/
theorem ofJson_toJson_of_ofJson {v : Json} {tree : Node} (h : ofJson v = .ok tree) :
    ofJson tree.toJson = .ok tree ∧ (ofJson tree.toJson).map toJson = .ok tree.toJson := by
  have hagain : ofJson tree.toJson = .ok tree := ofJson_toJson (settled_of_ofJson h)
  refine ⟨hagain, ?_⟩
  rw [hagain]
  rfl

/-- A page in the forms that reading allows: a kind and a list of children that are left out, a
reference and a loop as lists, nulls, and entries that are no nodes. -/
def loosePage : Json :=
  let row : List (String × Json) :=
    [("type", .str "p"), ("if", .null), ("props", .obj [("title", .arr [.str "name"])]),
      ("for", .arr [.str "xs", .str "x"]), ("else", .obj [("type", .str "hr")]),
      ("link-to", .obj [("ui", .str "home"), ("params", .null)]),
      ("children", .arr [.obj [("text", .str "x")], .null])]
  .obj [("states", .null), ("render", .obj [("type", .str "main"), ("children", .obj row)])]

theorem ofJson_toJson_of_ofJson_loosePage :
    ∃ tree, ofJson loosePage = .ok tree ∧ tree.type = "main" ∧ ofJson tree.toJson = .ok tree ∧
      (ofJson tree.toJson).map toJson = .ok tree.toJson := by
  obtain ⟨tree, htree⟩ : ∃ tree, ofJson loosePage = .ok tree := ⟨_, rfl⟩
  have htype : tree.type = "main" := by
    cases htree
    rfl
  obtain ⟨hagain, hwritten⟩ := ofJson_toJson_of_ofJson htree
  exact ⟨tree, htree, htype, hagain, hwritten⟩

end Node

end SchemaCanvas
