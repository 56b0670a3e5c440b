import SchemaCanvas.Proofs.Schema.Fields
import SchemaCanvas.Proofs.Schema.Literals
import SchemaCanvas.Proofs.Schema.Pieces
import Mathlib.Logic.Relation

/-!
# Valid schemas and loaded trees

The diagnostics of a schema and the reading of a tree describe the same format twice. Here both are
compared, node by node: what a node without diagnostics needs besides to be read, and to have all
its children read, is that the fields which the diagnostics pass over fit.

* `Schema.nodesBelow` lists the nodes right below a node of a schema;
* `Schema.uncheckedFit` says that the fields fit at which the diagnostics do not look;
* `Schema.readWhole_iff` : a node without diagnostics is read whole if and only if these fields fit
  and every node right below it is read whole;
* `Schema.loaded_iff` : a schema without diagnostics is loaded without loss if and only if these
  fields fit in all of its nodes.
-/

namespace SchemaCanvas

namespace Schema

variable {place : List String} {fields : Entries Json}

/-! ### The nodes of a schema -/

/-- The fields of the element of a node. -/
def elementFields (fields : Entries Json) : Entries Json :=
  if Node.kindOf fields = "component" then ((fields.lookup "render").bind Json.fields?).getD []
  else fields

/-- The entries of the list of children of an element. -/
def childValues (fields : Entries Json) : List Json :=
  match fields.lookup "children" with
  | none | some .null => []
  | some (.arr items) => items
  | some v => [v]

/-- The fields of a node among children. -/
def nodeFields? : Json → Option (Entries Json)
  | .obj fields => if isReference fields then none else some fields
  | _ => none

/-- The nodes among the children of an element. -/
def childNodes (fields : Entries Json) : List (Entries Json) :=
  (childValues fields).filterMap nodeFields?

/-- The node in the `else` branch of an element, if there is one. -/
def elseNodes (fields : Entries Json) : List (Entries Json) :=
  ((fields.lookup "else").bind Json.fields?).toList

/-- The nodes right below a node. -/
def nodesBelow (fields : Entries Json) : List (Entries Json) :=
  childNodes (elementFields fields) ++ elseNodes (elementFields fields)

/-- A node is in the tree of another one. -/
def InTree (below fields : Entries Json) : Prop :=
  Relation.ReflTransGen (fun fields below => below ∈ nodesBelow fields) fields below

/-! ### Fields that are not checked -/

/-- The fields of an element fit at which the diagnostics do not look. -/
def elementFits (fields : Entries Json) : Bool :=
  (defaultText? fields "id").isSome &&
    (optionalField LinkTarget.ofJson? fields "link-to").isSome &&
    (optionalField Json.fields? fields "platform").isSome &&
    ((fields.lookup "for").bind Json.fields?).all fun loop =>
      (optionalField Json.text? loop "index").isSome

/-- The fields of a component fit at which the diagnostics do not look. -/
def componentFits (fields : Entries Json) : Bool :=
  (defaultText? fields "id").isSome && (optionalField Json.text? fields "name").isSome &&
    (optionalField Json.fields? fields "methods").isSome &&
    (optionalField Json.items? fields "effects").isSome

/-- The fields of a node fit at which the diagnostics do not look. -/
def uncheckedFit (fields : Entries Json) : Bool :=
  (Node.kindOf fields != "component" || componentFits fields) && elementFits (elementFields fields)

/-! ### Reading whole -/

/-- No object among the children is kept as a value. -/
def NoneKept (pieces : List Piece) : Prop := ∀ fields, .item (.other (.obj fields)) ∉ pieces

/-- A node can be read, and all objects among the children in its tree. -/
def ReadWhole (fields : Entries Json) : Prop :=
  ∃ n, Node.ofFields? fields (Node.parts fields) = some n ∧ NoneKept n.pieces

/-- An element can be read, and all objects among the children in its tree. -/
def ElementReadWhole (fields : Entries Json) : Prop :=
  ∃ e, Element.ofFields? fields (Node.parts fields) = some e ∧ NoneKept (Node.piecesOfElement e)

theorem noneKept_nil : NoneKept [] := fun _ => List.not_mem_nil

theorem noneKept_append {as bs : List Piece} : NoneKept (as ++ bs) ↔ NoneKept as ∧ NoneKept bs := by
  simp only [NoneKept, List.mem_append, not_or, forall_and]

theorem noneKept_cons {p : Piece} {ps : List Piece}
    (hp : ∀ fields, p ≠ .item (.other (.obj fields))) :
    NoneKept (p :: ps) ↔ NoneKept ps := by
  simp only [NoneKept, List.mem_cons, not_or, forall_and, and_iff_right_iff_imp]
  exact fun _ fields h => hp fields h.symm

theorem noneKept_item_iff {item : ChildItem} :
    NoneKept [.item item] ↔ ∀ fields, item ≠ .other (.obj fields) := by
  simp [NoneKept, eq_comm]

theorem noneKept_piecesOfElement {e : Element} :
    NoneKept (Node.piecesOfElement e) ↔
      NoneKept ((e.otherwise.map Node.piecesOfBranch).getD []) ∧
        NoneKept ((e.children.map Node.piecesOfItems).getD []) := by
  obtain ⟨_, _, _, children, _, _, otherwise, _, _, _, _⟩ := e
  cases otherwise <;> cases children <;>
    · refine (noneKept_cons ?_).trans noneKept_append
      exact fun _ => nofun

theorem noneKept_piecesOfItems {items : List ChildItem} :
    NoneKept (Node.piecesOfItems items) ↔
      ∀ item ∈ items, NoneKept (Node.piecesOfItem item) := by
  induction items with
  | nil => simp [Node.piecesOfItems, noneKept_nil]
  | cons item rest ih => rw [Node.piecesOfItems, noneKept_append, ih, List.forall_mem_cons]

/-! ### References and loops -/

theorem exists_texts_of_all {items : List Json} (h : items.all fun v => v.text?.isSome) :
    ∃ names : List String, items = names.map .str := by
  induction items with
  | nil => exact ⟨[], rfl⟩
  | cons v rest ih =>
    rw [List.all_cons, Bool.and_eq_true] at h
    obtain ⟨name, hname⟩ := Option.isSome_iff_exists.1 h.1
    obtain ⟨names, rfl⟩ := ih h.2
    exact ⟨name :: names, by rw [Json.text?_eq_some_iff.1 hname, List.map_cons]⟩

theorem isSome_transformNames?_of_faults {names : Option Json} (h : transformFaults names = []) :
    (DataRef.transformNames? names).isSome := by
  cases names with
  | none => rfl
  | some names =>
    rw [DataRef.isSome_transformNames?_iff]
    cases names with
    | str name => exact .inr (.inl ⟨name, rfl⟩)
    | arr items =>
      rw [transformFaults, ite_eq_left_iff] at h
      have hall : items.all fun v => v.text?.isSome :=
        Classical.not_not.1 fun hnot => nomatch h hnot
      obtain ⟨names, rfl⟩ := exists_texts_of_all hall
      exact .inr (.inr ⟨names, rfl⟩)
    | null | bool | num | obj => cases h

/-- An object without faults is a reference if it is meant as one, and only then. -/
theorem isSome_ofJson?_iff (h : isReference fields → valueFaults (.obj fields) = []) :
    (DataRef.ofJson? (.obj fields)).isSome ↔ isReference fields := by
  rw [DataRef.isSome_ofJson?_obj_iff]
  constructor
  · intro hsome
    rw [isReference, Bool.or_eq_true]
    exact hsome.imp Option.isSome_of_isSome_bind fun hbind =>
      Option.isSome_of_isSome_bind hbind.1
  · intro hreference
    have hfaults := h hreference
    rw [isReference, Bool.or_eq_true] at hreference
    rw [valueFaults] at hfaults
    cases hexp : fields.lookup "$exp" with
    | some expression =>
      rw [hexp] at hfaults
      cases expression with
      | str text => exact .inl rfl
      | null | bool | num | arr | obj => cases hfaults
    | none =>
      rw [hexp] at hfaults hreference
      obtain ⟨path, hpath⟩ := Option.isSome_iff_exists.1 (hreference.resolve_left nofun)
      rw [hpath] at hfaults ⊢
      obtain ⟨htext, htransforms⟩ := List.append_eq_nil_iff.1 hfaults
      rw [ite_eq_left_iff] at htext
      have htext : path.text?.isSome := Classical.not_not.1 fun hnot => nomatch htext hnot
      exact .inr ⟨htext, isSome_transformNames?_of_faults htransforms⟩

theorem checkType_eq_nil {type : Option Json} (h : checkType place type = []) :
    (type.bind Json.text?).isSome := by
  cases type with
  | none => cases h
  | some type =>
    cases type with
    | str t => rfl
    | null | bool | num | arr | obj => cases h

theorem checkSource_eq_nil {source : Option Json} (h : checkSource place source = []) :
    (source.bind LoopSource.ofJson?).isSome := by
  cases source with
  | none => cases h
  | some source =>
    cases source with
    | str path => rfl
    | obj fields =>
      rw [checkSource] at h
      split at h
      · next hreference =>
        have hfaults : valueFaults (.obj fields) = [] := List.map_eq_nil_iff.1 h
        have hsome := (isSome_ofJson?_iff fun _ => hfaults).2 hreference
        obtain ⟨r, hr⟩ := Option.isSome_iff_exists.1 hsome
        rw [Option.bind_some, LoopSource.ofJson?, hr]
        rfl
      · cases h
    | null | bool | num | arr => cases h

/-- A loop without diagnostics is read if the name of its position fits. -/
theorem isSome_loop_iff {v : Json} (h : checkLoop place v = []) :
    ∃ loop, v = .obj loop ∧
      ((Loop.ofJson? v).isSome ↔ (optionalField Json.text? loop "index").isSome) := by
  cases v with
  | obj loop =>
    obtain ⟨hsource, hitem⟩ := List.append_eq_nil_iff.1 h
    have hitem : (requiredText? loop "as").isSome := by
      rw [requiredText?]
      cases hlookup : loop.lookup "as" with
      | none => rw [hlookup] at hitem; cases hitem
      | some v =>
        rw [hlookup] at hitem
        cases v with
        | str item => rfl
        | null | bool | num | arr | obj => cases hitem
    have hkey : (optionalField (some ∘ PropValue.ofJson) loop "key").isSome :=
      isSome_optionalField (fun _ => rfl) loop "key"
    obtain ⟨source, hsource⟩ := Option.isSome_iff_exists.1 (checkSource_eq_nil hsource)
    obtain ⟨item, hitem⟩ := Option.isSome_iff_exists.1 hitem
    obtain ⟨key, hkey⟩ := Option.isSome_iff_exists.1 hkey
    refine ⟨loop, rfl, ?_⟩
    rw [Option.isSome_iff_exists, Option.isSome_iff_exists]
    constructor
    · rintro ⟨l, hl⟩
      obtain ⟨fields, hfields, -, -, hindex, -⟩ := Loop.ofJson?_eq_some_iff.1 hl
      obtain rfl := Option.some.inj hfields
      exact ⟨l.index, hindex⟩
    · rintro ⟨index, hindex⟩
      exact ⟨{ source, item, index, key },
        Loop.ofJson?_eq_some_iff.2 ⟨loop, rfl, hsource, hitem, hindex, hkey⟩⟩
  | null | bool | num | str | arr => cases h

/-! ### Elements -/

theorem checkProps_eq_nil (h : checkProps place (fields.lookup "props") = []) :
    (props? fields).isSome := by
  rw [props?]
  cases hlookup : fields.lookup "props" with
  | none => rfl
  | some v =>
    rw [hlookup] at h
    cases v with
    | obj props => rfl
    | null | bool | num | str | arr => cases h

theorem isSome_optionalField_for_iff
    (h : (match fields.lookup "for" with
      | some v => checkLoop (place ++ ["for"]) v
      | none => []) = []) :
    (optionalField Loop.ofJson? fields "for").isSome ↔
      ((fields.lookup "for").bind Json.fields?).all fun loop =>
        (optionalField Json.text? loop "index").isSome := by
  rw [optionalField]
  cases hlookup : fields.lookup "for" with
  | none => exact ⟨fun _ => rfl, fun _ => rfl⟩
  | some v =>
    rw [hlookup] at h
    obtain ⟨loop, rfl, hiff⟩ := isSome_loop_iff h
    exact Option.isSome_map.symm ▸ hiff

/-- An element without diagnostics is read if the other fields fit and its `else` branch is read. -/
theorem isSome_ofFields?_iff (h : checkElement place fields (checkParts place fields) = [])
    (parts : Parts) :
    (Element.ofFields? fields parts).isSome ↔ elementFits fields ∧ parts.otherwise.isSome := by
  simp only [checkElement, List.append_eq_nil_iff] at h
  obtain ⟨⟨⟨⟨⟨htype, hprops⟩, -⟩, -⟩, hloop⟩, -⟩ := h
  have hloop := isSome_optionalField_for_iff hloop
  obtain ⟨type, htype⟩ := Option.isSome_iff_exists.1 (checkType_eq_nil htype)
  obtain ⟨props, hprops⟩ := Option.isSome_iff_exists.1 (checkProps_eq_nil hprops)
  have hvalue (name : String) : ∃ p, optionalField (some ∘ PropValue.ofJson) fields name = some p :=
    Option.isSome_iff_exists.1 (isSome_optionalField (fun _ => rfl) fields name)
  obtain ⟨condition, hcondition⟩ := hvalue "if"
  obtain ⟨elseIf, helseIf⟩ := hvalue "elseIf"
  obtain ⟨key, hkey⟩ := hvalue "key"
  simp only [elementFits, Bool.and_eq_true, ← hloop, Option.isSome_iff_exists]
  constructor
  · rintro ⟨e, he⟩
    obtain ⟨hid, -, -, -, -, -, helse, hfor, -, hlink, hplatform⟩ :=
      Element.ofFields?_eq_some_iff.1 he
    exact ⟨⟨⟨⟨⟨_, hid⟩, _, hlink⟩, _, hplatform⟩, _, hfor⟩, _, helse⟩
  · rintro ⟨⟨⟨⟨⟨id, hid⟩, link, hlink⟩, platform, hplatform⟩, loop, hfor⟩, otherwise, helse⟩
    exact ⟨{ id, type, props, children := parts.children, condition, elseIf, otherwise, loop, key,
             link, platform },
      Element.ofFields?_eq_some_iff.2 ⟨hid, htype, hprops, rfl, hcondition, helseIf, helse, hfor,
        hkey, hlink, hplatform⟩⟩

/-! ### Children and branches -/

/-- A node has no diagnostics. -/
def Valid (fields : Entries Json) : Prop :=
  ∃ place, checkFields place fields (checkParts place fields) = []

/-- An entry of a list of children has no diagnostics. -/
def ItemValid (v : Json) : Prop := ∃ place, checkItem place v = []

theorem itemValid_obj_iff : ItemValid (.obj fields) ↔
    if isReference fields then valueFaults (.obj fields) = [] else Valid fields := by
  simp only [ItemValid, checkItem]
  split
  · refine ⟨?_, fun h => ⟨[], List.map_eq_nil_iff.2 h⟩⟩
    rintro ⟨_, h⟩
    exact List.map_eq_nil_iff.1 h
  · rfl

theorem itemValid_of_checkItems {items : List Json} {i : Nat} (h : checkItems place i items = []) :
    ∀ v ∈ items, ItemValid v := by
  induction items generalizing i with
  | nil => exact List.forall_mem_nil _
  | cons v rest ih =>
    obtain ⟨hv, hrest⟩ := List.append_eq_nil_iff.1 h
    exact List.forall_mem_cons.2 ⟨⟨_, hv⟩, ih hrest⟩

theorem itemValid_of_mem_childValues
    (h : checkElement place fields (checkParts place fields) = []) :
    ∀ v ∈ childValues fields, ItemValid v := by
  have hchildren : (checkParts place fields).children = [] := (List.append_eq_nil_iff.1 h).2
  rw [checkParts_eq] at hchildren
  rw [childValues]
  cases hlookup : fields.lookup "children" with
  | none => exact List.forall_mem_nil _
  | some v =>
    rw [hlookup] at hchildren
    cases v with
    | null => exact List.forall_mem_nil _
    | arr items => exact itemValid_of_checkItems hchildren
    | obj | bool | num | str =>
      exact List.forall_mem_singleton.2 ⟨place ++ ["children"], hchildren⟩

theorem pieces_children (fields : Entries Json) :
    ((Node.parts fields).children.map Node.piecesOfItems).getD [] =
      Node.piecesOfItems ((childValues fields).map Node.childItem) := by
  rw [Node.parts_eq, childValues]
  cases fields.lookup "children" with
  | none => rfl
  | some v =>
    cases v with
    | arr items => exact congrArg Node.piecesOfItems (Node.childItems_eq_map items)
    | null | bool | num | str | obj => rfl

theorem noneKept_plainItem {v : Json} (h : ∀ fields, v ≠ .obj fields) :
    NoneKept (Node.piecesOfItem (Node.plainItem v)) := by
  cases v with
  | obj fields => exact absurd rfl (h fields)
  | arr items =>
    change NoneKept (Node.piecesOfItem (((DataRef.ofJson? _).map ChildItem.ref).getD (.other _)))
    cases DataRef.ofJson? (.arr items) <;> exact noneKept_item_iff.2 fun _ => nofun
  | null | bool | num | str => exact noneKept_item_iff.2 fun _ => nofun

/-- An object among children is read whole if it is no node, or a node that is read whole. -/
theorem noneKept_objectItem_iff (h : ItemValid (.obj fields)) :
    NoneKept (Node.piecesOfItem (Node.objectItem fields (Node.parts fields))) ↔
      (isReference fields = false → ReadWhole fields) := by
  rw [itemValid_obj_iff] at h
  rw [Node.objectItem, ReadWhole]
  split at h
  · next hreference =>
    have hsome := (isSome_ofJson?_iff fun _ => h).2 hreference
    obtain ⟨r, hr⟩ := Option.isSome_iff_exists.1 hsome
    rw [hr]
    refine iff_of_true (noneKept_item_iff.2 (by simp)) fun hnot => ?_
    rw [hreference] at hnot
    cases hnot
  · next hreference =>
    have hnone := mt (isSome_ofJson?_iff fun h => absurd h hreference).1 hreference
    rw [Option.not_isSome_iff_eq_none.1 hnone, forall_prop_of_true (Bool.of_not_eq_true hreference)]
    cases Node.ofFields? fields (Node.parts fields) with
    | some n => simp [Node.piecesOfItem]
    | none => simp [Node.piecesOfItem, NoneKept]

theorem noneKept_childItem_iff {v : Json} (h : ItemValid v) :
    NoneKept (Node.piecesOfItem (Node.childItem v)) ↔ ∀ below, nodeFields? v = some below →
      ReadWhole below := by
  by_cases hobj : ∃ fields, v = .obj fields
  · obtain ⟨fields, rfl⟩ := hobj
    refine (noneKept_objectItem_iff h).trans ?_
    rw [nodeFields?]
    cases isReference fields <;> simp
  · have hobj := not_exists.1 hobj
    rw [Node.childItem_eq_plainItem hobj]
    refine iff_of_true (noneKept_plainItem hobj) fun below hbelow => ?_
    cases v with
    | obj fields => exact absurd rfl (hobj fields)
    | null | bool | num | str | arr => cases hbelow

theorem noneKept_children_iff (h : ∀ v ∈ childValues fields, ItemValid v) :
    NoneKept (((Node.parts fields).children.map Node.piecesOfItems).getD []) ↔
      ∀ below ∈ childNodes fields, ReadWhole below := by
  rw [pieces_children, noneKept_piecesOfItems, List.forall_mem_map, childNodes]
  simp only [List.mem_filterMap, forall_exists_index, and_imp]
  constructor
  · intro hall below v hv
    exact (noneKept_childItem_iff (h v hv)).1 (hall v hv) below
  · intro hall v hv
    exact (noneKept_childItem_iff (h v hv)).2 fun below => hall below v hv

theorem exists_otherwise_iff (h : checkElement place fields (checkParts place fields) = []) :
    (∃ branch, (Node.parts fields).otherwise = some branch ∧
      NoneKept ((branch.map Node.piecesOfBranch).getD [])) ↔
      ∀ below ∈ elseNodes fields, ReadWhole below := by
  simp only [checkElement, List.append_eq_nil_iff] at h
  obtain ⟨⟨⟨-, hotherwise⟩, -⟩, -⟩ := h
  rw [checkParts_eq] at hotherwise
  rw [Node.parts_eq, elseNodes]
  cases hlookup : fields.lookup "else" with
  | none => exact iff_of_true ⟨none, rfl, noneKept_nil⟩ (List.forall_mem_nil _)
  | some v =>
    rw [hlookup] at hotherwise
    cases v with
    | bool b => exact iff_of_true ⟨some (.flag b), rfl, noneKept_nil⟩ (List.forall_mem_nil _)
    | obj below =>
      simp only [Option.bind_some, Json.fields?, Option.toList_some, List.forall_mem_singleton]
      change (∃ branch, (Node.ofFields? below (Node.parts below)).map
        (fun n => some (ElseBranch.node n)) = some branch ∧ _) ↔ _
      simp only [Option.map_eq_some_iff]
      constructor
      · rintro ⟨_, ⟨n, hn, rfl⟩, hkept⟩
        exact ⟨n, hn, hkept⟩
      · rintro ⟨n, hn, hkept⟩
        exact ⟨_, ⟨n, hn, rfl⟩, hkept⟩
    | null | num | str | arr => cases hotherwise

/-- An element without diagnostics is read whole if the other fields fit and the nodes right below
it are read whole. -/
theorem elementReadWhole_iff (h : checkElement place fields (checkParts place fields) = []) :
    ElementReadWhole fields ↔
      elementFits fields ∧ ∀ below ∈ childNodes fields ++ elseNodes fields, ReadWhole below := by
  rw [List.forall_mem_append, ← noneKept_children_iff (itemValid_of_mem_childValues h),
    ← exists_otherwise_iff h]
  constructor
  · rintro ⟨e, he, hkept⟩
    obtain ⟨hfits, -⟩ := (isSome_ofFields?_iff h _).1 (Option.isSome_iff_exists.2 ⟨e, he⟩)
    obtain ⟨-, -, -, hchildren, -, -, helse, -⟩ := Element.ofFields?_eq_some_iff.1 he
    obtain ⟨hbranch, hitems⟩ := noneKept_piecesOfElement.1 hkept
    exact ⟨hfits, hchildren ▸ hitems, e.otherwise, helse, hbranch⟩
  · rintro ⟨hfits, hitems, branch, hbranch, hkept⟩
    have hsome := (isSome_ofFields?_iff h (Node.parts fields)).2 ⟨hfits, hbranch ▸ rfl⟩
    obtain ⟨e, he⟩ := Option.isSome_iff_exists.1 hsome
    obtain ⟨-, -, -, hchildren, -, -, helse, -⟩ := Element.ofFields?_eq_some_iff.1 he
    rw [hbranch] at helse
    obtain rfl := Option.some.inj helse
    exact ⟨e, he, noneKept_piecesOfElement.2 ⟨hkept, hchildren ▸ hitems⟩⟩

/-! ### Nodes -/

/-- A component has no diagnostics. -/
def ComponentValid (fields : Entries Json) : Prop :=
  ∃ place, checkComponent place fields (checkParts place fields) = []

/-- An element has no diagnostics. -/
def ElementValid (fields : Entries Json) : Prop :=
  ∃ place, checkElement place fields (checkParts place fields) = []

/-- A node without diagnostics is a component or an element, and says so. -/
theorem Valid.kind (h : Valid fields) :
    (Node.kindOf fields = "component" ∧ ComponentValid fields) ∨
      (Node.kindOf fields = "element" ∧ ElementValid fields) := by
  obtain ⟨place, h⟩ := h
  rw [checkFields] at h
  rw [Node.kindOf]
  split at h
  · next hkind =>
    rw [hkind]
    by_cases hrender : (fields.lookup "render").isSome
    · rw [if_pos hrender] at h ⊢
      exact .inl ⟨rfl, place, h⟩
    · rw [if_neg hrender] at h ⊢
      exact .inr ⟨rfl, place, h⟩
  · next hkind =>
    rw [hkind]
    exact .inl ⟨rfl, place, h⟩
  · next hkind =>
    rw [hkind]
    exact .inr ⟨rfl, place, h⟩
  · cases h

theorem ComponentValid.render (h : ComponentValid fields) :
    ∃ element, fields.lookup "render" = some (.obj element) ∧ ElementValid element ∧
      ∃ props, optionalField Json.fields? fields "props" = some props := by
  obtain ⟨place, h⟩ := h
  obtain ⟨hrender, hprops⟩ := List.append_eq_nil_iff.1 h
  rw [checkParts_eq] at hrender
  have hprops : ∃ props, optionalField Json.fields? fields "props" = some props := by
    rw [optionalField]
    cases hlookup : fields.lookup "props" with
    | none => exact ⟨none, rfl⟩
    | some v =>
      rw [hlookup] at hprops
      cases v with
      | obj props => exact ⟨some props, rfl⟩
      | null | bool | num | str | arr => cases hprops
  cases hlookup : fields.lookup "render" with
  | none => rw [hlookup] at hrender; cases hrender
  | some v =>
    rw [hlookup] at hrender
    cases v with
    | obj element => exact ⟨element, rfl, ⟨_, hrender⟩, hprops⟩
    | null | bool | num | str | arr => cases hrender

theorem ComponentValid.isSome_ofFields?_iff (h : ComponentValid fields) :
    (Component.ofFields? fields).isSome ↔ componentFits fields := by
  obtain ⟨_, -, -, props, hprops⟩ := h.render
  have hvalue (name : String) : ∃ v, optionalField some fields name = some v :=
    Option.isSome_iff_exists.1 (isSome_optionalField (fun _ => rfl) fields name)
  obtain ⟨data, hdata⟩ := hvalue "data"
  obtain ⟨states, hstates⟩ := hvalue "states"
  simp only [componentFits, Bool.and_eq_true, Option.isSome_iff_exists]
  constructor
  · rintro ⟨c, hc⟩
    obtain ⟨hid, hname, -, -, -, hmethods, heffects⟩ := Component.ofFields?_eq_some_iff.1 hc
    exact ⟨⟨⟨⟨_, hid⟩, _, hname⟩, _, hmethods⟩, _, heffects⟩
  · rintro ⟨⟨⟨⟨id, hid⟩, name, hname⟩, methods, hmethods⟩, effects, heffects⟩
    exact ⟨{ id, name, data, props, states, methods, effects },
      Component.ofFields?_eq_some_iff.2
        ⟨hid, hname, hdata, hprops, hstates, hmethods, heffects⟩⟩

/-- A component without diagnostics is read whole if the other fields fit and its element is read
whole. -/
theorem ComponentValid.readWhole_iff (h : ComponentValid fields)
    (hkind : Node.kindOf fields = "component") :
    ReadWhole fields ↔ componentFits fields ∧ ElementReadWhole (elementFields fields) := by
  obtain ⟨element, hrender, -⟩ := h.render
  have hparts : (Node.parts fields).render = Element.ofFields? element (Node.parts element) := by
    rw [Node.parts_eq, hrender]
    rfl
  have hkept (c : Component) (e : Element) :
      NoneKept (Node.pieces ⟨some c, e⟩) ↔ NoneKept (Node.piecesOfElement e) :=
    noneKept_cons fun _ => nofun
  rw [← h.isSome_ofFields?_iff, Option.isSome_iff_exists, elementFields, if_pos hkind, hrender,
    ReadWhole, Node.ofFields?_component hkind, hparts]
  simp only [Option.bind_eq_some_iff, Option.map_eq_some_iff]
  constructor
  · rintro ⟨_, ⟨c, hc, e, he, rfl⟩, hwhole⟩
    exact ⟨⟨c, hc⟩, e, he, (hkept c e).1 hwhole⟩
  · rintro ⟨⟨c, hc⟩, e, he, hwhole⟩
    exact ⟨_, ⟨c, hc, e, he, rfl⟩, (hkept c e).2 hwhole⟩

theorem readWhole_iff_of_element (hkind : Node.kindOf fields = "element") :
    ReadWhole fields ↔ ElementReadWhole fields := by
  simp only [ReadWhole, ElementReadWhole, Node.ofFields?_element hkind, Option.map_eq_some_iff]
  constructor
  · rintro ⟨_, ⟨e, he, rfl⟩, hwhole⟩
    exact ⟨e, he, hwhole⟩
  · rintro ⟨e, he, hwhole⟩
    exact ⟨_, ⟨e, he, rfl⟩, hwhole⟩

theorem Valid.element (h : Valid fields) : ElementValid (elementFields fields) := by
  obtain ⟨hkind, hvalid⟩ | ⟨hkind, hvalid⟩ := h.kind
  · obtain ⟨element, hrender, helement, -⟩ := hvalid.render
    rw [elementFields, if_pos hkind, hrender]
    exact helement
  · rw [elementFields, hkind]
    exact hvalid

/-- **A node without diagnostics is read whole if and only if the other fields fit and every node
right below it is read whole.** -/
theorem Valid.readWhole_iff (h : Valid fields) :
    ReadWhole fields ↔ uncheckedFit fields ∧ ∀ below ∈ nodesBelow fields, ReadWhole below := by
  obtain ⟨place, helement⟩ := h.element
  have hbelow := elementReadWhole_iff helement
  rw [uncheckedFit, nodesBelow, Bool.and_eq_true, and_assoc, ← hbelow]
  obtain ⟨hkind, hvalid⟩ | ⟨hkind, -⟩ := h.kind
  · rw [hvalid.readWhole_iff hkind, hkind]
    rfl
  · rw [readWhole_iff_of_element hkind, elementFields, hkind]
    exact (and_iff_right rfl).symm

/-! ### Trees -/

theorem nodeFields?_eq_some_iff {v : Json} :
    nodeFields? v = some fields ↔ v = .obj fields ∧ ¬ isReference fields := by
  cases v with
  | obj fields' =>
    rw [nodeFields?]
    by_cases hreference : isReference fields'
    · rw [if_pos hreference]
      refine ⟨nofun, ?_⟩
      rintro ⟨heq, hnot⟩
      injection heq with heq
      exact absurd (heq ▸ hreference) hnot
    · rw [if_neg hreference, Option.some.injEq, Json.obj.injEq]
      exact ⟨fun heq => ⟨heq, heq ▸ hreference⟩, And.left⟩
  | null | bool | num | str | arr => simp [nodeFields?]

theorem lookup_of_mem_elseNodes {below : Entries Json} (h : below ∈ elseNodes fields) :
    fields.lookup "else" = some (.obj below) := by
  obtain ⟨v, hv, hbelow⟩ := Option.bind_eq_some_iff.1 (Option.mem_toList.1 h)
  cases v with
  | obj fields' => exact hv.trans (congrArg _ (congrArg _ (Option.some.inj hbelow)))
  | null | bool | num | str | arr => cases hbelow

theorem Valid.of_mem_nodesBelow (h : Valid fields) {below : Entries Json}
    (hbelow : below ∈ nodesBelow fields) : Valid below := by
  obtain ⟨place, helement⟩ := h.element
  rcases List.mem_append.1 hbelow with hchild | helse
  · obtain ⟨v, hv, hfields⟩ := List.mem_filterMap.1 hchild
    obtain ⟨rfl, hreference⟩ := nodeFields?_eq_some_iff.1 hfields
    have hitem := itemValid_of_mem_childValues helement _ hv
    rwa [itemValid_obj_iff, if_neg hreference] at hitem
  · simp only [checkElement, List.append_eq_nil_iff] at helement
    obtain ⟨⟨⟨-, hotherwise⟩, -⟩, -⟩ := helement
    rw [checkParts_eq, lookup_of_mem_elseNodes helse] at hotherwise
    exact ⟨_, hotherwise⟩

theorem sizeOf_lt_of_lookup {name : String} {v : Json} (h : fields.lookup name = some v) :
    sizeOf v < sizeOf fields := by
  induction fields with
  | nil => cases h
  | cons field rest ih =>
    obtain ⟨name', v'⟩ := field
    rw [List.lookup_cons] at h
    split at h
    · obtain rfl := Option.some.inj h
      simp
      omega
    · have hrest := ih h
      simp
      omega

theorem sizeOf_lt_of_lookup_obj {name : String} {inner : Entries Json}
    (h : fields.lookup name = some (.obj inner)) : sizeOf inner < sizeOf fields := by
  have hv := sizeOf_lt_of_lookup h
  rw [Json.obj.sizeOf_spec] at hv
  omega

theorem sizeOf_lt_of_mem_childNodes {below : Entries Json} (h : below ∈ childNodes fields) :
    sizeOf below < sizeOf fields := by
  obtain ⟨v, hv, hfields⟩ := List.mem_filterMap.1 h
  obtain ⟨rfl, -⟩ := nodeFields?_eq_some_iff.1 hfields
  rw [childValues] at hv
  split at hv
  · cases hv
  · cases hv
  · next items hlookup =>
    have hitems := sizeOf_lt_of_lookup hlookup
    have hitem := List.sizeOf_lt_of_mem hv
    simp at hitems hitem
    omega
  · next v hlookup =>
    obtain rfl := List.mem_singleton.1 hv
    exact sizeOf_lt_of_lookup_obj hlookup

theorem sizeOf_elementFields_le (h : Valid fields) :
    sizeOf (elementFields fields) ≤ sizeOf fields := by
  obtain ⟨hkind, hvalid⟩ | ⟨hkind, -⟩ := h.kind
  · obtain ⟨element, hrender, -⟩ := hvalid.render
    rw [elementFields, if_pos hkind, hrender]
    exact Nat.le_of_lt (sizeOf_lt_of_lookup_obj hrender)
  · rw [elementFields, hkind]
    exact Nat.le_refl _

theorem Valid.sizeOf_lt_of_mem_nodesBelow (h : Valid fields) {below : Entries Json}
    (hbelow : below ∈ nodesBelow fields) : sizeOf below < sizeOf fields := by
  refine Nat.lt_of_lt_of_le ?_ (sizeOf_elementFields_le h)
  rcases List.mem_append.1 hbelow with hchild | helse
  · exact sizeOf_lt_of_mem_childNodes hchild
  · exact sizeOf_lt_of_lookup_obj (lookup_of_mem_elseNodes helse)

/-- A node without diagnostics is read whole if and only if the other fields fit in all nodes of its
tree. -/
theorem Valid.readWhole_iff_forall {fields : Entries Json} (h : Valid fields) :
    ReadWhole fields ↔ ∀ below, InTree below fields → uncheckedFit below := by
  have hbelow (below : Entries Json) (hmem : below ∈ nodesBelow fields) :
      ReadWhole below ↔ ∀ node, InTree node below → uncheckedFit node :=
    Valid.readWhole_iff_forall (h.of_mem_nodesBelow hmem)
  rw [h.readWhole_iff]
  constructor
  · rintro ⟨hfits, hall⟩ node hnode
    obtain rfl | ⟨below, hmem, hnode⟩ := Relation.ReflTransGen.cases_head_iff.1 hnode
    · exact hfits
    · exact (hbelow below hmem).1 (hall below hmem) node hnode
  · intro hall
    refine ⟨hall fields .refl, fun below hmem => (hbelow below hmem).2 fun node hnode => ?_⟩
    exact hall node (.head hmem hnode)
termination_by sizeOf fields
decreasing_by exact h.sizeOf_lt_of_mem_nodesBelow hmem

/-- **A schema without diagnostics is loaded, with no object among the children kept as a value, if
and only if the fields fit in all of its nodes at which the diagnostics do not look.** -/
theorem loaded_iff (next : Nat) {v : Json} (h : validate v = []) :
    (∃ tree next', load next v = .ok (tree, next') ∧ NoneKept tree.pieces) ↔
      ∃ fields, v = .obj fields ∧ ∀ below, InTree below fields → uncheckedFit below := by
  cases v with
  | obj fields =>
    have hvalid : Valid fields := ⟨[], h⟩
    simp only [Json.obj.injEq, exists_eq_left', ← hvalid.readWhole_iff_forall]
    rw [load, Node.ofJson, ReadWhole, Node.ofFields?]
    cases Node.ofFields fields (Node.parts fields) with
    | error fault => simp [Except.toOption]
    | ok n =>
      constructor
      · rintro ⟨tree, next', hload, hkept⟩
        obtain ⟨rfl, -⟩ := Prod.mk.inj (Except.ok.inj hload)
        exact ⟨n, rfl, Node.pieces_ensureIds next n ▸ hkept⟩
      · rintro ⟨_, hread, hkept⟩
        obtain rfl := Option.some.inj hread
        exact ⟨_, _, rfl, (Node.pieces_ensureIds next n).symm ▸ hkept⟩
  | null | bool | num | str | arr => cases h

/-- An element with null as its id. -/
def nullId : Json := .obj [("id", .null), ("type", .str "div")]

/-- A list whose entry has a text in place of changes by platform. -/
def textPlatform : Json :=
  .obj [("children", .arr [.obj [("platform", .str "web"), ("type", .str "li")]]),
    ("type", .str "ul")]

/-- Neither schema has diagnostics. The first is not loaded, and the second is loaded without its
entry. -/
theorem not_loaded_nullId :
    (validate nullId = [] ∧
      ¬ ∃ tree next', load 0 nullId = .ok (tree, next') ∧ NoneKept tree.pieces) ∧
    validate textPlatform = [] ∧
      ¬ ∃ tree next', load 0 textPlatform = .ok (tree, next') ∧ NoneKept tree.pieces := by
  refine ⟨⟨rfl, ?_⟩, rfl, ?_⟩
  · rintro ⟨_, _, hload, -⟩
    cases hload
  · rintro ⟨tree, next', hload, hkept⟩
    obtain ⟨rfl, -⟩ := Prod.mk.inj (Except.ok.inj hload)
    exact hkept [("platform", .str "web"), ("type", .str "li")] (.tail _ (.head _))

/-- A page with one paragraph. -/
def paragraphPage : Json :=
  .obj [("children", .obj [("id", .str "p"), ("type", .str "p")]), ("type", .str "div")]

theorem loaded_iff_paragraphPage : validate paragraphPage = [] ∧
    ∃ tree next', load 0 paragraphPage = .ok (tree, next') ∧ NoneKept tree.pieces := by
  have hvalid : validate paragraphPage = [] := rfl
  refine ⟨hvalid, (loaded_iff 0 hvalid).2 ⟨_, rfl, fun below h => ?_⟩⟩
  obtain rfl | ⟨below, hbelow, h⟩ := Relation.ReflTransGen.cases_head_iff.1 h
  · rfl
  · obtain rfl := List.mem_singleton.1 hbelow
    obtain rfl | ⟨below, hbelow, -⟩ := Relation.ReflTransGen.cases_head_iff.1 h
    · rfl
    · cases hbelow

end Schema

end SchemaCanvas
