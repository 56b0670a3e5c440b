import SchemaCanvas.Proofs.Ids.Unnamed
import SchemaCanvas.Proofs.Schema.Reread
import SchemaCanvas.Render.Platform
import Mathlib.Data.List.Forall2

/-!
# Alike trees

Trees are alike if nothing but their ids tells them apart (`Node.withoutIds`). Writing a tree and
reading it again may change it, but what becomes of alike trees is alike again, and reading never
fails on a written tree. A change for a surface goes this way: it is made on the written fields of
an element.

* `Node.readAlike_written` : alike trees have fields of which the same is read;
* `Node.exists_ofFields?_written` : every written tree can be read;
* `Element.withoutIds_onSurface` : on a surface, alike elements are alike, or fail alike.
-/

namespace SchemaCanvas

/-! ### Pieces without their ids -/

/-- An element with every id taken away. -/
def Element.withoutIds (e : Element) : Element :=
  { (Node.mapIdsBelow Node.noId e ()).1 with id := "" }

/-- An `else` branch with every id taken away. -/
def ElseBranch.withoutIds (b : ElseBranch) : ElseBranch := (Node.mapIdsOfBranch Node.noId b ()).1

/-- An entry of a list of children with every id taken away. -/
def ChildItem.withoutIds (item : ChildItem) : ChildItem := (Node.mapIdsOfItem Node.noId item ()).1

/-- A component without its id. -/
def Component.withoutIds (c : Component) : Component := { c with id := "" }

theorem Node.mapIdsOfItems_noId (items : List ChildItem) :
    (mapIdsOfItems noId items ()).1 = items.map ChildItem.withoutIds := by
  induction items with
  | nil => rfl
  | cons item rest ih => exact congrArg (item.withoutIds :: ·) ih

theorem Node.withoutIds_eq (n : Node) :
    n.withoutIds = ⟨n.component.map Component.withoutIds, n.element.withoutIds⟩ := by
  obtain ⟨component, element⟩ := n
  cases component <;> rfl

theorem Element.withoutIds_eq (e : Element) :
    e.withoutIds = { e with
      id := ""
      children := e.children.map (List.map ChildItem.withoutIds)
      otherwise := e.otherwise.map ElseBranch.withoutIds } := by
  obtain ⟨_, _, _, children, _, _, otherwise, _, _, _, _⟩ := e
  cases children with
  | none => cases otherwise <;> rfl
  | some items =>
    rw [Option.map_some, ← Node.mapIdsOfItems_noId]
    cases otherwise <;> rfl

/-- Elements are alike if they have all but their ids in common, and the nodes below are alike. -/
theorem Element.withoutIds_eq_iff {e e' : Element} :
    e.withoutIds = e'.withoutIds ↔ e.type = e'.type ∧ e.props = e'.props ∧
      e.children.map (List.map ChildItem.withoutIds) =
        e'.children.map (List.map ChildItem.withoutIds) ∧
      e.condition = e'.condition ∧ e.elseIf = e'.elseIf ∧
      e.otherwise.map ElseBranch.withoutIds = e'.otherwise.map ElseBranch.withoutIds ∧
      e.loop = e'.loop ∧ e.key = e'.key ∧ e.link = e'.link ∧ e.platform = e'.platform := by
  rw [e.withoutIds_eq, e'.withoutIds_eq, Element.mk.injEq]
  simp only [true_and]

/-! ### Fields of which the same is read -/

/-- The values that two records have under a name, of which the same is read apart from ids. -/
inductive FieldAlike : String → Option Json → Option Json → Prop
  | same (name : String) (v : Option Json) : FieldAlike name v v
  | id (s s' : String) : FieldAlike "id" (some (.str s)) (some (.str s'))
  | children {v v' : Json}
      (h : (Node.childList v).map (List.map ChildItem.withoutIds) =
        (Node.childList v').map (List.map ChildItem.withoutIds)) :
      FieldAlike "children" (some v) (some v')
  | otherwise {v v' : Json}
      (h : (Node.otherwise? v).map (Option.map ElseBranch.withoutIds) =
        (Node.otherwise? v').map (Option.map ElseBranch.withoutIds)) :
      FieldAlike "else" (some v) (some v')
  | render {v v' : Json}
      (h : (Node.element? v).map Element.withoutIds = (Node.element? v').map Element.withoutIds) :
      FieldAlike "render" (some v) (some v')

namespace FieldAlike

variable {name : String} {v v' : Option Json}

theorem symm (h : FieldAlike name v v') : FieldAlike name v' v := by
  cases h with
  | same => exact same name v
  | id s s' => exact id s' s
  | children h => exact children h.symm
  | otherwise h => exact otherwise h.symm
  | render h => exact render h.symm

/-- Where no ids can be, the values are the same. -/
theorem eq (h : FieldAlike name v v') (hname : name ∉ ["id", "children", "else", "render"]) :
    v = v' := by
  cases h with
  | same => rfl
  | id | children | otherwise | render => simp at hname

theorem isSome_eq (h : FieldAlike name v v') : v.isSome = v'.isSome := by
  cases h <;> rfl

theorem cases_id (h : FieldAlike "id" v v') :
    v = v' ∨ ∃ s s', v = some (.str s) ∧ v' = some (.str s') := by
  generalize hname : "id" = name at h
  cases h with
  | same => exact .inl rfl
  | id s s' => exact .inr ⟨s, s', rfl, rfl⟩
  | children | otherwise | render => exact absurd hname (by decide)

theorem children_eq (h : FieldAlike "children" v v') :
    (v.bind Node.childList).map (List.map ChildItem.withoutIds) =
      (v'.bind Node.childList).map (List.map ChildItem.withoutIds) := by
  generalize hname : "children" = name at h
  cases h with
  | same => rfl
  | children heq => exact heq
  | id | otherwise | render => exact absurd hname (by decide)

theorem otherwise_eq (h : FieldAlike "else" v v') :
    ((v.map Node.otherwise?).getD (some none)).map (Option.map ElseBranch.withoutIds) =
      ((v'.map Node.otherwise?).getD (some none)).map (Option.map ElseBranch.withoutIds) := by
  generalize hname : "else" = name at h
  cases h with
  | same => rfl
  | otherwise heq => exact heq
  | id | children | render => exact absurd hname (by decide)

theorem render_eq (h : FieldAlike "render" v v') :
    (v.bind Node.element?).map Element.withoutIds =
      (v'.bind Node.element?).map Element.withoutIds := by
  generalize hname : "render" = name at h
  cases h with
  | same => rfl
  | render heq => exact heq
  | id | children | otherwise => exact absurd hname (by decide)

end FieldAlike

/-- Two fields of one name with values of which the same is read. -/
def EntryAlike (entry entry' : String × Option Json) : Prop :=
  entry.1 = entry'.1 ∧ FieldAlike entry.1 entry.2 entry'.2

/-- Two records of which the same is read apart from ids. -/
def ReadAlike (fields fields' : Entries Json) : Prop :=
  ∀ name, FieldAlike name (fields.lookup name) (fields'.lookup name)

namespace ReadAlike

variable {fields fields' : Entries Json}

theorem symm (h : ReadAlike fields fields') : ReadAlike fields' fields := fun name => (h name).symm

theorem insert {name : String} {v v' : Json} (h : ReadAlike fields fields')
    (hv : FieldAlike name (some v) (some v')) :
    ReadAlike (fields.insert name v) (fields'.insert name v') := by
  intro k
  by_cases hk : k = name
  · subst hk
    rw [Entries.lookup_insert_self, Entries.lookup_insert_self]
    exact hv
  · rw [Entries.lookup_insert_of_ne hk, Entries.lookup_insert_of_ne hk]
    exact h k

theorem erase (h : ReadAlike fields fields') (name : String) :
    ReadAlike (fields.erase name) (fields'.erase name) := by
  intro k
  by_cases hk : k = name
  · subst hk
    rw [Entries.lookup_erase_self, Entries.lookup_erase_self]
    exact .same k none
  · rw [Entries.lookup_erase_of_ne hk, Entries.lookup_erase_of_ne hk]
    exact h k

theorem change (h : ReadAlike fields fields') (change : Entries Json) :
    ReadAlike (change.foldl (fun fields (name, v) => fields.insert name v) fields)
      (change.foldl (fun fields (name, v) => fields.insert name v) fields') := by
  induction change generalizing fields fields' with
  | nil => exact h
  | cons field rest ih => exact ih (h.insert (.same field.1 (some field.2)))

/-- What is written of alike entries is alike. -/
theorem of_given {entries entries' : List (String × Option Json)}
    (hnodup : (entries.map Prod.fst).Nodup) (h : List.Forall₂ EntryAlike entries entries') :
    ReadAlike (Entries.ofList (given entries)) (Entries.ofList (given entries')) := by
  have hnames : entries.map Prod.fst = entries'.map Prod.fst := by
    clear hnodup
    induction h with
    | nil => rfl
    | cons hentry _ ih => exact congrArg₂ List.cons hentry.1 ih
  have hpartner : ∀ entry ∈ entries, ∃ entry' ∈ entries', EntryAlike entry entry' := by
    clear hnodup hnames
    induction h with
    | nil => exact List.forall_mem_nil _
    | cons hentry _ ih =>
      refine List.forall_mem_cons.2 ⟨⟨_, List.mem_cons_self, hentry⟩, fun entry hmem => ?_⟩
      obtain ⟨entry', hmem', hentry⟩ := ih entry hmem
      exact ⟨entry', List.mem_cons_of_mem _ hmem', hentry⟩
  intro name
  by_cases hname : name ∈ entries.map Prod.fst
  · obtain ⟨entry, hmem, rfl⟩ := List.mem_map.1 hname
    obtain ⟨entry', hmem', heq, halike⟩ := hpartner entry hmem
    rw [lookup_ofList_given entries hnodup entry hmem, heq,
      lookup_ofList_given entries' (hnames ▸ hnodup) entry' hmem', ← heq]
    exact halike
  · rw [lookup_ofList_given_eq_none hname, lookup_ofList_given_eq_none (hnames ▸ hname)]
    exact .same name none

end ReadAlike

/-! ### Reading alike fields -/

theorem optionalField_congr {α : Type} {read : Json → Option α} {fields fields' : Entries Json}
    {name : String} (h : fields.lookup name = fields'.lookup name) :
    optionalField read fields name = optionalField read fields' name := by
  rw [optionalField, optionalField, h]

namespace ReadAlike

variable {fields fields' : Entries Json}

/-- A field that holds no ids is the same in both. -/
theorem lookup_eq (h : ReadAlike fields fields') {name : String}
    (hname : name ∉ ["id", "children", "else", "render"]) :
    fields.lookup name = fields'.lookup name := (h name).eq hname

theorem exists_defaultText? (h : ReadAlike fields fields') {id : String}
    (hid : defaultText? fields "id" = some id) : ∃ id', defaultText? fields' "id" = some id' := by
  rw [defaultText?] at hid ⊢
  rcases (h "id").cases_id with heq | ⟨_, s', -, hs'⟩
  · exact ⟨id, heq ▸ hid⟩
  · exact ⟨s', by rw [hs']; rfl⟩

theorem children_eq (h : ReadAlike fields fields') :
    (Node.parts fields).children.map (List.map ChildItem.withoutIds) =
      (Node.parts fields').children.map (List.map ChildItem.withoutIds) := by
  rw [Node.parts_eq, Node.parts_eq]
  exact (h "children").children_eq

theorem otherwise_eq (h : ReadAlike fields fields') :
    (Node.parts fields).otherwise.map (Option.map ElseBranch.withoutIds) =
      (Node.parts fields').otherwise.map (Option.map ElseBranch.withoutIds) := by
  rw [Node.parts_eq, Node.parts_eq]
  exact (h "else").otherwise_eq

theorem render_eq (h : ReadAlike fields fields') :
    (Node.parts fields).render.map Element.withoutIds =
      (Node.parts fields').render.map Element.withoutIds := by
  rw [Node.parts_eq, Node.parts_eq]
  exact (h "render").render_eq

/-- If an element is read from one record, one alike is read from the other. -/
theorem exists_element (h : ReadAlike fields fields') {e : Element}
    (he : Element.ofFields? fields (Node.parts fields) = some e) :
    ∃ e', Element.ofFields? fields' (Node.parts fields') = some e' ∧
      e.withoutIds = e'.withoutIds := by
  obtain ⟨hid, htype, hprops, hchildren, hif, helseIf, helse, hfor, hkey, hlink, hplatform⟩ :=
    Element.ofFields?_eq_some_iff.1 he
  obtain ⟨id', hid'⟩ := h.exists_defaultText? hid
  obtain ⟨otherwise', helse', hbranch⟩ :=
    Option.map_eq_some_iff.1 (h.otherwise_eq.symm.trans (congrArg _ helse))
  have hitems := h.children_eq
  rw [hchildren] at hitems
  refine ⟨{ e with id := id', children := (Node.parts fields').children, otherwise := otherwise' },
    ?_, ?_⟩
  · refine Element.ofFields?_eq_some_iff.2 ⟨hid', ?_, ?_, rfl, ?_, ?_, helse', ?_, ?_, ?_, ?_⟩
    · rwa [requiredText?, ← h.lookup_eq (by decide)]
    · rwa [props?, ← h.lookup_eq (by decide)]
    all_goals rwa [← optionalField_congr (h.lookup_eq (by decide))]
  · exact Element.withoutIds_eq_iff.2
      ⟨rfl, rfl, hitems, rfl, rfl, hbranch.symm, rfl, rfl, rfl, rfl⟩

/-- Elements are alike that are read from records of which the same is read. -/
theorem map_element (h : ReadAlike fields fields') :
    (Element.ofFields? fields (Node.parts fields)).map Element.withoutIds =
      (Element.ofFields? fields' (Node.parts fields')).map Element.withoutIds := by
  cases he : Element.ofFields? fields (Node.parts fields) with
  | some e =>
    obtain ⟨e', he', halike⟩ := h.exists_element he
    rw [he', Option.map_some, Option.map_some, halike]
  | none =>
    cases he' : Element.ofFields? fields' (Node.parts fields') with
    | none => rfl
    | some e' =>
      obtain ⟨e, hsome, -⟩ := h.symm.exists_element he'
      exact absurd (he.symm.trans hsome) nofun

theorem exists_component (h : ReadAlike fields fields') {c : Component}
    (hc : Component.ofFields? fields = some c) :
    ∃ c', Component.ofFields? fields' = some c' ∧ c.withoutIds = c'.withoutIds := by
  obtain ⟨hid, hname, hdata, hprops, hstates, hmethods, heffects⟩ :=
    Component.ofFields?_eq_some_iff.1 hc
  obtain ⟨id', hid'⟩ := h.exists_defaultText? hid
  refine ⟨{ c with id := id' }, ?_, rfl⟩
  refine Component.ofFields?_eq_some_iff.2 ⟨hid', ?_, ?_, ?_, ?_, ?_, ?_⟩
  all_goals rwa [← optionalField_congr (h.lookup_eq (by decide))]

theorem kindOf_eq (h : ReadAlike fields fields') : Node.kindOf fields = Node.kindOf fields' := by
  rw [Node.kindOf, Node.kindOf, h.lookup_eq (by decide), (h "render").isSome_eq]

theorem exists_node (h : ReadAlike fields fields') {n : Node}
    (hn : Node.ofFields? fields (Node.parts fields) = some n) :
    ∃ n', Node.ofFields? fields' (Node.parts fields') = some n' ∧
      n.withoutIds = n'.withoutIds := by
  rcases Node.cases_of_ofFields? hn with
    ⟨hkind, c, e, rfl, hc, he⟩ | ⟨hkind, e, rfl, he⟩
  · obtain ⟨c', hc', hcomponent⟩ := h.exists_component hc
    obtain ⟨e', he', helement⟩ :=
      Option.map_eq_some_iff.1 (h.render_eq.symm.trans (congrArg _ he))
    refine ⟨⟨some c', e'⟩, ?_, ?_⟩
    · rw [Node.ofFields?_component (h.kindOf_eq ▸ hkind), hc', he']
      rfl
    · simp [Node.withoutIds_eq, hcomponent, helement]
  · obtain ⟨e', he', helement⟩ := h.exists_element he
    refine ⟨⟨none, e'⟩, ?_, ?_⟩
    · rw [Node.ofFields?_element (h.kindOf_eq ▸ hkind), he']
      rfl
    · simp [Node.withoutIds_eq, helement]

end ReadAlike

/-! ### Written trees can be read -/

theorem isSome_optionalField_of_lookup {α : Type} {read : Json → Option α} {fields : Entries Json}
    {name : String} (h : ∀ v, fields.lookup name = some v → (read v).isSome) :
    (optionalField read fields name).isSome := by
  rw [optionalField]
  split
  · rfl
  · rfl
  · next v _ hv =>
    rw [Option.isSome_map]
    exact h v hv

theorem isSome_optionalField_propValue (fields : Entries Json) (name : String) :
    (optionalField (some ∘ PropValue.ofJson) fields name).isSome :=
  isSome_optionalField (fun _ => rfl) fields name

theorem Loop.isSome_ofJson?_encode (l : Loop) : (ofJson? (l.encode Json.object)).isSome := by
  have hlookup := lookup_ofList_given l.entries (by simp [entries])
  rw [encode_eq, Json.object]
  generalize SchemaCanvas.Entries.ofList (given l.entries) = fields at hlookup ⊢
  simp only [entries, List.forall_mem_cons] at hlookup
  obtain ⟨hsource, hitem, hindex, -⟩ := hlookup
  obtain ⟨key, hkey⟩ := Option.isSome_iff_exists.1 (isSome_optionalField_propValue fields "key")
  have hread : ofJson? (.obj fields) = some { l with key } := by
    refine ofJson?_eq_some_iff.2 ⟨fields, rfl, ?_, ?_, ?_, hkey⟩
    · rw [hsource]
      exact l.source.ofJson?_toJson
    · rw [requiredText?, hitem]
      rfl
    · exact optionalField_eq hindex fun _ _ => ⟨by simp, rfl⟩
  rw [hread]
  rfl

theorem Element.exists_ofFields? {e : Element} {fields : Entries Json}
    (hfields : ∀ entry ∈ e.entries Json.object, fields.lookup entry.1 = entry.2)
    (hbranch : ∀ b, e.otherwise = some b →
      ∃ otherwise, Node.otherwise? (Node.encodeBranch Json.object b) = some otherwise) :
    ∃ read, ofFields? fields (Node.parts fields) = some read := by
  simp only [entries, List.forall_mem_cons] at hfields
  obtain ⟨hid, htype, hprops, -, -, -, helse, hfor, -, hlink, hplatform, -⟩ := hfields
  obtain ⟨props, hprops⟩ : ∃ props, props? fields = some props := by
    rw [props?, hprops, propsValue]
    split_ifs <;> exact ⟨_, rfl⟩
  obtain ⟨otherwise, helse⟩ : ∃ otherwise, (Node.parts fields).otherwise = some otherwise := by
    rw [Node.parts_eq, helse]
    cases hb : e.otherwise with
    | none => exact ⟨none, rfl⟩
    | some b => exact hbranch b hb
  obtain ⟨loop, hfor⟩ : ∃ loop, optionalField Loop.ofJson? fields "for" = some loop := by
    refine Option.isSome_iff_exists.1 (isSome_optionalField_of_lookup fun v hv => ?_)
    obtain ⟨l, -, rfl⟩ := Option.map_eq_some_iff.1 (hfor.symm.trans hv)
    exact l.isSome_ofJson?_encode
  obtain ⟨condition, hif⟩ :=
    Option.isSome_iff_exists.1 (isSome_optionalField_propValue fields "if")
  obtain ⟨elseIf, helseIf⟩ :=
    Option.isSome_iff_exists.1 (isSome_optionalField_propValue fields "elseIf")
  obtain ⟨key, hkey⟩ := Option.isSome_iff_exists.1 (isSome_optionalField_propValue fields "key")
  have hlink : optionalField LinkTarget.ofJson? fields "link-to" = some e.link :=
    optionalField_eq hlink fun t _ => ⟨t.encode_ne_null, t.ofJson?_encode⟩
  have hplatform : optionalField Json.fields? fields "platform" = some e.platform :=
    optionalField_eq hplatform fun _ _ => ⟨by simp, rfl⟩
  refine ⟨⟨e.id, e.type, props, (Node.parts fields).children, condition, elseIf, otherwise, loop,
    key, e.link, e.platform⟩, Element.ofFields?_eq_some_iff.2
      ⟨?_, ?_, hprops, rfl, hif, helseIf, helse, hfor, hkey, hlink, hplatform⟩⟩
  · rw [defaultText?, hid]
    rfl
  · rw [requiredText?, htype]
    rfl

theorem Component.exists_ofFields? {c : Component} {fields : Entries Json}
    (hfields : ∀ entry ∈ c.entries, fields.lookup entry.1 = entry.2) :
    ∃ read, ofFields? fields = some read := by
  simp only [entries, List.forall_mem_cons] at hfields
  obtain ⟨hid, hname, -, hprops, -, hmethods, heffects, -⟩ := hfields
  obtain ⟨data, hdata⟩ :=
    Option.isSome_iff_exists.1 (@isSome_optionalField _ some (fun _ => rfl) fields "data")
  obtain ⟨states, hstates⟩ :=
    Option.isSome_iff_exists.1 (@isSome_optionalField _ some (fun _ => rfl) fields "states")
  refine ⟨{ c with data, states }, ofFields?_eq_some_iff.2
    ⟨?_, ?_, hdata, ?_, hstates, ?_, ?_⟩⟩
  · rw [defaultText?, hid]
    rfl
  all_goals exact optionalField_eq ‹_› fun _ _ => ⟨by simp, rfl⟩

namespace Node

/-- The fields that are written of a node, in the order of their names. -/
def written (n : Node) : Entries Json := Entries.ofList (given (n.entries Json.object))

theorem toJson_eq (n : Node) : n.toJson = .obj n.written := encode_eq Json.object n

theorem nodup_entries (n : Node) : ((n.entries Json.object).map Prod.fst).Nodup := by
  obtain ⟨_ | _, _⟩ := n <;> simp [entries, Element.entries, Component.entries]

theorem lookup_written (n : Node) :
    ∀ entry ∈ n.entries Json.object, n.written.lookup entry.1 = entry.2 :=
  lookup_ofList_given _ n.nodup_entries

/-- A written node is no reference. -/
theorem ofJson?_written (n : Node) : DataRef.ofJson? (.obj n.written) = none := by
  refine DataRef.ofJson?_object_given ?_ ?_ <;> obtain ⟨_ | _, _⟩ := n <;>
    simp [entries, Element.entries, Component.entries]

/-- An element is read from its own written form, if it is read from its written fields. -/
theorem element?_object (e : Element) :
    element? (Json.object (encodeElement Json.object e)) =
      Element.ofFields? (Entries.ofList (given (e.entries Json.object)))
        (parts (Entries.ofList (given (e.entries Json.object)))) := by
  rw [encodeElement_eq]
  rfl

mutual

/-- **Every written tree can be read.** -/
theorem exists_ofFields?_written : ∀ n : Node,
    ∃ read, ofFields? n.written (parts n.written) = some read
  | ⟨none, element⟩ => by
    obtain ⟨hkind, hfields⟩ := List.forall_mem_cons.1 (lookup_written ⟨none, element⟩)
    obtain ⟨read, hread⟩ := exists_elementOfFields? element _ hfields
    refine ⟨⟨none, read⟩, ?_⟩
    rw [ofFields?_element (by rw [kindOf, hkind]), hread]
    rfl
  | ⟨some component, element⟩ => by
    obtain ⟨hkind, hfields⟩ := List.forall_mem_cons.1 (lookup_written ⟨some component, element⟩)
    obtain ⟨hfields, hrender⟩ := List.forall_mem_append.1 hfields
    obtain ⟨c, hc⟩ := Component.exists_ofFields? hfields
    obtain ⟨e, he⟩ := exists_elementOfFields? element _
      (lookup_ofList_given _ (by simp [Element.entries]))
    have hrender : (parts (written ⟨some component, element⟩)).render = some e := by
      rw [parts_eq]
      change ((written ⟨some component, element⟩).lookup "render").bind element? = _
      rw [hrender _ (List.mem_singleton_self _)]
      exact (element?_object element).trans he
    refine ⟨⟨some c, e⟩, ?_⟩
    rw [ofFields?_component (by rw [kindOf, hkind]), hc, hrender]
    rfl

theorem exists_elementOfFields? : ∀ (e : Element) (fields : Entries Json),
    (∀ entry ∈ e.entries Json.object, fields.lookup entry.1 = entry.2) →
    ∃ read, Element.ofFields? fields (parts fields) = some read
  | ⟨_, _, _, _, _, _, none, _, _, _, _⟩, _, hfields => Element.exists_ofFields? hfields nofun
  | ⟨_, _, _, _, _, _, some branch, _, _, _, _⟩, _, hfields =>
    Element.exists_ofFields? hfields fun _ heq =>
      Option.some.inj heq ▸ exists_otherwise?_encodeBranch branch

theorem exists_otherwise?_encodeBranch : ∀ b : ElseBranch,
    ∃ otherwise, otherwise? (encodeBranch Json.object b) = some otherwise
  | .flag b => ⟨some (.flag b), rfl⟩
  | .node n => by
    obtain ⟨read, hread⟩ := exists_ofFields?_written n
    refine ⟨some (.node read), ?_⟩
    change otherwise? n.toJson = _
    rw [toJson_eq, otherwise?, hread]
    rfl

end

/-! ### What becomes of alike trees is alike -/

theorem entryAlike_same (name : String) (v : Option Json) : EntryAlike (name, v) (name, v) :=
  ⟨rfl, .same name v⟩

mutual

/-- **Of a written tree the same is read as of the tree without ids.** -/
theorem readAlike_written : ∀ n : Node, ReadAlike n.written n.withoutIds.written
  | ⟨none, element⟩ =>
    .of_given (nodup_entries ⟨none, element⟩) (.cons (entryAlike_same _ _) (entriesAlike element))
  | ⟨some c, element⟩ => by
    refine .of_given (nodup_entries ⟨some c, element⟩) (.cons (entryAlike_same _ _) ?_)
    have hcomponent : List.Forall₂ EntryAlike c.entries c.withoutIds.entries :=
      .cons ⟨rfl, .id c.id ""⟩ (List.forall₂_same.2 fun entry _ => entryAlike_same entry.1 entry.2)
    have helement : ReadAlike (Entries.ofList (given (element.entries Json.object)))
        (Entries.ofList (given (element.withoutIds.entries Json.object))) :=
      .of_given (by simp [Element.entries]) (entriesAlike element)
    refine List.rel_append hcomponent (.cons ⟨rfl, .render ?_⟩ .nil)
    rw [element?_object]
    exact helement.map_element.trans (congrArg _ (element?_object _).symm)

theorem entriesAlike : ∀ e : Element,
    List.Forall₂ EntryAlike (e.entries Json.object) (e.withoutIds.entries Json.object)
  | ⟨id, type, props, children, condition, elseIf, otherwise, loop, key, link, platform⟩ => by
    rw [Element.withoutIds_eq]
    refine .cons ⟨rfl, .id id ""⟩ (.cons (entryAlike_same _ _) (.cons (entryAlike_same _ _)
      (.cons ⟨rfl, ?_⟩ (.cons (entryAlike_same _ _) (.cons (entryAlike_same _ _)
      (.cons ⟨rfl, ?_⟩ (List.forall₂_same.2 fun entry _ => entryAlike_same entry.1 entry.2)))))))
    · cases children with
      | none => exact .same _ _
      | some items => exact .children (congrArg some (childItems_encodeItems_alike items))
    · cases otherwise with
      | none => exact .same _ _
      | some branch => exact .otherwise (otherwise?_encodeBranch_alike branch)

theorem childItems_encodeItems_alike : ∀ items : List ChildItem,
    (childItems (encodeItems Json.object items)).map ChildItem.withoutIds =
      (childItems (encodeItems Json.object (items.map ChildItem.withoutIds))).map
        ChildItem.withoutIds
  | [] => rfl
  | item :: rest =>
    congrArg₂ List.cons (childItem_encodeItem_alike item) (childItems_encodeItems_alike rest)

theorem childItem_encodeItem_alike : ∀ item : ChildItem,
    (childItem (encodeItem Json.object item)).withoutIds =
      (childItem (encodeItem Json.object item.withoutIds)).withoutIds
  | .text _ | .ref _ | .other _ => rfl
  | .node n => by
    obtain ⟨read, hread⟩ := exists_ofFields?_written n
    obtain ⟨read', hread', halike⟩ := (readAlike_written n).exists_node hread
    change (childItem n.toJson).withoutIds = (childItem n.withoutIds.toJson).withoutIds
    rw [toJson_eq, toJson_eq, childItem, childItem, objectItem, objectItem, ofJson?_written,
      ofJson?_written, hread, hread']
    exact congrArg ChildItem.node halike

theorem otherwise?_encodeBranch_alike : ∀ b : ElseBranch,
    (otherwise? (encodeBranch Json.object b)).map (Option.map ElseBranch.withoutIds) =
      (otherwise? (encodeBranch Json.object b.withoutIds)).map (Option.map ElseBranch.withoutIds)
  | .flag _ => rfl
  | .node n => by
    obtain ⟨read, hread⟩ := exists_ofFields?_written n
    obtain ⟨read', hread', halike⟩ := (readAlike_written n).exists_node hread
    change (otherwise? n.toJson).map _ = (otherwise? n.withoutIds.toJson).map _
    rw [toJson_eq, toJson_eq, otherwise?, otherwise?, hread, hread']
    exact congrArg (fun n => some (some (ElseBranch.node n))) halike

end

end Node

/-! ### On a surface -/

namespace Element

theorem map_overlay?_withoutIds (e : Element) (change : Entries Json) :
    (e.overlay? change).map withoutIds = (e.withoutIds.overlay? change).map withoutIds := by
  have hwritten : ReadAlike (Entries.ofList (Node.encodeElement Json.object e))
      (Entries.ofList (Node.encodeElement Json.object e.withoutIds)) := by
    rw [Node.encodeElement_eq, Node.encodeElement_eq]
    exact .of_given (by simp [entries]) (Node.entriesAlike e)
  have hchanged := ((hwritten.change change).erase "platform").insert (.id e.id "")
  exact hchanged.map_element

/-- **Alike elements are alike on every surface,** or fail there for the same reason. -/
theorem map_onSurface_eq {e e' : Element} (h : e.withoutIds = e'.withoutIds)
    (surface : Option String) :
    (e.onSurface surface).map withoutIds = (e'.onSurface surface).map withoutIds := by
  obtain ⟨htype, hprops, hchildren, hif, helseIf, helse, hfor, hkey, hlink, hplatform⟩ :=
    withoutIds_eq_iff.1 h
  have hplain : { e with platform := none }.withoutIds = { e' with platform := none }.withoutIds :=
    withoutIds_eq_iff.2
      ⟨htype, hprops, hchildren, hif, helseIf, helse, hfor, hkey, hlink, rfl⟩
  have hoverlay (change : Entries Json) :
      (e.overlay? change).map withoutIds = (e'.overlay? change).map withoutIds := by
    rw [map_overlay?_withoutIds, h, ← map_overlay?_withoutIds]
  have hchange : e.change? surface = e'.change? surface := by rw [change?, change?, hplatform]
  unfold onSurface
  rw [hchange]
  split
  · exact congrArg Except.ok hplain
  · next change _ =>
    have halike := hoverlay change
    cases hshown : e.overlay? change with
    | some shown =>
      rw [hshown] at halike
      obtain ⟨shown', hshown', heq⟩ := Option.map_eq_some_iff.1 halike.symm
      rw [hshown']
      exact congrArg Except.ok heq.symm
    | none =>
      rw [hshown] at halike
      rw [Option.map_eq_none_iff.1 halike.symm]
  · rfl

end Element

end SchemaCanvas
