import SchemaCanvas.Proofs.Json.Order
import SchemaCanvas.Proofs.Schema.Reread

/-!
# Trees in order

Text lists the fields of a node in the order of their description, and reading it brings all fields
into the order of their names. That gives the value of the tree, if the values that the tree holds
are in order themselves. They are as soon as the tree is read from a value in order.

* `Piece.Ordered` : a piece that holds only values in order;
* `readInvariant_ordered` : what is read of a value in order is in order;
* `Node.sorted_encode` : the written form of a tree in order means the value of the tree.
-/

namespace SchemaCanvas

/-! ### Pieces in order -/

/-- All values in an element are in order. -/
structure Element.Ordered (e : Element) : Prop where
  props : ∀ v, propsValue e.props = some v → v.Ordered
  condition : ∀ p, e.condition = some p → p.toJson.Ordered
  elseIf : ∀ p, e.elseIf = some p → p.toJson.Ordered
  key : ∀ p, e.key = some p → p.toJson.Ordered
  loopKey : ∀ loop p, e.loop = some loop → loop.key = some p → p.toJson.Ordered
  params : ∀ ui params, e.link = some (.target ui (some params)) → (Json.obj params).Ordered
  platform : ∀ fields, e.platform = some fields → (Json.obj fields).Ordered

/-- All values in a component are in order. -/
structure Component.Ordered (c : Component) : Prop where
  data : ∀ v, c.data = some v → v.Ordered
  props : ∀ fields, c.props = some fields → (Json.obj fields).Ordered
  states : ∀ v, c.states = some v → v.Ordered
  methods : ∀ fields, c.methods = some fields → (Json.obj fields).Ordered
  effects : ∀ items, c.effects = some items → (Json.arr items).Ordered

/-- All values in a piece are in order. -/
def Piece.Ordered : Piece → Prop
  | component c => c.Ordered
  | element e => e.Ordered
  | item (.other v) => v.Ordered
  | item _ => True

theorem DataRef.ordered_toJson (r : DataRef) : r.toJson.Ordered := by
  have hitems (names : List String) : (Json.arr (names.map .str)).Ordered :=
    .arr (List.forall_mem_map.2 fun name _ => .str name)
  cases r with
  | expression text =>
    exact .obj (List.pairwise_singleton ..) (List.forall_mem_singleton.2 (.str text))
  | path p transforms =>
    rw [toJson]
    split
    · exact .obj (List.pairwise_singleton ..) (List.forall_mem_singleton.2 (.str p))
    · refine .obj (List.pairwise_pair.2 (show "$bind" < "$transform" by decide)) ?_
      exact List.forall_mem_cons.2 ⟨.str p, List.forall_mem_singleton.2 (hitems transforms)⟩

theorem PropValue.ordered_toJson_ofJson {v : Json} (h : v.Ordered) : (ofJson v).toJson.Ordered := by
  rw [ofJson]
  cases DataRef.ofJson? v with
  | some r => exact r.ordered_toJson
  | none => exact h

section

variable {fields : Entries Json} {name : String}

theorem ordered_of_propValueField (hfields : ∀ name v, fields.lookup name = some v → v.Ordered)
    {p? : Option PropValue} (h : optionalField (some ∘ PropValue.ofJson) fields name = some p?) :
    ∀ p, p? = some p → p.toJson.Ordered := by
  rintro p rfl
  obtain ⟨v, hv, -, hp⟩ := exists_of_optionalField h
  obtain rfl := Option.some.inj hp
  exact PropValue.ordered_toJson_ofJson (hfields name v hv)

theorem ordered_of_objectField (hfields : ∀ name v, fields.lookup name = some v → v.Ordered)
    {x? : Option (Entries Json)} (h : optionalField Json.fields? fields name = some x?) :
    ∀ x, x? = some x → (Json.obj x).Ordered := by
  rintro x rfl
  obtain ⟨v, hv, -, hx⟩ := exists_of_optionalField h
  obtain rfl := Json.fields?_eq_some_iff.1 hx
  exact hfields name _ hv

theorem ordered_of_valueField (hfields : ∀ name v, fields.lookup name = some v → v.Ordered)
    {x? : Option Json} (h : optionalField some fields name = some x?) :
    ∀ x, x? = some x → x.Ordered := by
  rintro x rfl
  obtain ⟨v, hv, -, hx⟩ := exists_of_optionalField h
  obtain rfl := Option.some.inj hx
  exact hfields name v hv

theorem ordered_propsValue (hfields : ∀ name v, fields.lookup name = some v → v.Ordered)
    {props : Entries PropValue} (h : props? fields = some props) :
    ∀ v, propsValue props = some v → v.Ordered := by
  intro v hv
  rw [props?] at h
  split at h
  · cases h
    cases hv
  · next values hlookup =>
    obtain rfl := Option.some.inj h
    rw [propsValue] at hv
    split_ifs at hv
    obtain rfl := Option.some.inj hv
    cases hfields _ _ hlookup with
    | obj hnames hvalues =>
      rw [List.map_map]
      refine .obj (List.pairwise_map.2 hnames) (List.forall_mem_map.2 fun field hfield => ?_)
      exact PropValue.ordered_toJson_ofJson (hvalues field hfield)
  · cases h

end

theorem Json.ordered_of_record? {names : List String} {v : Json} {fields : Entries Json}
    (hv : v.Ordered) (h : v.record? names = some fields) :
    ∀ name w, fields.lookup name = some w → w.Ordered := by
  intro name w hw
  cases hv with
  | @obj fields' _ hvalues =>
    cases h
    exact hvalues _ (mem_of_lookup hw)
  | @arr items hitems =>
    rw [record?] at h
    split_ifs at h
    cases h
    exact hitems w (List.of_mem_zip (mem_of_lookup hw)).2
  | null | bool | num | str => cases h

theorem LinkTarget.ordered_params {v : Json} (hv : v.Ordered) {ui : String} {params : Entries Json}
    (h : ofJson? v = some (target ui (some params))) : (Json.obj params).Ordered := by
  obtain ⟨_, heq, -⟩ | ⟨fields, _, _, heq, rfl, hparams⟩ | ⟨_, heq, -⟩ := cases_of_ofJson? h
  · cases heq
  · cases heq
    cases hv with
    | obj _ hvalues =>
      exact ordered_of_objectField (fun _ _ hw => hvalues _ (mem_of_lookup hw)) hparams params rfl
  · cases heq

/-- What is read of a value in order is in order. -/
theorem readInvariant_ordered : ReadInvariant Json.Ordered Piece.Ordered where
  items _ h := by
    cases h with
    | arr hitems => exact hitems
  fields _ h := by
    cases h with
    | obj _ hvalues => exact hvalues
  element fields parts e hfields h := by
    obtain ⟨-, -, hprops, -, hif, helseIf, -, hfor, hkey, hlink, hplatform⟩ :=
      Element.ofFields?_eq_some_iff.1 h
    refine ⟨ordered_propsValue hfields hprops, ordered_of_propValueField hfields hif,
      ordered_of_propValueField hfields helseIf, ordered_of_propValueField hfields hkey,
      fun loop p hl hp => ?_, fun ui params hparams => ?_, ordered_of_objectField hfields hplatform⟩
    · obtain ⟨v, hv, -, hloop⟩ := exists_of_optionalField (hfor.trans (congrArg some hl))
      obtain ⟨record, hrecord, -, -, -, hloopKey⟩ := Loop.ofJson?_eq_some_iff.1 hloop
      have hordered := Json.ordered_of_record? (hfields _ v hv) hrecord
      exact ordered_of_propValueField hordered hloopKey p hp
    · obtain ⟨v, hv, -, htarget⟩ := exists_of_optionalField (hlink.trans (congrArg some hparams))
      exact LinkTarget.ordered_params (hfields _ v hv) htarget
  component fields c hfields h := by
    obtain ⟨-, -, hdata, hprops, hstates, hmethods, heffects⟩ := Component.ofFields?_eq_some_iff.1 h
    refine ⟨ordered_of_valueField hfields hdata, ordered_of_objectField hfields hprops,
      ordered_of_valueField hfields hstates, ordered_of_objectField hfields hmethods,
      fun items hitems => ?_⟩
    obtain ⟨v, hv, -, hx⟩ := exists_of_optionalField (heffects.trans (congrArg some hitems))
    obtain rfl := Json.items?_eq_some_iff.1 hx
    exact hfields _ _ hv
  item v hv h := by
    cases hitem : Node.childItem v with
    | text | ref => trivial
    | node n => rw [hitem] at h; cases h
    | other w =>
      obtain rfl := Node.eq_of_childItem_eq_other hitem
      exact hv

/-! ### Written in order -/

/-- A field with everything in its value in order. -/
def sortedEntry (entry : String × Option Json) : String × Option Json :=
  (entry.1, entry.2.map Json.sorted)

theorem sorted_obj_given (entries : List (String × Option Json)) :
    (Json.obj (given entries)).sorted = Json.object (given (entries.map sortedEntry)) := by
  have hgiven : (given entries).map (fun field => (field.1, field.2.sorted)) =
      given (entries.map sortedEntry) := by
    induction entries with
    | nil => rfl
    | cons entry rest ih =>
      rw [given_cons, List.map_append, ih, List.map_cons, sortedEntry, given_cons]
      cases entry.2 <;> rfl
  rw [Json.sorted, Json.sortedFields_eq_map, hgiven]

theorem map_sorted_eq {v? : Option Json} (h : ∀ v, v? = some v → v.Ordered) :
    v?.map Json.sorted = v? := by
  cases v? with
  | none => rfl
  | some v => exact congrArg some (h v rfl).sorted_eq

/-- A field that may be left out, where the values are in order. -/
theorem map_map_sorted_eq {α : Type} {write : α → Json} {x? : Option α}
    (h : ∀ x, x? = some x → (write x).Ordered) : (x?.map write).map Json.sorted = x?.map write := by
  refine map_sorted_eq fun v hv => ?_
  obtain ⟨x, hx, rfl⟩ := Option.map_eq_some_iff.1 hv
  exact h x hx

theorem Loop.sorted_encode {l : Loop} (h : ∀ p, l.key = some p → p.toJson.Ordered) :
    (l.encode Json.obj).sorted = l.encode Json.object := by
  have hsource : l.source.toJson.sorted = l.source.toJson := by
    cases l.source with
    | ref r => exact r.ordered_toJson.sorted_eq
    | path text => rfl
  have hindex : (l.index.map Json.str).map Json.sorted = l.index.map .str :=
    map_map_sorted_eq fun name _ => .str name
  have hkey := map_map_sorted_eq h
  rw [encode_eq, encode_eq, sorted_obj_given]
  simp only [entries, List.map_cons, List.map_nil, sortedEntry, Option.map_some, hsource, hindex,
    hkey, Json.sorted]

theorem LinkTarget.sorted_encode {t : LinkTarget}
    (h : ∀ ui params, t = target ui (some params) → (Json.obj params).Ordered) :
    (t.encode Json.obj).sorted = t.encode Json.object := by
  cases t with
  | ref r => exact r.ordered_toJson.sorted_eq
  | path text => rfl
  | target ui params =>
    have hparams : (params.map Json.obj).map Json.sorted = params.map Json.obj :=
      map_map_sorted_eq fun fields hfields => h ui fields (hfields ▸ rfl)
    rw [encode_target, encode_target, sorted_obj_given]
    simp only [entries, List.map_cons, List.map_nil, sortedEntry, Option.map_some, hparams,
      Json.sorted]

theorem Component.sorted_entries {c : Component} (h : c.Ordered) :
    c.entries.map sortedEntry = c.entries := by
  have hname : (c.name.map Json.str).map Json.sorted = c.name.map .str :=
    map_map_sorted_eq fun name _ => .str name
  have hprops := map_map_sorted_eq h.props
  have hmethods := map_map_sorted_eq h.methods
  have heffects := map_map_sorted_eq h.effects
  simp only [entries, List.map_cons, List.map_nil, sortedEntry, Option.map_some, hname, hprops,
    hmethods, heffects, map_sorted_eq h.data, map_sorted_eq h.states, Json.sorted]

/-- The fields of an element are in order as soon as the nodes below it are. -/
theorem Element.sorted_entries {e : Element} (h : e.Ordered)
    (hitems : ∀ items, e.children = some items →
      Json.sortedItems (Node.encodeItems Json.obj items) = Node.encodeItems Json.object items)
    (hbranch : ∀ b, e.otherwise = some b →
      (Node.encodeBranch Json.obj b).sorted = Node.encodeBranch Json.object b) :
    (e.entries Json.obj).map sortedEntry = e.entries Json.object := by
  have hchildren : (e.children.map fun items => Json.arr (Node.encodeItems Json.obj items)).map
      Json.sorted = e.children.map fun items => .arr (Node.encodeItems Json.object items) := by
    rw [Option.map_map]
    exact Option.map_congr fun items hc => congrArg Json.arr (hitems items hc)
  have helse : (e.otherwise.map (Node.encodeBranch Json.obj)).map Json.sorted =
      e.otherwise.map (Node.encodeBranch Json.object) := by
    rw [Option.map_map]
    exact Option.map_congr hbranch
  have hfor : (e.loop.map (Loop.encode Json.obj)).map Json.sorted =
      e.loop.map (Loop.encode Json.object) := by
    rw [Option.map_map]
    exact Option.map_congr fun l hl => Loop.sorted_encode fun p => h.loopKey l p hl
  have hlink : (e.link.map (LinkTarget.encode Json.obj)).map Json.sorted =
      e.link.map (LinkTarget.encode Json.object) := by
    rw [Option.map_map]
    exact Option.map_congr fun t ht => LinkTarget.sorted_encode fun ui params heq =>
      h.params ui params (heq ▸ ht)
  simp only [entries, List.map_cons, List.map_nil, sortedEntry, Option.map_some,
    map_sorted_eq h.props, hchildren, map_map_sorted_eq h.condition, map_map_sorted_eq h.elseIf,
    helse, hfor, map_map_sorted_eq h.key, hlink, map_map_sorted_eq h.platform, Json.sorted]

namespace Node

mutual

/-- Bringing the written form of a tree into order gives its value. -/
theorem sorted_encode : ∀ n : Node, (∀ p ∈ n.pieces, p.Ordered) →
    (encode Json.obj n).sorted = n.toJson
  | ⟨none, element⟩, h => by
    rw [encode_eq, toJson, encode_eq, sorted_obj_given, entries, List.map_cons,
      sorted_entries element h]
    rfl
  | ⟨some component, element⟩, h => by
    obtain ⟨hc, helement⟩ := List.forall_mem_cons.1 h
    have hc : component.Ordered := ⟨hc.data, hc.props, hc.states, hc.methods, hc.effects⟩
    have hkind : sortedEntry ("kind", some (.str "component")) =
        ("kind", some (.str "component")) := rfl
    have hrender : sortedEntry ("render", some (.obj (encodeElement Json.obj element))) =
        ("render", some (Json.object (encodeElement Json.object element))) := by
      rw [encodeElement_eq, sortedEntry, Option.map_some, sorted_obj_given,
        sorted_entries element helement, encodeElement_eq]
    rw [encode_eq, toJson, encode_eq, sorted_obj_given]
    simp only [entries, List.map_append, List.map_cons, List.map_nil, Component.sorted_entries hc,
      hkind, hrender]

theorem sorted_entries : ∀ e : Element, (∀ p ∈ piecesOfElement e, p.Ordered) →
    (e.entries Json.obj).map sortedEntry = e.entries Json.object
  | ⟨id, type, props, children, condition, elseIf, otherwise, loop, key, link, platform⟩, h => by
    obtain ⟨halone, hbranch, hitems⟩ := forall_piecesOfElement_iff.1 h
    refine Element.sorted_entries ?_ ?_ ?_
    · exact ⟨halone.props, halone.condition, halone.elseIf, halone.key, halone.loopKey,
        halone.params, halone.platform⟩
    · cases children with
      | none => nofun
      | some items =>
        rintro _ ⟨⟩
        exact sortedItems_encodeItems items (hitems items rfl)
    · cases otherwise with
      | none => nofun
      | some branch =>
        rintro _ ⟨⟩
        exact sorted_encodeBranch branch (hbranch branch rfl)

theorem sortedItems_encodeItems : ∀ items : List ChildItem, (∀ p ∈ piecesOfItems items, p.Ordered) →
    Json.sortedItems (encodeItems Json.obj items) = encodeItems Json.object items
  | [], _ => rfl
  | item :: rest, h => by
    obtain ⟨hitem, hrest⟩ := List.forall_mem_append.1 h
    rw [encodeItems, Json.sortedItems, sorted_encodeItem item hitem,
      sortedItems_encodeItems rest hrest, encodeItems]

theorem sorted_encodeItem : ∀ item : ChildItem, (∀ p ∈ piecesOfItem item, p.Ordered) →
    (encodeItem Json.obj item).sorted = encodeItem Json.object item
  | .text _, _ => rfl
  | .ref r, _ => r.ordered_toJson.sorted_eq
  | .node n, h => sorted_encode n h
  | .other _, h => Json.Ordered.sorted_eq (h _ (List.mem_singleton_self _))

theorem sorted_encodeBranch : ∀ b : ElseBranch, (∀ p ∈ piecesOfBranch b, p.Ordered) →
    (encodeBranch Json.obj b).sorted = encodeBranch Json.object b
  | .flag _, _ => rfl
  | .node n, h => sorted_encode n h

end

end Node

end SchemaCanvas
