import SchemaCanvas.Proofs.Schema.Fields

/-!
# The pieces of a tree

What a tree is made of, apart from its ids and from the way in which its nodes are put together.
Many properties of a tree hold as soon as they hold of every piece of it, and a change of ids keeps
the pieces.

* `Node.pieces` lists the pieces of a tree;
* `Node.pieces_mapIds` : a traversal that changes ids keeps them;
* `ReadInvariant.forall_of_ofJson` : what holds of everything that is read by itself holds of all
  pieces of a tree that is read.
-/

namespace SchemaCanvas

/-- An element without its id and without the nodes below it. -/
def Element.alone (e : Element) : Element :=
  { e with id := "", children := none, otherwise := none }

/-- A piece of a tree. -/
inductive Piece where
  /-- what makes a component, without its id -/
  | component (c : Component)
  /-- an element without its id and without the nodes below it -/
  | element (e : Element)
  /-- an entry of a list of children that is no node -/
  | item (item : ChildItem)

namespace Node

mutual

/-- All pieces of a tree. -/
def pieces : Node → List Piece
  | ⟨none, element⟩ => piecesOfElement element
  | ⟨some component, element⟩ => .component { component with id := "" } :: piecesOfElement element

/-- All pieces of the tree of an element. -/
def piecesOfElement : Element → List Piece
  | ⟨_, type, props, children, condition, elseIf, otherwise, loop, key, link, platform⟩ =>
    .element ⟨"", type, props, none, condition, elseIf, none, loop, key, link, platform⟩ ::
      ((match otherwise with
        | some branch => piecesOfBranch branch
        | none => []) ++
      (match children with
        | some items => piecesOfItems items
        | none => []))

/-- All pieces of an `else` branch. -/
def piecesOfBranch : ElseBranch → List Piece
  | .node n => pieces n
  | .flag _ => []

/-- All pieces of a list of children. -/
def piecesOfItems : List ChildItem → List Piece
  | [] => []
  | item :: rest => piecesOfItem item ++ piecesOfItems rest

/-- All pieces of an entry. -/
def piecesOfItem : ChildItem → List Piece
  | .node n => pieces n
  | item => [.item item]

end

theorem piecesOfElement_withId (e : Element) (id : String) :
    piecesOfElement { e with id } = piecesOfElement e := by
  cases e
  rfl

/-- All pieces of an element: itself, and those of the nodes below it. -/
theorem forall_piecesOfElement_iff {P : Piece → Prop} {e : Element} :
    (∀ p ∈ piecesOfElement e, P p) ↔ P (.element e.alone) ∧
      (∀ b, e.otherwise = some b → ∀ p ∈ piecesOfBranch b, P p) ∧
      ∀ items, e.children = some items → ∀ p ∈ piecesOfItems items, P p := by
  obtain ⟨_, _, _, children, _, _, otherwise, _, _, _, _⟩ := e
  cases otherwise <;> cases children <;>
    simp [piecesOfElement, Element.alone, or_imp, forall_and]

section

variable {σ : Type} (f : IdRole → String → String → StateM σ String)

mutual

/-- **Changing the ids of a tree keeps its pieces.** -/
theorem pieces_mapIds : ∀ (n : Node) (s : σ), (n.mapIds f s).1.pieces = n.pieces
  | ⟨none, element⟩, s => by
    refine (piecesOfElement_withId _ (f .node element.type element.id s).1).trans ?_
    exact piecesOfElement_mapIdsBelow element _
  | ⟨some component, element⟩, s => by
    let inner := f .render element.type element.id (f .node element.type component.id s).2
    refine congrArg (List.cons _) ((piecesOfElement_withId _ inner.1).trans ?_)
    exact piecesOfElement_mapIdsBelow element inner.2

theorem piecesOfElement_mapIdsBelow : ∀ (e : Element) (s : σ),
    piecesOfElement (mapIdsBelow f e s).1 = piecesOfElement e
  | ⟨_, _, _, none, _, _, none, _, _, _, _⟩, s => rfl
  | ⟨_, _, _, some items, _, _, none, _, _, _, _⟩, s =>
    congrArg (List.cons _) (piecesOfItems_mapIds items s)
  | ⟨_, _, _, none, _, _, some branch, _, _, _, _⟩, s =>
    congrArg (fun pieces => _ :: (pieces ++ [])) (piecesOfBranch_mapIds branch s)
  | ⟨_, _, _, some items, _, _, some branch, _, _, _, _⟩, s => by
    refine congrArg (List.cons _) ?_
    change piecesOfBranch (mapIdsOfBranch f branch s).1 ++ piecesOfItems _ = _
    rw [piecesOfBranch_mapIds branch s, piecesOfItems_mapIds items]

theorem piecesOfBranch_mapIds : ∀ (b : ElseBranch) (s : σ),
    piecesOfBranch (mapIdsOfBranch f b s).1 = piecesOfBranch b
  | .node n, s => pieces_mapIds n s
  | .flag _, _ => rfl

theorem piecesOfItems_mapIds : ∀ (items : List ChildItem) (s : σ),
    piecesOfItems (mapIdsOfItems f items s).1 = piecesOfItems items
  | [], _ => rfl
  | item :: rest, s => by
    change piecesOfItem (mapIdsOfItem f item s).1 ++ piecesOfItems _ = _
    rw [piecesOfItem_mapIds item s, piecesOfItems_mapIds rest, piecesOfItems]

theorem piecesOfItem_mapIds : ∀ (item : ChildItem) (s : σ),
    piecesOfItem (mapIdsOfItem f item s).1 = piecesOfItem item
  | .node n, s => pieces_mapIds n s
  | .text _, _ => rfl
  | .ref _, _ => rfl
  | .other _, _ => rfl

end

end

/-- A loaded tree is made of the pieces that are read. -/
theorem pieces_ensureIds (next : Nat) (n : Node) : (n.ensureIds next).1.pieces = n.pieces :=
  pieces_mapIds _ n _

end Node

/-! ### Pieces that are read -/

theorem mem_of_lookup {α : Type} {entries : Entries α} {name : String} {v : α}
    (h : entries.lookup name = some v) : (name, v) ∈ entries := by
  obtain ⟨before, after, rfl, -⟩ := List.lookup_eq_some_iff.1 h
  exact List.mem_append_right _ List.mem_cons_self

/-- `P` holds of what is read of a node by itself, if `Q` holds of the value from which it is read,
and `Q` goes down to the values inside. -/
structure ReadInvariant (Q : Json → Prop) (P : Piece → Prop) : Prop where
  items : ∀ items, Q (.arr items) → ∀ v ∈ items, Q v
  fields : ∀ fields, Q (.obj fields) → ∀ field ∈ fields, Q field.2
  element : ∀ fields parts e, (∀ name v, fields.lookup name = some v → Q v) →
    Element.ofFields? fields parts = some e → P (.element e.alone)
  component : ∀ fields c, (∀ name v, fields.lookup name = some v → Q v) →
    Component.ofFields? fields = some c → P (.component { c with id := "" })
  item : ∀ v, Q v → (Node.childItem v).node? = none → P (.item (Node.childItem v))

/-- `P` holds of all pieces in the parts of a record. -/
structure Parts.Forall (P : Piece → Prop) (parts : Parts) : Prop where
  children : ∀ items, parts.children = some items → ∀ p ∈ Node.piecesOfItems items, P p
  otherwise : ∀ b, parts.otherwise = some (some b) → ∀ p ∈ Node.piecesOfBranch b, P p
  render : ∀ e, parts.render = some e → ∀ p ∈ Node.piecesOfElement e, P p

theorem Parts.forall_default {P : Piece → Prop} : ({} : Parts).Forall P := by
  constructor <;>
    · intro x h
      cases h

namespace ReadInvariant

variable {Q : Json → Prop} {P : Piece → Prop} {fields : Entries Json} {parts : Parts}

theorem forall_piecesOfElement (inv : ReadInvariant Q P)
    (hfields : ∀ name v, fields.lookup name = some v → Q v) (hparts : parts.Forall P) {e : Element}
    (h : Element.ofFields? fields parts = some e) : ∀ p ∈ Node.piecesOfElement e, P p := by
  have halone := inv.element fields parts e hfields h
  obtain ⟨-, -, -, hchildren, -, -, hotherwise, -⟩ := Element.ofFields?_eq_some_iff.1 h
  refine Node.forall_piecesOfElement_iff.2 ⟨halone, fun b hb => ?_, fun items hitems => ?_⟩
  · exact hparts.otherwise b (hotherwise.trans (congrArg some hb))
  · exact hparts.children items (hchildren.trans hitems)

theorem forall_pieces (inv : ReadInvariant Q P)
    (hfields : ∀ name v, fields.lookup name = some v → Q v) (hparts : parts.Forall P) {n : Node}
    (h : Node.ofFields? fields parts = some n) : ∀ p ∈ n.pieces, P p := by
  obtain ⟨-, c, e, rfl, hc, he⟩ | ⟨-, e, rfl, he⟩ := Node.cases_of_ofFields? h
  · exact List.forall_mem_cons.2 ⟨inv.component fields c hfields hc, hparts.render e he⟩
  · exact inv.forall_piecesOfElement hfields hparts he

theorem forall_objectItem (inv : ReadInvariant Q P) (hv : Q (.obj fields))
    (hparts : (Node.parts fields).Forall P) :
    ∀ p ∈ Node.piecesOfItem (Node.objectItem fields (Node.parts fields)), P p := by
  have hfields := inv.fields fields hv
  have hitem := inv.item (.obj fields) hv
  change (Node.objectItem fields (Node.parts fields)).node? = none →
    P (.item (Node.objectItem fields (Node.parts fields))) at hitem
  rw [Node.objectItem] at hitem ⊢
  split at hitem
  · exact List.forall_mem_singleton.2 (hitem rfl)
  · next hn => exact inv.forall_pieces (fun name v h => hfields _ (mem_of_lookup h)) hparts hn
  · exact List.forall_mem_singleton.2 (hitem rfl)

theorem forall_childItem_of_not_obj (inv : ReadInvariant Q P) {v : Json} (hv : Q v)
    (h : ∀ fields, v ≠ .obj fields) : ∀ p ∈ Node.piecesOfItem (Node.childItem v), P p := by
  have hnode : (Node.childItem v).node? = none := by
    rw [Node.childItem_eq_plainItem h, Node.plainItem.eq_def]
    split
    · rfl
    · cases DataRef.ofJson? v <;> rfl
  have hitem := inv.item v hv hnode
  cases hkind : Node.childItem v with
  | node n => rw [hkind] at hnode; cases hnode
  | text | ref | other =>
    rw [hkind] at hitem
    exact List.forall_mem_singleton.2 hitem

mutual

theorem forall_parts (inv : ReadInvariant Q P) : ∀ fields : List (String × Json),
    (∀ field ∈ fields, Q field.2) → (Node.parts fields).Forall P
  | [], _ => Parts.forall_default
  | (name, v) :: rest, h => by
    obtain ⟨hv, hrest⟩ := List.forall_mem_cons.1 h
    have hrest := forall_parts inv rest hrest
    rw [Node.parts]
    split_ifs
    · exact ⟨fun items => forall_childList inv v hv, hrest.otherwise, hrest.render⟩
    · exact ⟨hrest.children, fun b => forall_otherwise inv v hv, hrest.render⟩
    · exact ⟨hrest.children, hrest.otherwise, fun e => forall_element inv v hv⟩
    · exact hrest

theorem forall_partsByPosition (inv : ReadInvariant Q P) : ∀ (names : List String)
    (items : List Json), (∀ v ∈ items, Q v) → (Node.partsByPosition names items).Forall P
  | [], [], _ | [], _ :: _, _ | _ :: _, [], _ => Parts.forall_default
  | name :: names, v :: rest, h => by
    obtain ⟨hv, hrest⟩ := List.forall_mem_cons.1 h
    have hrest := forall_partsByPosition inv names rest hrest
    rw [Node.partsByPosition]
    split_ifs
    · exact ⟨fun items => forall_childList inv v hv, hrest.otherwise, hrest.render⟩
    · exact ⟨hrest.children, fun b => forall_otherwise inv v hv, hrest.render⟩
    · exact hrest

theorem forall_childList (inv : ReadInvariant Q P) : ∀ v : Json, Q v → ∀ {items : List ChildItem},
    Node.childList v = some items → ∀ p ∈ Node.piecesOfItems items, P p
  | .null, _, _, h => by cases h
  | .arr vs, hv, _, h => by
    obtain rfl := Option.some.inj h
    exact forall_childItems inv vs (inv.items vs hv)
  | .obj fields, hv, _, h => by
    obtain rfl := Option.some.inj h
    rw [Node.piecesOfItems, Node.piecesOfItems, List.append_nil]
    exact inv.forall_objectItem hv (forall_parts inv fields (inv.fields fields hv))
  | .bool _, hv, _, h | .num _, hv, _, h | .str _, hv, _, h => by
    obtain rfl := Option.some.inj h
    rw [Node.piecesOfItems, Node.piecesOfItems, List.append_nil]
    exact inv.forall_childItem_of_not_obj hv nofun

theorem forall_childItems (inv : ReadInvariant Q P) : ∀ vs : List Json, (∀ v ∈ vs, Q v) →
    ∀ p ∈ Node.piecesOfItems (Node.childItems vs), P p
  | [], _ => List.forall_mem_nil _
  | v :: rest, h =>
    have h := List.forall_mem_cons.1 h
    List.forall_mem_append.2 ⟨forall_childItem inv v h.1, forall_childItems inv rest h.2⟩

theorem forall_childItem (inv : ReadInvariant Q P) : ∀ v : Json, Q v →
    ∀ p ∈ Node.piecesOfItem (Node.childItem v), P p
  | .obj fields, hv => inv.forall_objectItem hv (forall_parts inv fields (inv.fields fields hv))
  | .null, hv | .bool _, hv | .num _, hv | .str _, hv | .arr _, hv =>
    inv.forall_childItem_of_not_obj hv nofun

theorem forall_otherwise (inv : ReadInvariant Q P) : ∀ v : Json, Q v → ∀ {b : ElseBranch},
    Node.otherwise? v = some (some b) → ∀ p ∈ Node.piecesOfBranch b, P p
  | .bool _, _, _, h => by
    cases h
    exact List.forall_mem_nil _
  | .obj fields, hv, _, h => by
    obtain ⟨n, hn, heq⟩ := Option.map_eq_some_iff.1 h
    obtain rfl := Option.some.inj heq
    have hfields := inv.fields fields hv
    exact inv.forall_pieces (fun name v h => hfields _ (mem_of_lookup h))
      (forall_parts inv fields hfields) hn
  | .null, _, _, h | .num _, _, _, h | .str _, _, _, h | .arr _, _, _, h => by cases h

theorem forall_element (inv : ReadInvariant Q P) : ∀ v : Json, Q v → ∀ {e : Element},
    Node.element? v = some e → ∀ p ∈ Node.piecesOfElement e, P p
  | .obj fields, hv, _, h => by
    have hfields := inv.fields fields hv
    exact inv.forall_piecesOfElement (fun name v h => hfields _ (mem_of_lookup h))
      (forall_parts inv fields hfields) h
  | .arr vs, hv, _, h => by
    have hitems := inv.items vs hv
    rw [Node.element?] at h
    split_ifs at h
    refine inv.forall_piecesOfElement (fun name v h => ?_)
      (forall_partsByPosition inv Element.fieldNames vs hitems) h
    exact hitems v (List.of_mem_zip (mem_of_lookup h)).2
  | .null, _, _, h | .bool _, _, _, h | .num _, _, _, h | .str _, _, _, h => by cases h

end

/-- **What holds of everything that is read holds of all pieces of a tree that is read.** -/
theorem forall_of_ofJson (inv : ReadInvariant Q P) {v : Json} (hv : Q v) {n : Node}
    (h : Node.ofJson v = .ok n) : ∀ p ∈ n.pieces, P p := by
  cases v with
  | obj fields =>
    have hfields := inv.fields fields hv
    exact inv.forall_pieces (fun name v h => hfields _ (mem_of_lookup h))
      (inv.forall_parts fields hfields) (Node.ofJson_obj_eq_ok_iff.1 h)
  | null | bool | num | str | arr => cases h

end ReadInvariant

end SchemaCanvas
