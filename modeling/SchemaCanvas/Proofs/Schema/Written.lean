import SchemaCanvas.Proofs.Schema.Literals
import SchemaCanvas.Proofs.Schema.Fields

/-!
# The fields that are written

A record is written as its fields, all of different names, without those that are not given. What is
found under a name in the written object is then the value of that field, whatever the order.

* `Loop.entries`, `Element.entries` and `Component.entries` list the fields with what they hold;
* `given` leaves out those that hold nothing, `lookup_ofList_given` finds the others again.
-/

namespace SchemaCanvas

/-! ### Fields that are given -/

/-- The fields that are written, those that hold something. -/
def given (entries : List (String × Option Json)) : List (String × Json) :=
  entries.flatMap fun entry => givenField entry.1 entry.2

section

variable {entries : List (String × Option Json)}

theorem given_cons (name : String) (v : Option Json) (entries : List (String × Option Json)) :
    given ((name, v) :: entries) = givenField name v ++ given entries := List.flatMap_cons

theorem names_givenField_sublist (name : String) (v : Option Json) :
    ((givenField name v).map Prod.fst).Sublist [name] := by
  cases v with
  | none => exact List.nil_sublist _
  | some v => exact List.Sublist.refl _

theorem names_given_sublist (entries : List (String × Option Json)) :
    ((given entries).map Prod.fst).Sublist (entries.map Prod.fst) := by
  induction entries with
  | nil => exact List.Sublist.refl _
  | cons entry rest ih =>
    rw [given_cons, List.map_append]
    exact (names_givenField_sublist entry.1 entry.2).append ih

namespace Entries

variable {α : Type} {pairs : List (String × α)} {name : String}

theorem lookup_eq_none (h : name ∉ pairs.map Prod.fst) : pairs.lookup name = none :=
  List.lookup_eq_none_iff.2 fun pair hpair => bne_iff_ne.2 fun heq =>
    h (List.mem_map.2 ⟨pair, hpair, heq.symm⟩)

/-- Among fields of different names the order does not matter. -/
theorem lookup_ofList_of_nodup (h : (pairs.map Prod.fst).Nodup) (name : String) :
    (ofList pairs).lookup name = pairs.lookup name := by
  rw [lookup_ofList]
  induction pairs with
  | nil => rfl
  | cons pair rest ih =>
    obtain ⟨k, v⟩ := pair
    obtain ⟨hk, hrest⟩ := List.nodup_cons.1 h
    rw [List.reverse_cons, List.lookup_append, ih hrest, List.lookup_cons]
    by_cases heq : name = k
    · subst heq
      rw [lookup_eq_none hk]
      simp
    · rw [beq_eq_false_iff_ne.2 heq]
      simp [List.lookup_cons, beq_eq_false_iff_ne.2 heq]

end Entries

theorem lookup_given (h : (entries.map Prod.fst).Nodup) :
    ∀ entry ∈ entries, (given entries).lookup entry.1 = entry.2 := by
  induction entries with
  | nil => exact List.forall_mem_nil _
  | cons entry rest ih =>
    obtain ⟨name, v⟩ := entry
    obtain ⟨hname, hrest⟩ := List.nodup_cons.1 h
    have hfirst : (given rest).lookup name = none :=
      Entries.lookup_eq_none fun hmem => hname ((names_given_sublist rest).subset hmem)
    refine List.forall_mem_cons.2 ⟨?_, fun entry hentry => ?_⟩
    · -- no later field has this name, so it is not found if it holds nothing
      rw [given_cons, List.lookup_append, hfirst]
      cases v <;> simp [givenField]
    · have hne : entry.1 ≠ name := fun heq => hname (List.mem_map.2 ⟨entry, hentry, heq⟩)
      rw [given_cons, List.lookup_append, ih hrest entry hentry]
      cases v <;> simp [givenField, List.lookup_cons, beq_eq_false_iff_ne.2 hne]

/-- **A written object holds under every name what the record holds there.** -/
theorem lookup_ofList_given (entries : List (String × Option Json))
    (h : (entries.map Prod.fst).Nodup) :
    ∀ entry ∈ entries, (Entries.ofList (given entries)).lookup entry.1 = entry.2 := by
  intro entry hentry
  rw [Entries.lookup_ofList_of_nodup ((names_given_sublist entries).nodup h),
    lookup_given h entry hentry]

theorem lookup_ofList_given_eq_none {name : String} (h : name ∉ entries.map Prod.fst) :
    (Entries.ofList (given entries)).lookup name = none := by
  rw [Entries.lookup_ofList]
  refine Entries.lookup_eq_none fun hmem => h ((names_given_sublist entries).subset ?_)
  rwa [List.map_reverse, List.mem_reverse] at hmem

/-- A written object is no reference, if the record has no field of a reference. -/
theorem DataRef.ofJson?_object_given (hexp : "$exp" ∉ entries.map Prod.fst)
    (hbind : "$bind" ∉ entries.map Prod.fst) : ofJson? (Json.object (given entries)) = none := by
  rw [Json.object, ofJson?, expression?_obj, path?_obj, lookup_ofList_given_eq_none hexp,
    lookup_ofList_given_eq_none hbind]
  rfl

end

/-! ### The fields of a tree -/

section

variable (record : List (String × Json) → Json)

/-- The fields of a loop. -/
def Loop.entries (l : Loop) : List (String × Option Json) :=
  [("in", some l.source.toJson), ("as", some (.str l.item)), ("index", l.index.map .str),
    ("key", l.key.map PropValue.toJson)]

theorem Loop.encode_eq (l : Loop) : l.encode record = record (given l.entries) := by
  rw [encode, entries]
  simp [given, givenField]

/-- The fields of a link target with parameters. -/
def LinkTarget.entries (ui : String) (params : Option (Entries Json)) :
    List (String × Option Json) :=
  [("ui", some (.str ui)), ("params", params.map .obj)]

theorem LinkTarget.encode_target (ui : String) (params : Option (SchemaCanvas.Entries Json)) :
    (target ui params).encode record = record (given (entries ui params)) := by
  rw [encode, entries]
  simp [given, givenField]

/-- Props as a value, if there are any. -/
def propsValue (props : Entries PropValue) : Option Json :=
  if props.isEmpty then none else some (.obj (props.map fun prop => (prop.1, prop.2.toJson)))

/-- The fields of an element. -/
def Element.entries (e : Element) : List (String × Option Json) :=
  [("id", some (.str e.id)), ("type", some (.str e.type)), ("props", propsValue e.props),
    ("children", e.children.map fun items => .arr (Node.encodeItems record items)),
    ("if", e.condition.map PropValue.toJson), ("elseIf", e.elseIf.map PropValue.toJson),
    ("else", e.otherwise.map (Node.encodeBranch record)), ("for", e.loop.map (Loop.encode record)),
    ("key", e.key.map PropValue.toJson), ("link-to", e.link.map (LinkTarget.encode record)),
    ("platform", e.platform.map .obj)]

/-- The fields of a component without its element. -/
def Component.entries (c : Component) : List (String × Option Json) :=
  [("id", some (.str c.id)), ("name", c.name.map .str), ("data", c.data),
    ("props", c.props.map .obj), ("states", c.states), ("methods", c.methods.map .obj),
    ("effects", c.effects.map .arr)]

theorem Node.encodeElement_eq (e : Element) :
    encodeElement record e = given (e.entries record) := by
  obtain ⟨_, _, props, children, _, _, otherwise, _, _, _, _⟩ := e
  cases props <;> cases children <;> cases otherwise <;>
    simp [encodeElement, Element.entries, given, propsField, propsValue, givenField]

theorem Component.encodeFields_eq (c : Component) : c.encodeFields = given c.entries := by
  rw [encodeFields, entries]
  simp [given, givenField]

namespace Node

/-- The fields of a node. -/
def entries : Node → List (String × Option Json)
  | ⟨none, element⟩ => ("kind", some (.str "element")) :: element.entries record
  | ⟨some component, element⟩ =>
    ("kind", some (.str "component")) :: component.entries ++
      [("render", some (record (encodeElement record element)))]

theorem encode_eq (n : Node) : encode record n = record (given (n.entries record)) := by
  obtain ⟨component, element⟩ := n
  cases component with
  | none =>
    rw [encode, encodeElement_eq]
    rfl
  | some component =>
    rw [encode, Component.encodeFields_eq, entries]
    simp [given, givenField]

end Node

end

end SchemaCanvas
