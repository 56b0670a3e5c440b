import SchemaCanvas.Json.Printer
import SchemaCanvas.Schema.Node

/-!
# Schema trees as JSON

`Node.ofJson` reads a tree from a value and `Node.toJson` writes it. Reading is lenient where that
can do no harm: unknown fields are skipped, null counts as an absent field where a field may be
absent, a single child stands for a list of it, and a child that cannot be read is kept as a value.
Everything else that does not fit makes the enclosing node unreadable. The kind of a node may be
left out; a field `render` then makes it a component.

Objects are read in one walk over their fields. `Parts` holds what the walk has found of the fields
that hold nodes themselves; the other fields are looked up afterwards.
-/

namespace SchemaCanvas

/-- Why a value is no node. -/
inductive NodeFault where
  | notObject
  | unknownKind (kind : String)
  /-- a field is missing or does not fit -/
  | misfit
deriving DecidableEq

/-- The text of a fault, if it has one of its own. -/
def NodeFault.message? : NodeFault → Option String
  | notObject => some "schema node must be an object"
  | unknownKind kind => some s!"unknown node kind '{kind}'"
  | misfit => none

/-! ### Reading -/

/-- A text field that must be there. -/
def requiredText? (fields : Entries Json) (name : String) : Option String :=
  (fields.lookup name).bind Json.text?

/-- A text field that is empty if it is left out. Null is no text. -/
def defaultText? (fields : Entries Json) (name : String) : Option String :=
  match fields.lookup name with
  | none => some ""
  | some v => v.text?

/-- A source read from a value. -/
def LoopSource.ofJson? (v : Json) : Option LoopSource :=
  (DataRef.ofJson? v).map ref <|> v.text?.map path

/-- A loop read from a record. -/
def Loop.ofJson? (v : Json) : Option Loop := do
  let fields ← v.record? ["in", "as", "index", "key"]
  let source ← (fields.lookup "in").bind LoopSource.ofJson?
  let item ← requiredText? fields "as"
  let index ← optionalField Json.text? fields "index"
  let key ← optionalField (some ∘ PropValue.ofJson) fields "key"
  some { source, item, index, key }

/-- A target with parameters, which must be an object. -/
def LinkTarget.target? (v : Json) : Option LinkTarget := do
  let fields ← v.fields?
  let ui ← requiredText? fields "ui"
  let params ← optionalField Json.fields? fields "params"
  some (target ui params)

/-- A link target read from a value. -/
def LinkTarget.ofJson? (v : Json) : Option LinkTarget :=
  (DataRef.ofJson? v).map ref <|> target? v <|> v.text?.map path

/-- Props read from the fields of a record. -/
def props? (fields : Entries Json) : Option (Entries PropValue) :=
  match fields.lookup "props" with
  | none => some []
  | some (.obj props) => some (props.map fun (name, v) => (name, PropValue.ofJson v))
  | some _ => none

/-- What the fields of a record hold that are made of nodes. A field that is not there is as good
as one that holds null. -/
structure Parts where
  children : Option (List ChildItem) := none
  /-- nothing, if the branch cannot be read -/
  otherwise : Option (Option ElseBranch) := some none
  /-- nothing, if there is no element or it cannot be read -/
  render : Option Element := none

/-- The fields of an element, in order. -/
def Element.fieldNames : List String :=
  ["id", "type", "props", "children", "if", "elseIf", "else", "for", "key", "link-to", "platform"]

/-- An element from its fields. -/
def Element.ofFields? (fields : Entries Json) (parts : Parts) : Option Element := do
  let id ← defaultText? fields "id"
  let type ← requiredText? fields "type"
  let props ← props? fields
  let condition ← optionalField (some ∘ PropValue.ofJson) fields "if"
  let elseIf ← optionalField (some ∘ PropValue.ofJson) fields "elseIf"
  let otherwise ← parts.otherwise
  let loop ← optionalField Loop.ofJson? fields "for"
  let key ← optionalField (some ∘ PropValue.ofJson) fields "key"
  let link ← optionalField LinkTarget.ofJson? fields "link-to"
  let platform ← optionalField Json.fields? fields "platform"
  some { id, type, props, children := parts.children, condition, elseIf, otherwise, loop, key,
         link, platform }

/-- What makes a component, from its fields. -/
def Component.ofFields? (fields : Entries Json) : Option Component := do
  let id ← defaultText? fields "id"
  let name ← optionalField Json.text? fields "name"
  let data ← optionalField some fields "data"
  let props ← optionalField Json.fields? fields "props"
  let states ← optionalField some fields "states"
  let methods ← optionalField Json.fields? fields "methods"
  let effects ← optionalField Json.items? fields "effects"
  some { id, name, data, props, states, methods, effects }

namespace Node

/-- The kind of node that fields describe. -/
def kindOf (fields : Entries Json) : String :=
  match fields.lookup "kind" with
  | some (.str kind) => kind
  | _ => if (fields.lookup "render").isSome then "component" else "element"

/-- A node from its fields. -/
def ofFields (fields : Entries Json) (parts : Parts) : Except NodeFault Node :=
  match kindOf fields with
  | "component" =>
    match Component.ofFields? fields, parts.render with
    | some component, some element => .ok { component, element }
    | _, _ => .error .misfit
  | "element" =>
    match Element.ofFields? fields parts with
    | some element => .ok { element }
    | none => .error .misfit
  | kind => .error (.unknownKind kind)

/-- A node from its fields, if they fit. -/
def ofFields? (fields : Entries Json) (parts : Parts) : Option Node :=
  (ofFields fields parts).toOption

/-- A child that is no object. -/
def plainItem (v : Json) : ChildItem :=
  match v with
  | .str s => .text s
  | v => ((DataRef.ofJson? v).map ChildItem.ref).getD (.other v)

/-- A child that is an object. -/
def objectItem (fields : Entries Json) (parts : Parts) : ChildItem :=
  match DataRef.ofJson? (.obj fields), ofFields? fields parts with
  | some r, _ => .ref r
  | none, some n => .node n
  | none, none => .other (.obj fields)

mutual

/-- The parts among the fields of an object. The first field of a name counts. -/
def parts : List (String × Json) → Parts
  | [] => {}
  | (name, v) :: rest =>
    if name = "children" then { parts rest with children := childList v }
    else if name = "else" then { parts rest with otherwise := otherwise? v }
    else if name = "render" then { parts rest with render := element? v }
    else parts rest

/-- The parts among the fields of an element that are given by position. -/
def partsByPosition : List String → List Json → Parts
  | name :: names, v :: rest =>
    if name = "children" then { partsByPosition names rest with children := childList v }
    else if name = "else" then { partsByPosition names rest with otherwise := otherwise? v }
    else partsByPosition names rest
  | _, _ => {}

/-- A list of children; null is none. -/
def childList : Json → Option (List ChildItem)
  | .null => none
  | .arr items => some (childItems items)
  | .obj fields => some [objectItem fields (parts fields)]
  | v => some [plainItem v]

/-- The entries of a list of children. -/
def childItems : List Json → List ChildItem
  | [] => []
  | v :: rest => childItem v :: childItems rest

/-- An entry of a list of children. -/
def childItem : Json → ChildItem
  | .obj fields => objectItem fields (parts fields)
  | v => plainItem v

/-- An `else` branch; null is none. -/
def otherwise? : Json → Option (Option ElseBranch)
  | .null => some none
  | .bool b => some (some (.flag b))
  | .obj fields => (ofFields? fields (parts fields)).map fun n => some (.node n)
  | _ => none

/-- An element read from a record. -/
def element? : Json → Option Element
  | .obj fields => Element.ofFields? fields (parts fields)
  | .arr items =>
    if items.length ≤ Element.fieldNames.length then
      Element.ofFields? (Element.fieldNames.zip items) (partsByPosition Element.fieldNames items)
    else none
  | _ => none

end

/-- A tree read from a value. -/
def ofJson : Json → Except NodeFault Node
  | .obj fields => ofFields fields (parts fields)
  | _ => .error .notObject

end Node

/-! ### Writing -/

/-- A field that is left out if there is nothing to write. -/
def givenField (name : String) (v : Option Json) : List (String × Json) :=
  v.toList.map fun v => (name, v)

/-- A source as a value. -/
def LoopSource.toJson : LoopSource → Json
  | ref r => r.toJson
  | path text => .str text

variable (record : List (String × Json) → Json)

/-- A loop as a record. -/
def Loop.encode (l : Loop) : Json :=
  record ([("in", l.source.toJson), ("as", .str l.item)] ++ givenField "index" (l.index.map .str) ++
    givenField "key" (l.key.map PropValue.toJson))

/-- A link target as a value. -/
def LinkTarget.encode : LinkTarget → Json
  | ref r => r.toJson
  | target ui params => record (("ui", .str ui) :: givenField "params" (params.map .obj))
  | path text => .str text

/-- The fields of a component apart from its element. -/
def Component.encodeFields (c : Component) : List (String × Json) :=
  [("id", .str c.id)] ++ givenField "name" (c.name.map .str) ++ givenField "data" c.data ++
    givenField "props" (c.props.map .obj) ++ givenField "states" c.states ++
    givenField "methods" (c.methods.map .obj) ++ givenField "effects" (c.effects.map .arr)

/-- Props as a value; no props are left out. -/
def propsField (props : Entries PropValue) : List (String × Json) :=
  if props.isEmpty then []
  else [("props", .obj (props.map fun (name, v) => (name, v.toJson)))]

namespace Node

mutual

/-- A tree as a value, where `record` puts fields together. -/
def encode : Node → Json
  | ⟨none, element⟩ => record (("kind", .str "element") :: encodeElement element)
  | ⟨some component, element⟩ =>
    record (("kind", .str "component") :: component.encodeFields ++
      [("render", record (encodeElement element))])

/-- The fields of an element. -/
def encodeElement : Element → List (String × Json)
  | ⟨id, type, props, children, condition, elseIf, otherwise, loop, key, link, platform⟩ =>
    [("id", .str id), ("type", .str type)] ++ propsField props ++
      (match children with
        | some items => [("children", .arr (encodeItems items))]
        | none => []) ++
      givenField "if" (condition.map PropValue.toJson) ++
      givenField "elseIf" (elseIf.map PropValue.toJson) ++
      (match otherwise with
        | some branch => [("else", encodeBranch branch)]
        | none => []) ++
      givenField "for" (loop.map (Loop.encode record)) ++
      givenField "key" (key.map PropValue.toJson) ++
      givenField "link-to" (link.map (LinkTarget.encode record)) ++
      givenField "platform" (platform.map .obj)

/-- The entries of a list of children. -/
def encodeItems : List ChildItem → List Json
  | [] => []
  | item :: rest => encodeItem item :: encodeItems rest

/-- An entry of a list of children. -/
def encodeItem : ChildItem → Json
  | .text s => .str s
  | .ref r => r.toJson
  | .node n => encode n
  | .other v => v

/-- An `else` branch. -/
def encodeBranch : ElseBranch → Json
  | .flag b => .bool b
  | .node n => encode n

end

/-- A tree as a value. -/
def toJson (n : Node) : Json := encode Json.object n

/-- A tree as text over several lines, the fields of every node in the order of its description. -/
def pretty (n : Node) : String := (encode Json.obj n).pretty

end Node

/-- An element as a value. -/
def Element.toJson (e : Element) : Json := Json.object (Node.encodeElement Json.object e)

end SchemaCanvas
