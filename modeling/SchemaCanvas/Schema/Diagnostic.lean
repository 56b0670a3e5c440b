import SchemaCanvas.Expr.Parser
import SchemaCanvas.Json.Printer
import SchemaCanvas.Text.Blank

/-!
# Diagnostics of a schema

`Schema.validate` lists what is wrong with a value that should be a schema tree. It looks at the
value as it stands, before a tree is read from it, so it finds faults that reading would hide: a
child that is kept as a mere value, an expression that does not parse. Every diagnostic says at
which place of the value it arises.

Faults of a node are listed in the order type, props, conditions, key, `else`, `for`, children.
-/

namespace SchemaCanvas

/-- What can be wrong with a part of a schema. -/
inductive SchemaFault where
  | notObject
  | unknownKind (kind : Json)
  | renderNotObject
  | renderMissing
  | propsNotObject
  | typeEmpty
  | typeNotText
  | typeMissing
  | loopNotObject
  | loopSource
  | loopSourceMissing
  | loopItemMissing
  | nestedList
  | expression (text : String) (e : SyntaxError)
  | expressionNotText
  | pathNotText
  | transformsNotTexts

/-- The description of a fault. -/
def SchemaFault.message : SchemaFault → String
  | notObject => "Schema node must be an object"
  | unknownKind kind => "Unknown node kind " ++ kind.compact
  | renderNotObject => "Component `render` must be an element object"
  | renderMissing => "Component is missing `render`"
  | propsNotObject => "`props` must be an object"
  | typeEmpty => "Element `type` must not be empty"
  | typeNotText => "Element `type` must be a string"
  | typeMissing => "Element is missing `type`"
  | loopNotObject => "`for` must be an object"
  | loopSource => "`for.in` must be a path, Expression or Binding"
  | loopSourceMissing => "`for` is missing `in`"
  | loopItemMissing => "`for` is missing `as`"
  | nestedList => "Nested child arrays are not supported"
  | expression text e => s!"Invalid expression '{text}': " ++ e.message
  | expressionNotText => "`$exp` must be a string"
  | pathNotText => "`$bind` must be a string"
  | transformsNotTexts => "`$transform` must be a name or a list of names"

/-- A fault and the names and positions that lead to it. -/
structure Diagnostic where
  place : List String
  fault : SchemaFault

namespace Diagnostic

/-- The place of a fault, every step behind a slash. -/
def location (d : Diagnostic) : String := String.join (d.place.map ("/" ++ ·))

/-- A diagnostic as one line. -/
def display (d : Diagnostic) : String :=
  let place := if d.place.isEmpty then "/" else d.location
  d.fault.message ++ " (at " ++ place ++ ")"

end Diagnostic

namespace Schema

/-! ### Values and loops -/

/-- An object that is meant as an expression or a binding. -/
def isReference (fields : Entries Json) : Bool :=
  (fields.lookup "$exp").isSome || (fields.lookup "$bind").isSome

/-- Faults in the names of transforms. -/
def transformFaults (names : Option Json) : List SchemaFault :=
  match names with
  | none | some (.str _) => []
  | some (.arr items) =>
    if items.all fun v => v.text?.isSome then [] else [.transformsNotTexts]
  | some _ => [.transformsNotTexts]

/-- Faults in the text of an expression. -/
def expressionFaults (v : Json) : List SchemaFault :=
  match v with
  | .str text =>
    match Expr.parse? text with
    | .ok _ => []
    | .error e => [.expression text e]
  | _ => [.expressionNotText]

/-- Faults in a value, if it is meant as an expression or a binding. -/
def valueFaults (v : Json) : List SchemaFault :=
  match v with
  | .obj fields =>
    match fields.lookup "$exp", fields.lookup "$bind" with
    | some expression, _ => expressionFaults expression
    | none, some path =>
      (if path.text?.isSome then [] else [.pathNotText]) ++
        transformFaults (fields.lookup "$transform")
    | none, none => []
  | _ => []

/-- Diagnostics of a value. -/
def checkValue (place : List String) (v : Json) : List Diagnostic :=
  (valueFaults v).map (Diagnostic.mk place)

/-- Diagnostics of the source of a loop. -/
def checkSource (place : List String) (source : Option Json) : List Diagnostic :=
  match source with
  | some (.str _) => []
  | some (.obj fields) =>
    if isReference fields then checkValue (place ++ ["in"]) (.obj fields)
    else [⟨place, .loopSource⟩]
  | some _ => [⟨place, .loopSource⟩]
  | none => [⟨place, .loopSourceMissing⟩]

/-- Diagnostics of a loop. -/
def checkLoop (place : List String) (v : Json) : List Diagnostic :=
  match v with
  | .obj fields =>
    checkSource place (fields.lookup "in") ++
      (match fields.lookup "as" with
        | some (.str item) => if item.isEmpty then [⟨place, .loopItemMissing⟩] else []
        | _ => [⟨place, .loopItemMissing⟩])
  | _ => [⟨place, .loopNotObject⟩]

/-! ### Nodes -/

/-- Diagnostics of a type. -/
def checkType (place : List String) (type : Option Json) : List Diagnostic :=
  match type with
  | some (.str t) => if (Text.trim t).isEmpty then [⟨place, .typeEmpty⟩] else []
  | some _ => [⟨place, .typeNotText⟩]
  | none => [⟨place, .typeMissing⟩]

/-- Diagnostics of the props of an element. -/
def checkProps (place : List String) (props : Option Json) : List Diagnostic :=
  match props with
  | none => []
  | some (.obj fields) =>
    fields.flatMap fun (name, v) => checkValue (place ++ ["props", name]) v
  | some _ => [⟨place ++ ["props"], .propsNotObject⟩]

/-- Diagnostics of a field that holds a value. -/
def checkField (place : List String) (fields : Entries Json) (name : String) : List Diagnostic :=
  match fields.lookup name with
  | some v => checkValue (place ++ [name]) v
  | none => []

/-- Diagnostics of the fields of a record that are made of nodes. -/
structure PartDiagnostics where
  children : List Diagnostic := []
  otherwise : List Diagnostic := []
  render : List Diagnostic := []

/-- Diagnostics of an element, given those of its parts. -/
def checkElement (place : List String) (fields : Entries Json) (parts : PartDiagnostics) :
    List Diagnostic :=
  checkType place (fields.lookup "type") ++ checkProps place (fields.lookup "props") ++
    ["if", "elseIf", "key"].flatMap (checkField place fields) ++ parts.otherwise ++
    (match fields.lookup "for" with
      | some v => checkLoop (place ++ ["for"]) v
      | none => []) ++
    parts.children

/-- Diagnostics of a component, given those of its parts. -/
def checkComponent (place : List String) (fields : Entries Json) (parts : PartDiagnostics) :
    List Diagnostic :=
  (match fields.lookup "render" with
    | some (.obj _) => parts.render
    | some _ => [⟨place, .renderNotObject⟩]
    | none => [⟨place, .renderMissing⟩]) ++
    (match fields.lookup "props" with
      | none | some (.obj _) => []
      | some _ => [⟨place ++ ["props"], .propsNotObject⟩])

/-- Diagnostics of a node, given those of its parts. -/
def checkFields (place : List String) (fields : Entries Json) (parts : PartDiagnostics) :
    List Diagnostic :=
  match fields.lookup "kind" with
  | none =>
    if (fields.lookup "render").isSome then checkComponent place fields parts
    else checkElement place fields parts
  | some (.str "component") => checkComponent place fields parts
  | some (.str "element") => checkElement place fields parts
  | some kind => [⟨place, .unknownKind kind⟩]

mutual

/-- Diagnostics of the parts among the fields of an object. -/
def checkParts (place : List String) : List (String × Json) → PartDiagnostics
  | [] => {}
  | (name, v) :: rest =>
    if name = "children" then
      { checkParts place rest with children := checkChildren (place ++ ["children"]) v }
    else if name = "else" then
      { checkParts place rest with otherwise := checkBranch (place ++ ["else"]) v }
    else if name = "render" then
      { checkParts place rest with render := checkRender (place ++ ["render"]) v }
    else checkParts place rest

/-- Diagnostics of a list of children, or of a single child. -/
def checkChildren (place : List String) : Json → List Diagnostic
  | .arr items => checkItems place 0 items
  | .obj fields =>
    if isReference fields then checkValue place (.obj fields)
    else checkFields place fields (checkParts place fields)
  | _ => []

/-- Diagnostics of the entries of a list of children from a position on. -/
def checkItems (place : List String) (i : Nat) : List Json → List Diagnostic
  | [] => []
  | v :: rest => checkItem (place ++ [toString i]) v ++ checkItems place (i + 1) rest

/-- Diagnostics of an entry of a list of children. -/
def checkItem (place : List String) : Json → List Diagnostic
  | .arr _ => [⟨place, .nestedList⟩]
  | .obj fields =>
    if isReference fields then checkValue place (.obj fields)
    else checkFields place fields (checkParts place fields)
  | _ => []

/-- Diagnostics of an `else` branch. -/
def checkBranch (place : List String) : Json → List Diagnostic
  | .bool _ => []
  | .obj fields => checkFields place fields (checkParts place fields)
  | _ => [⟨place, .notObject⟩]

/-- Diagnostics of the element of a component, if it is an object. -/
def checkRender (place : List String) : Json → List Diagnostic
  | .obj fields => checkElement place fields (checkParts place fields)
  | _ => []

end

/-- All diagnostics of a value as a schema tree. -/
def validate : Json → List Diagnostic
  | .obj fields => checkFields [] fields (checkParts [] fields)
  | _ => [⟨[], .notObject⟩]

end Schema

end SchemaCanvas
