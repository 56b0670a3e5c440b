import SchemaCanvas.Json.Document
import SchemaCanvas.Json.Printer
import SchemaCanvas.Keyboard.Command
import SchemaCanvas.Render.Config

/-!
# Configuration

The configuration of an editor is read from JSON. Every setting may be left out, and settings that
are not known are skipped without a look at their values. A setting that is given twice, or whose
value does not fit, makes the whole configuration unreadable. Records may also be written as lists
of their settings in order, of which the last ones may be left out.
-/

namespace SchemaCanvas

namespace Document

mutual

/-- A value as a document. -/
def ofJson : Json → Document
  | .null => null
  | .bool b => bool b
  | .num n => num (some n)
  | .str s => str (some s)
  | .arr items => arr (ofItems items)
  | .obj fields => obj (ofFields fields)

/-- List items as documents. -/
def ofItems : List Json → List Document
  | [] => []
  | v :: rest => ofJson v :: ofItems rest

/-- Fields as documents. -/
def ofFields : List (String × Json) → List (Option String × Document)
  | [] => []
  | (name, v) :: rest => (some name, ofJson v) :: ofFields rest

end

/-- The known fields of a record, none of them twice. -/
def record? (names : List String) : Document → Option (List (String × Document))
  | obj fields => do
    let fields ← fields.mapM fun (name, d) => name.map fun name => (name, d)
    let known := fields.filter fun (name, _) => names.contains name
    if (known.map Prod.fst).Nodup then some known else none
  | arr items => if items.length ≤ names.length then some (names.zip items) else none
  | _ => none

/-- A truth value. -/
def bool? : Document → Option Bool
  | bool b => some b
  | _ => none

/-- A natural number of 64 bits. -/
def nat? : Document → Option Nat
  | num (some n) => n.toNat?
  | _ => none

/-- A text. -/
def string : Document → Option String
  | str s => s
  | _ => none

/-- A text, or null in its place. -/
def nullableText? : Document → Option (Option String)
  | null => some none
  | d => d.string.map some

/-- A list of texts. -/
def texts? : Document → Option (List String)
  | arr items => items.mapM string
  | _ => none

/-- A setting, or its standard value if it is left out. -/
def setting {α : Type} (fields : List (String × Document)) (name : String) (standard : α)
    (read : Document → Option α) : Option α :=
  match fields.lookup name with
  | some d => read d
  | none => some standard

end Document

namespace KeyboardConfig

/-- The settings of the keyboard, in order. -/
def settingNames : List String :=
  ["enabled", "allowArrowNavigation", "allowCopyPaste", "allowDelete"]

/-- Settings of the keyboard from a document. -/
def ofDocument? (d : Document) : Option KeyboardConfig := do
  let fields ← d.record? settingNames
  let enabled ← Document.setting fields "enabled" true Document.bool?
  let allowArrowNavigation ← Document.setting fields "allowArrowNavigation" true Document.bool?
  let allowCopyPaste ← Document.setting fields "allowCopyPaste" true Document.bool?
  let allowDelete ← Document.setting fields "allowDelete" true Document.bool?
  some { enabled, allowArrowNavigation, allowCopyPaste, allowDelete }

/-- The settings as a record. -/
def encode (config : KeyboardConfig) : Json :=
  .obj [("enabled", .bool config.enabled),
    ("allowArrowNavigation", .bool config.allowArrowNavigation),
    ("allowCopyPaste", .bool config.allowCopyPaste), ("allowDelete", .bool config.allowDelete)]

end KeyboardConfig

namespace RenderConfig

/-- The settings of the renderer, in order. -/
def settingNames : List String := ["platform", "maxDepth", "knownTypes"]

/-- Settings of the renderer from a document. -/
def ofDocument? (d : Document) : Option RenderConfig := do
  let fields ← d.record? settingNames
  let platform ← Document.setting fields "platform" standard.platform Document.nullableText?
  let maxDepth ← Document.setting fields "maxDepth" standard.maxDepth Document.nat?
  let knownTypes ← Document.setting fields "knownTypes" standard.knownTypes Document.texts?
  some { platform, maxDepth, knownTypes }

/-- The settings as a record. -/
def encode (config : RenderConfig) : Json :=
  .obj [("platform", (config.platform.map .str).getD .null), ("maxDepth", .ofNat config.maxDepth),
    ("knownTypes", .arr (config.knownTypes.map .str))]

end RenderConfig

/-- The configuration of an editor. -/
structure Config where
  keyboard : KeyboardConfig := {}
  render : RenderConfig := .standard
  selectionEnabled : Bool := true
deriving DecidableEq

namespace Config

/-- The parts of a configuration, in order. -/
def settingNames : List String := ["keyboard", "render", "selectionEnabled"]

/-- A configuration from a document. -/
def ofDocument? (d : Document) : Option Config := do
  let fields ← d.record? settingNames
  let keyboard ← Document.setting fields "keyboard" {} KeyboardConfig.ofDocument?
  let render ← Document.setting fields "render" .standard RenderConfig.ofDocument?
  let selectionEnabled ← Document.setting fields "selectionEnabled" true Document.bool?
  some { keyboard, render, selectionEnabled }

/-- A configuration from a JSON text. -/
def parse? (text : String) : Option Config := (Document.read? text).bind ofDocument?

/-- The configuration as a record. -/
def encode (config : Config) : Json :=
  .obj [("keyboard", config.keyboard.encode), ("render", config.render.encode),
    ("selectionEnabled", .bool config.selectionEnabled)]

/-- The configuration as text over several lines. -/
def pretty (config : Config) : String := config.encode.pretty

end Config

end SchemaCanvas
