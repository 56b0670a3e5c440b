import SchemaCanvas.Json.Basic

/-!
# Settings of the renderer
-/

namespace SchemaCanvas

/-- Settings of the renderer. -/
structure RenderConfig where
  /-- the surface on which elements are shown -/
  platform : Option String
  /-- how deep elements are rendered -/
  maxDepth : Nat
  /-- the types that are rendered as they are; if there are none, all are -/
  knownTypes : List String
deriving DecidableEq

namespace RenderConfig

/-- The type of an element whose own type is not known. -/
def fallbackType : String := "container"

/-- The settings that count where none are given. -/
def standard : RenderConfig where
  platform := none
  maxDepth := 64
  knownTypes :=
    ["container", "view", "div", "section", "header", "footer", "row", "column", "stack",
      "text", "span", "heading", "paragraph", "label", "link", "button", "image", "icon",
      "input", "textarea", "select", "checkbox", "switch", "list", "ul", "ol", "li", "card",
      "divider", "spacer", "form", "modal", "tabs", "tab", "grid", "table"]

/-- A type is rendered as it is. -/
def knows (config : RenderConfig) (type : String) : Bool :=
  config.knownTypes.isEmpty || config.knownTypes.contains type

end RenderConfig

end SchemaCanvas
