import SchemaCanvas.Render.Output

/-!
# Events

An event of a rendered element calls the handler that the prop of its name gives, if the host has
it. A click also follows the link of the element.
-/

namespace SchemaCanvas

/-- What an event has led to. -/
structure Triggered where
  handler : Option String
  navigation : Option Navigation

namespace Triggered

/-- The event has led to nothing. -/
def isEmpty (t : Triggered) : Bool := t.handler.isNone && t.navigation.isNone

end Triggered

namespace OutputElement

/-- The handler for an event, among those that the host has. -/
def handler? (e : OutputElement) (event : String) (handlers : List String) : Option String :=
  ((e.props.lookup event).bind Json.text?).filter fun name => handlers.contains name

/-- An event of an element. -/
def trigger (e : OutputElement) (event : String) (handlers : List String)
    (transforms : Transforms) : Triggered where
  handler := e.handler? event handlers
  navigation := if event = "onClick" then e.link.bind fun l => l.resolve? transforms else none

end OutputElement

end SchemaCanvas
