import SchemaCanvas.Schema.Node

/-!
# Loops

A loop repeats an element for every item of a list; a single object counts as a list of it. Each
repetition has a context in which the item, and its position if the loop names it, stand over the
names around the loop, and a key that tells it from the others.
-/

namespace SchemaCanvas

/-- The value of a source in a context. -/
def LoopSource.resolve (source : LoopSource) (context : Json) (transforms : Transforms) : Value :=
  match source with
  | ref r => r.resolve context transforms
  | path text => Json.atPath? text context

/-- The items of a value. -/
def Value.items? : Value → Option (List Json)
  | some (.arr items) => some items
  | some (.obj fields) => some [.obj fields]
  | _ => none

namespace Loop

/-- The items of a loop, or the kind of a value that has none. -/
def items (l : Loop) (context : Json) (transforms : Transforms) : Except String (List Json) :=
  let v := l.source.resolve context transforms
  match v.items? with
  | some items => .ok items
  | none => .error v.typeName

/-- The context of one repetition. The name of the position counts if it is the name of the item
too. -/
def itemContext (l : Loop) (context item : Json) (i : Nat) : Json :=
  let fields := (context.fields?.getD []).insert l.item item
  match l.index with
  | some name => .obj (if name.isEmpty then fields else fields.insert name (.ofNat i))
  | none => .obj fields

/-- The key of one repetition: that of the loop, or of the element, or made of the id and the
position. A key without text is passed over. -/
def itemKey (l : Loop) (elementKey : Option PropValue) (id : String) (context : Json)
    (transforms : Transforms) (i : Nat) : String :=
  let keys := (l.key.toList ++ elementKey.toList).map fun k => (k.resolve context transforms).text
  (keys.find? fun k => !k.isEmpty).getD (id ++ "-" ++ toString i)

end Loop

end SchemaCanvas
