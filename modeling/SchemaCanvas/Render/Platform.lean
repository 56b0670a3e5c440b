import SchemaCanvas.Schema.Codec

/-!
# Changes by surface

An element may list changes for the surface on which it is shown. A change gives whole fields, which
stand in place of those of the element. The id never changes, and what is shown lists no further
changes.
-/

namespace SchemaCanvas

/-- Why a change cannot be made. -/
inductive PlatformFault where
  | notObject (v : Json)
  /-- a field of the change does not fit -/
  | misfit

/-- The description of a fault. -/
def PlatformFault.message : PlatformFault → String
  | notObject v => "platform override failed: override must be an object, got " ++ v.compact
  | misfit => "platform override failed: deserialize"

namespace Element

/-- The change of an element for a surface. -/
def change? (e : Element) (surface : Option String) : Option Json := do
  let changes ← e.platform
  changes.lookup (← surface)

/-- An element with some of its fields replaced. -/
def overlay? (e : Element) (change : Entries Json) : Option Element :=
  let fields := change.foldl (fun fields (name, v) => fields.insert name v)
    (Entries.ofList (Node.encodeElement Json.object e))
  Node.element? (.obj ((fields.erase "platform").insert "id" (.str e.id)))

/-- An element as it is on a surface. -/
def onSurface (e : Element) (surface : Option String) : Except PlatformFault Element :=
  match e.change? surface with
  | none => .ok { e with platform := none }
  | some (.obj change) =>
    match e.overlay? change with
    | some e => .ok e
    | none => .error .misfit
  | some v => .error (.notObject v)

end Element

end SchemaCanvas
