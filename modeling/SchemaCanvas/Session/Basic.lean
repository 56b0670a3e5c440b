import SchemaCanvas.Config
import SchemaCanvas.Edit.Operation
import SchemaCanvas.Render.Render
import SchemaCanvas.Schema.Load

/-!
# Editing sessions

A session holds the tree that is edited, the selection, a change of content not yet made and a
message for the operator. Its host is told of every newly selected node and of every changed tree;
`Session.log` lists what it has been told. The host may refuse a tree: the change stays, and the
operation says that it was not saved.

* `Session.apply` is the one way in which an operation changes the tree;
* `Session.publish` hands the tree to the host;
* a rejected operation leaves a message and changes nothing else.
-/

namespace SchemaCanvas

/-- The kinds of message. -/
inductive ToastKind where
  | info
  | success
  | error
deriving DecidableEq

/-- A message for the operator. -/
structure Toast where
  message : String
  kind : ToastKind
deriving DecidableEq

/-- What a host is told. -/
inductive HostEvent where
  /-- another node is selected -/
  | selected (id : String)
  /-- the tree has changed -/
  | updated (tree : Node) (operation : Operation)

/-- How a host takes changed trees: from what it has been told before, the tree and the kind of
change it makes the text of its refusal, or takes the tree. -/
abbrev Host := List HostEvent → Node → Operation → Option String

/-- A host that takes every tree. -/
def Host.accepting : Host := fun _ _ _ => none

/-- A host that refuses every tree with the same text. -/
def Host.refusing (text : String) : Host := fun _ _ _ => some text

/-- Why an operation of a session fails. -/
inductive SessionError where
  | rejected (error : EditError)
  /-- the tree has changed, but the host has refused it -/
  | unsaved (text : String)

/-- The description of a failure. -/
def SessionError.message : SessionError → String
  | rejected error => error.message
  | unsaved text => "schema update was not persisted: " ++ text

/-- An editing session. -/
structure Session where
  tree : Node
  selection : SelectionState
  config : Config
  transforms : Transforms
  pending : Option PendingEdit := none
  toast : Option Toast := none
  /-- the host, if there is one that takes trees -/
  host : Option Host := none
  /-- what the host has been told, the first first -/
  log : List HostEvent := []
  /-- the number of the next draw of an id -/
  next : Nat

namespace Session

/-- A session on a tree. -/
def start (tree : Node) (next : Nat) (config : Config) (transforms : Transforms)
    (host : Option Host) : Session where
  tree
  selection := { enabled := config.selectionEnabled }
  config
  transforms
  host
  next

variable (s : Session)

/-- The tree as it is rendered in a context. -/
def render (context : Json) : Option Output :=
  (Renderer.mk s.config.render s.transforms).render s.tree context

/-- Leave a message. -/
def notify (message : String) (kind : ToastKind) : Session :=
  { s with toast := some { message, kind } }

/-- Take the message. -/
def takeToast : Session × Option Toast := ({ s with toast := none }, s.toast)

/-! ### Selection -/

/-- The host is told if the id of the selected node has changed. -/
def selectionEvents (before after : SelectionState) : List HostEvent :=
  match after.selected with
  | none => []
  | some sel => if before.isSelected sel.id then [] else [.selected sel.id]

/-- Go on with another selection. -/
def withSelection (selection : SelectionState) : Session :=
  { s with selection, log := s.log ++ selectionEvents s.selection selection }

/-- Go on with the selection that an operation on it gives. -/
def onSelection {α : Type} (f : SelectionState → SelectionState × α) : Session × α :=
  let (selection, result) := f s.selection
  (s.withSelection selection, result)

/-- Turn selection on or off. -/
def setSelectionEnabled (enabled : Bool) : Session :=
  s.withSelection (s.selection.setEnabled enabled)

/-- Go one level down. The host is not told, as nothing is selected then. -/
def toChildren : Session × Bool :=
  let (selection, changed) := s.selection.toChildren s.tree
  ({ s with selection }, changed)

/-- Go one level up. -/
def toParent : Session × Bool := s.onSelection SelectionState.toParent

/-- Go on with another tree. The clipboard stays. -/
def replaceTree (tree : Node) (next : Nat) : Session :=
  { s with
    tree, next
    selection := { enabled := s.selection.enabled, copied := s.selection.copied }
    pending := none }

/-- Go on with the tree of a value. -/
def load (v : Json) : Except LoadError Session :=
  (Schema.load s.next v).map fun (tree, next) => s.replaceTree tree next

/-! ### Operations -/

/-- Hand the tree to the host. The result is the text of its refusal. -/
def publish (operation : Operation) (showToast : Bool) : Session × Option String :=
  let refusal := s.host.bind fun host => host s.log s.tree operation
  let s := if s.host.isSome then { s with log := s.log ++ [.updated s.tree operation] } else s
  match refusal with
  | some text => (s.notify ("Save failed: " ++ text) .error, some text)
  | none => (if showToast then s.notify s!"Saved ({operation.name})" .success else s, none)

/-- Go on with the result of an operation, and hand it to the host. -/
def apply (e : Edit) : Session × Except SessionError Operation :=
  let selection :=
    ({ s.selection with selected := e.selection, hovered := none }).revalidate e.tree
  let s := { s with tree := e.tree, next := e.next }.withSelection selection
  match s.publish e.operation false with
  | (s, some text) => (s, .error (.unsaved text))
  | (s, none) => (s, .ok e.operation)

/-- Leave a message that an operation is rejected. -/
def reject {α : Type} (error : EditError) : Session × Except SessionError α :=
  (s.notify error.message .error, .error (.rejected error))

/-- Go on with the result of an operation, if there is one. -/
def finish (result : Except EditError Edit) : Session × Except SessionError Operation :=
  match result with
  | .ok e => s.apply e
  | .error error => s.reject error

/-- Put a node on the clipboard. -/
def withCopied (n : Node) : Session := { s with selection := { s.selection with copied := some n } }

/-- Copy the selected node. -/
def copy : Session × Except SessionError Unit :=
  match Edit.copy s.tree s.selection.selected with
  | .ok n => ((s.notify "Copied" .info).withCopied n, .ok ())
  | .error error => s.reject error

/-- Cut the selected node. -/
def cut : Session × Except SessionError Operation :=
  match Edit.cut s.next s.tree s.selection.selected with
  | .ok (e, n) => (s.withCopied n).apply e
  | .error error => s.reject error

/-- Paste the node on the clipboard. -/
def paste : Session × Except SessionError Operation :=
  s.finish (Edit.paste s.next s.tree s.selection.selected s.selection.copied)

/-- Delete the selected node. -/
def delete : Session × Except SessionError Operation :=
  s.finish (Edit.delete s.next s.tree s.selection.selected)

/-- Duplicate the selected node. -/
def duplicate : Session × Except SessionError Operation :=
  s.finish (Edit.duplicate s.next s.tree s.selection.selected)

/-- Move the selected node past a sibling. -/
def move (direction : Direction) : Session × Except SessionError Operation :=
  s.finish (Edit.shift s.next s.tree s.selection.selected direction)

/-- Move the selected node to a gap in the children of a node. -/
def moveTo (parent : Path) (gap : Nat) : Session × Except SessionError Operation :=
  s.finish (Edit.carry s.next s.tree s.selection.selected parent gap)

/-- Begin to change the content of a node. -/
def beginEdit (edit : PendingEdit) : Session := { s with pending := some edit }

/-- Give up the change of content. -/
def cancelEdit : Session := { s with pending := none }

/-- Make the change of content, if there is one. It is not pending afterwards, even if it is
rejected. -/
def commitEdit : Session × Except SessionError (Option Operation) :=
  match s.pending with
  | none => (s, .ok none)
  | some edit =>
    let (s, result) := s.cancelEdit.finish (Edit.content s.next s.tree edit)
    (s, result.map some)

end Session

end SchemaCanvas
