import SchemaCanvas.Session.Keyboard

/-!
# Runs of a session

An `Action` is anything that a host can do with a session. `Session.perform` does one action and
answers it, `Session.performAll` does a list of them. The pointer may be looked up in the schema
tree or in the tree as it is rendered at that moment.
-/

namespace SchemaCanvas

/-- The tree in which the pointer is looked up. -/
inductive PointerTree where
  | schema
  /-- the rendered tree in a context -/
  | rendered (context : Json)

/-- Something that a host does with a session. -/
inductive Action where
  | select (id : String) (path : Path)
  | setHovered (id : Option String) (path : Path)
  | hover (tree : PointerTree) (raw : Path) (direct : Bool)
  | click (tree : PointerTree) (raw : Path) (direct : Bool)
  | doubleClick (tree : PointerTree) (raw : Path)
  | revalidate (tree : PointerTree)
  | toChildren
  | toParent
  | setSelectionEnabled (enabled : Bool)
  | copy
  | cut
  | paste
  | delete
  | duplicate
  | move (direction : Direction)
  | moveTo (parent : Path) (gap : Nat)
  | beginEdit (edit : PendingEdit)
  | cancelEdit
  | commitEdit
  | chord (chord : Chord)
  | input (events : List InputEvent)
  | notify (toast : Toast)
  | takeToast
  /-- go on with a tree as it is -/
  | replace (tree : Node)
  /-- go on with the tree of a value -/
  | load (v : Json)
  | setKeyboard (config : KeyboardConfig)
  | setHost (host : Option Host)
  | publish (operation : Operation) (showToast : Bool)
  | render (context : Json)

/-- The answer to an action. -/
inductive Reply where
  | done
  | flag (b : Bool)
  | selection (s : Option Selection)
  | operation (o : Option Operation)
  | command (c : Option Command)
  | commands (cs : List Command)
  | toast (t : Option Toast)
  | output (o : Option Output)
  /-- nothing is rendered in which the pointer could be looked up -/
  | noOutput
  | failed (e : SessionError)
  | refused (text : String)
  | notLoaded (e : LoadError)

namespace Session

variable (s : Session)

/-- Answer with the result of an operation. -/
def reply {α : Type} (result : Session × Except SessionError α) (ok : α → Reply) :
    Session × Reply :=
  match result with
  | (s, .ok a) => (s, ok a)
  | (s, .error e) => (s, .failed e)

/-- Change the selection by a look into a tree, and answer with the result. -/
def lookup {α : Type} (tree : PointerTree) (inSchema : Node → SelectionState → SelectionState × α)
    (inOutput : Output → SelectionState → SelectionState × α) (ok : α → Reply) : Session × Reply :=
  match tree with
  | .schema =>
    let (s, a) := s.onSelection (inSchema s.tree)
    (s, ok a)
  | .rendered context =>
    match s.render context with
    | some o =>
      let (s, a) := s.onSelection (inOutput o)
      (s, ok a)
    | none => (s, .noOutput)

/-- Follow the selected nodes through a change made by the host. The host is not told of them. -/
def revalidate (tree : PointerTree) : Session × Reply :=
  match tree with
  | .schema => ({ s with selection := s.selection.revalidate s.tree }, .done)
  | .rendered context =>
    match s.render context with
    | some o => ({ s with selection := s.selection.revalidate o }, .done)
    | none => (s, .noOutput)

/-- Do an action and answer it. -/
def perform (action : Action) : Session × Reply :=
  match action with
  | .select id path =>
    let (s, changed) := s.onSelection fun sel => sel.select id path
    (s, .flag changed)
  | .setHovered id path =>
    let (s, changed) := s.onSelection fun sel => sel.setHovered id path
    (s, .flag changed)
  | .hover tree raw direct =>
    s.lookup tree (fun t sel => sel.hover t raw direct) (fun o sel => sel.hover o raw direct) .flag
  | .click tree raw direct =>
    s.lookup tree (fun t sel => sel.click t raw direct) (fun o sel => sel.click o raw direct)
      .selection
  | .doubleClick tree raw =>
    s.lookup tree (fun t sel => sel.doubleClick t raw) (fun o sel => sel.doubleClick o raw)
      .selection
  | .revalidate tree => s.revalidate tree
  | .toChildren =>
    let (s, changed) := s.toChildren
    (s, .flag changed)
  | .toParent =>
    let (s, changed) := s.toParent
    (s, .flag changed)
  | .setSelectionEnabled enabled => (s.setSelectionEnabled enabled, .done)
  | .copy => reply s.copy fun _ => .done
  | .cut => reply s.cut fun o => .operation (some o)
  | .paste => reply s.paste fun o => .operation (some o)
  | .delete => reply s.delete fun o => .operation (some o)
  | .duplicate => reply s.duplicate fun o => .operation (some o)
  | .move direction => reply (s.move direction) fun o => .operation (some o)
  | .moveTo parent gap => reply (s.moveTo parent gap) fun o => .operation (some o)
  | .beginEdit edit => (s.beginEdit edit, .done)
  | .cancelEdit => (s.cancelEdit, .done)
  | .commitEdit => reply s.commitEdit .operation
  | .chord chord => reply (s.pressChord chord) .command
  | .input events => reply (s.handleInput events) .commands
  | .notify toast => (s.notify toast.message toast.kind, .done)
  | .takeToast =>
    let (s, toast) := s.takeToast
    (s, .toast toast)
  | .replace tree => (s.replaceTree tree s.next, .done)
  | .load v =>
    match s.load v with
    | .ok s => (s, .done)
    | .error e => (s, .notLoaded e)
  | .setKeyboard keyboard => ({ s with config := { s.config with keyboard } }, .done)
  | .setHost host => ({ s with host }, .done)
  | .publish operation showToast =>
    match s.publish operation showToast with
    | (s, none) => (s, .done)
    | (s, some text) => (s, .refused text)
  | .render context => (s, .output (s.render context))

/-- Do actions one after the other. -/
def performAll (s : Session) (actions : List Action) : Session :=
  actions.foldl (fun s action => (s.perform action).1) s

end Session

end SchemaCanvas
