import SchemaCanvas.Session.Basic

/-!
# The keyboard in a session

A chord runs the command it stands for. A command that cannot run does nothing, and says nothing;
only a tree that the host refuses is a failure.
-/

namespace SchemaCanvas

namespace Session

variable (s : Session)

/-- An operation run from the keyboard. A rejection is undone. The result says whether the operation
has run. -/
def quietly {α : Type} (result : Session × Except SessionError α) :
    Session × Except SessionError Bool :=
  match result with
  | (after, .ok _) => (after, .ok true)
  | (after, .error (.rejected _)) => ({ after with toast := s.toast }, .ok false)
  | (after, .error e) => (after, .error e)

/-- A step of the selection from the keyboard. -/
def step {α : Type} (f : SelectionState → SelectionState × Option α) :
    Session × Except SessionError Bool :=
  let (s, result) := s.onSelection f
  (s, .ok result.isSome)

/-- Run a command. The result says whether it could run. -/
def run (command : Command) : Session × Except SessionError Bool :=
  match command with
  | .escape =>
    let (s, changed) := s.onSelection SelectionState.escape
    (s, .ok changed)
  | .selectFirstChild => s.step fun sel => sel.selectFirstChild s.tree
  | .selectParent => s.step fun sel => sel.selectParent s.tree
  | .nextSibling => s.step fun sel => sel.selectSibling s.tree false
  | .previousSibling => s.step fun sel => sel.selectSibling s.tree true
  | .move direction => s.quietly (s.move direction)
  | .copy => s.quietly s.copy
  | .cut => s.quietly s.cut
  | .paste => s.quietly s.paste
  | .duplicate => s.quietly s.duplicate
  | .delete => s.quietly s.delete

/-- Run the command of a chord. The result is the command, if one has run. -/
def pressChord (chord : Chord) : Session × Except SessionError (Option Command) :=
  match Command.resolve? chord s.config.keyboard s.selection.enabled with
  | none => (s, .ok none)
  | some command =>
    let (s, result) := s.run command
    (s, result.map fun ran => if ran then some command else none)

/-- Run the commands of chords one after the other, up to a failure. The result lists the commands
that have run. -/
def pressChords (s : Session) : List Chord → Session × Except SessionError (List Command)
  | [] => (s, .ok [])
  | chord :: rest =>
    match s.pressChord chord with
    | (s, .ok command) =>
      let (s, commands) := pressChords s rest
      (s, commands.map fun commands => command.toList ++ commands)
    | (s, .error e) => (s, .error e)

/-- Run the commands of the input events of one frame. -/
def handleInput (events : List InputEvent) : Session × Except SessionError (List Command) :=
  s.pressChords (Chord.ofEvents events)

end Session

end SchemaCanvas
