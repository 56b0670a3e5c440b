import SchemaCanvas.Edit.Operation
import SchemaCanvas.Keyboard.Chord

/-!
# Commands of the keyboard

Every chord stands for at most one command. Commands fall into categories, which a configuration can
switch off, and none of them runs while selection is switched off.
-/

namespace SchemaCanvas

/-- What a chord does. -/
inductive Command where
  | escape
  | selectFirstChild
  | selectParent
  | nextSibling
  | previousSibling
  | move (direction : Direction)
  | copy
  | cut
  | paste
  | duplicate
  | delete
deriving DecidableEq

/-- The kinds of command. -/
inductive CommandCategory where
  | navigation
  | arrows
  | clipboard
  | delete
deriving DecidableEq

/-- Which commands run. -/
structure KeyboardConfig where
  enabled : Bool := true
  allowArrowNavigation : Bool := true
  allowCopyPaste : Bool := true
  allowDelete : Bool := true
deriving DecidableEq

namespace Command

/-- The command of a chord. The state of `alt` does not matter. -/
def ofChord? (chord : Chord) : Option Command :=
  match chord.key, chord.command, chord.shift with
  | .escape, false, _ => some escape
  | .enter, false, false => some selectFirstChild
  | .enter, false, true => some selectParent
  | .tab, false, false => some nextSibling
  | .tab, false, true => some previousSibling
  | .arrowUp, false, _ => some (move .up)
  | .arrowDown, false, _ => some (move .down)
  | .arrowLeft, false, _ => some (move .left)
  | .arrowRight, false, _ => some (move .right)
  | .c, true, false => some copy
  | .x, true, false => some cut
  | .v, true, false => some paste
  | .d, true, false => some duplicate
  | .delete, false, false => some delete
  | .backspace, false, false => some delete
  | _, _, _ => none

/-- The kind of a command. -/
def category : Command → CommandCategory
  | escape | selectFirstChild | selectParent | nextSibling | previousSibling => .navigation
  | move _ => .arrows
  | copy | cut | paste | duplicate => .clipboard
  | delete => .delete

end Command

/-- Commands of a kind run. -/
def KeyboardConfig.allows (config : KeyboardConfig) (category : CommandCategory) : Bool :=
  config.enabled &&
    match category with
    | .navigation => true
    | .arrows => config.allowArrowNavigation
    | .clipboard => config.allowCopyPaste
    | .delete => config.allowDelete

/-- The command that a chord runs. -/
def Command.resolve? (chord : Chord) (config : KeyboardConfig) (selectionEnabled : Bool) :
    Option Command :=
  if selectionEnabled then (ofChord? chord).filter fun c => config.allows c.category else none

end SchemaCanvas
