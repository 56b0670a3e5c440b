/-!
# Key chords

A chord is a key together with the modifiers held down. Chords are collected from the input events
of one frame: presses of known keys, and the clipboard events that some toolkits send in their
place.
-/

namespace SchemaCanvas

/-- The keys that are bound to commands. -/
inductive Key where
  | escape
  | enter
  | tab
  | arrowUp
  | arrowDown
  | arrowLeft
  | arrowRight
  | delete
  | backspace
  | c
  | x
  | v
  | d
deriving DecidableEq

namespace Key

/-- The name of a key. -/
def name : Key → String
  | escape => "Escape"
  | enter => "Enter"
  | tab => "Tab"
  | arrowUp => "ArrowUp"
  | arrowDown => "ArrowDown"
  | arrowLeft => "ArrowLeft"
  | arrowRight => "ArrowRight"
  | delete => "Delete"
  | backspace => "Backspace"
  | c => "C"
  | x => "X"
  | v => "V"
  | d => "D"

/-- All keys. -/
def all : List Key :=
  [escape, enter, tab, arrowUp, arrowDown, arrowLeft, arrowRight, delete, backspace, c, x, v, d]

/-- The key of a name. -/
def ofName? (name : String) : Option Key := all.find? fun key => key.name = name

@[simp]
theorem ofName?_name (key : Key) : ofName? key.name = some key := by cases key <;> rfl

end Key

/-- A key and the modifiers held down. -/
structure Chord where
  key : Key
  shift : Bool := false
  /-- Control, or Command where there is such a key -/
  command : Bool := false
  alt : Bool := false
deriving DecidableEq

/-- The modifiers that a toolkit tells apart. -/
structure RawModifiers where
  shift : Bool := false
  ctrl : Bool := false
  alt : Bool := false
  command : Bool := false
  macCommand : Bool := false

/-- An input event. -/
inductive InputEvent where
  /-- a key going down or up; keys that are not bound have no `key` -/
  | key (key : Option Key) (pressed : Bool) (modifiers : RawModifiers)
  | copy
  | cut
  | paste
  /-- anything else -/
  | other

namespace Chord

/-- The chord of an event. -/
def ofEvent? : InputEvent → Option Chord
  | .key (some key) true m =>
    some { key, shift := m.shift, command := m.command || m.ctrl || m.macCommand, alt := m.alt }
  | .key .. => none
  | .copy => some { key := .c, command := true }
  | .cut => some { key := .x, command := true }
  | .paste => some { key := .v, command := true }
  | .other => none

/-- The chords of one frame, each of them once. -/
def ofEvents (events : List InputEvent) : List Chord :=
  (events.filterMap ofEvent?).foldl
    (fun chords chord => if chords.contains chord then chords else chords ++ [chord]) []

end Chord

end SchemaCanvas
