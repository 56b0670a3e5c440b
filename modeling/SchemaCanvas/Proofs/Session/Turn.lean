import SchemaCanvas.Proofs.Edit.Outcome
import SchemaCanvas.Proofs.Selection.Moves
import SchemaCanvas.Session.Action

/-!
# One action of a session

An action changes the tree and the selection of a session in one of a few ways. `Session.Turn` lists
them with their conditions, and `Session.turn_perform` says that there are no others; a frame of
input is a list of chords and is left to the theory of runs. What is claimed of the tree or of the
selection after every action is proved by a case analysis on turns.

The host, the messages and the log do not matter here: `Session.tree_apply` and
`Session.selection_apply` say what an accepted operation leaves of them.
-/

namespace SchemaCanvas

/-- The selection after an accepted operation: the node that the operation selects, as it is found
in the new tree. -/
def SelectionState.afterEdit (s : SelectionState) (e : Edit) : SelectionState :=
  { s with selected := e.selection, hovered := none }.revalidate e.tree

namespace Session

variable (s : Session)

/-! ### The parts of a session -/

/-- Handing a tree to the host changes the message and the log alone. -/
theorem publish_eq (operation : Operation) (showToast : Bool) :
    ∃ toast log, (s.publish operation showToast).1 = { s with toast, log } := by
  rw [publish]
  cases s.host.bind fun host => host s.log s.tree operation with
  | some text =>
    dsimp only [notify]
    split_ifs <;> exact ⟨_, _, rfl⟩
  | none =>
    dsimp only [notify]
    split_ifs <;> exact ⟨_, _, rfl⟩

theorem tree_publish (operation : Operation) (showToast : Bool) :
    (s.publish operation showToast).1.tree = s.tree := by
  obtain ⟨toast, log, h⟩ := s.publish_eq operation showToast
  rw [h]

theorem selection_publish (operation : Operation) (showToast : Bool) :
    (s.publish operation showToast).1.selection = s.selection := by
  obtain ⟨toast, log, h⟩ := s.publish_eq operation showToast
  rw [h]

/-- The session after an accepted operation, whether or not the host takes the tree. -/
theorem fst_apply (e : Edit) :
    (s.apply e).1 = (({ s with tree := e.tree, next := e.next }.withSelection
      (s.selection.afterEdit e)).publish e.operation false).1 := by
  rw [apply, SelectionState.afterEdit]
  split <;> simp only [*]

theorem tree_apply (e : Edit) : (s.apply e).1.tree = e.tree := by
  rw [fst_apply, tree_publish]
  rfl

theorem selection_apply (e : Edit) : (s.apply e).1.selection = s.selection.afterEdit e := by
  rw [fst_apply, selection_publish]
  rfl

@[simp]
theorem fst_reply {α : Type} (result : Session × Except SessionError α) (ok : α → Reply) :
    (reply result ok).1 = result.1 := by
  obtain ⟨s, a | e⟩ := result <;> rfl

theorem tree_quietly {α : Type} (result : Session × Except SessionError α) :
    (s.quietly result).1.tree = result.1.tree := by
  obtain ⟨after, (_ | _) | _⟩ := result <;> rfl

theorem selection_quietly {α : Type} (result : Session × Except SessionError α) :
    (s.quietly result).1.selection = result.1.selection := by
  obtain ⟨after, (_ | _) | _⟩ := result <;> rfl

/-! ### Turns -/

/-- The result of an operation on the selected node of a session. -/
inductive Yields : Edit → Prop
  | cut {e : Edit} {n : Node} (h : Edit.cut s.next s.tree s.selection.selected = .ok (e, n)) :
      Yields e
  | paste {e : Edit}
      (h : Edit.paste s.next s.tree s.selection.selected s.selection.copied = .ok e) : Yields e
  | delete {e : Edit} (h : Edit.delete s.next s.tree s.selection.selected = .ok e) : Yields e
  | duplicate {e : Edit} (h : Edit.duplicate s.next s.tree s.selection.selected = .ok e) : Yields e
  | shift {e : Edit} {direction : Direction}
      (h : Edit.shift s.next s.tree s.selection.selected direction = .ok e) : Yields e
  | carry {e : Edit} {parent : Path} {gap : Nat}
      (h : Edit.carry s.next s.tree s.selection.selected parent gap = .ok e) : Yields e

/-- The command that selects a sibling. -/
def siblingCommand (backwards : Bool) : Command :=
  if backwards then .previousSibling else .nextSibling

/-- What an action can do to the tree and the selection. -/
inductive Turn : Action → Node → SelectionState → Prop
  /-- the tree stays -/
  | move (a : Action) {selection : SelectionState} (h : s.selection.Move selection) :
      Turn a s.tree selection
  | select (id : String) (path : Path) :
      Turn (.select id path) s.tree (s.selection.select id path).1
  | sibling (chord : Chord) (backwards : Bool)
      (h : Command.resolve? chord s.config.keyboard s.selection.enabled =
        some (siblingCommand backwards)) :
      Turn (.chord chord) s.tree (s.selection.selectSibling s.tree backwards).1
  | copy (a : Action) (n : Node) : Turn a s.tree { s.selection with copied := some n }
  /-- an operation on the selected node is accepted -/
  | edit (a : Action) (e : Edit) (copied : Option Node) (h : s.Yields e) :
      Turn a e.tree ({ s.selection with copied }.afterEdit e)
  /-- a change of content is accepted -/
  | content (pending : PendingEdit) (e : Edit) (hp : s.pending = some pending)
      (h : Edit.content s.next s.tree pending = .ok e) :
      Turn .commitEdit e.tree (s.selection.afterEdit e)
  | replace (tree : Node) :
      Turn (.replace tree) tree { enabled := s.selection.enabled, copied := s.selection.copied }
  | load (v : Json) (tree : Node) (next : Nat) (h : Schema.load s.next v = .ok (tree, next)) :
      Turn (.load v) tree { enabled := s.selection.enabled, copied := s.selection.copied }

variable {s}

theorem Turn.rest (a : Action) : s.Turn a s.tree s.selection := .move a .stay

theorem turn_finish (a : Action) {result : Except EditError Edit}
    (h : ∀ e, result = .ok e → s.Yields e) :
    s.Turn a (s.finish result).1.tree (s.finish result).1.selection := by
  cases result with
  | error error => exact .rest a
  | ok e =>
    have hturn := Turn.edit a e s.selection.copied (h e rfl)
    rwa [← selection_apply, ← tree_apply s] at hturn

theorem turn_cut (a : Action) : s.Turn a s.cut.1.tree s.cut.1.selection := by
  rw [cut]
  split
  · rename_i e n h
    have hturn := Turn.edit a e (some n) (.cut h)
    rw [selection_apply, tree_apply]
    exact hturn
  · exact .rest a

theorem turn_copy (a : Action) : s.Turn a s.copy.1.tree s.copy.1.selection := by
  rw [copy]
  split
  · rename_i n _
    exact .copy a n
  · exact .rest a

theorem turn_commitEdit : s.Turn .commitEdit s.commitEdit.1.tree s.commitEdit.1.selection := by
  rw [commitEdit]
  split
  · exact .rest _
  · rename_i pending hp
    show s.Turn _ (s.cancelEdit.finish (Edit.content s.next s.tree pending)).1.tree
      (s.cancelEdit.finish (Edit.content s.next s.tree pending)).1.selection
    cases h : Edit.content s.next s.tree pending with
    | error error => exact .rest _
    | ok e =>
      have hturn := Turn.content pending e hp h
      rw [finish, tree_apply, selection_apply]
      exact hturn

/-- A move of the selection in whatever tree the pointer is looked up. -/
theorem turn_lookup {α : Type} (a : Action) (tree : PointerTree)
    {inSchema : Node → SelectionState → SelectionState × α}
    {inOutput : Output → SelectionState → SelectionState × α} (ok : α → Reply)
    (hschema : ∀ t, s.selection.Move (inSchema t s.selection).1)
    (houtput : ∀ o, s.selection.Move (inOutput o s.selection).1) :
    s.Turn a (s.lookup tree inSchema inOutput ok).1.tree
      (s.lookup tree inSchema inOutput ok).1.selection := by
  cases tree with
  | schema => exact .move a (hschema s.tree)
  | rendered context =>
    rw [lookup]
    cases s.render context with
    | none => exact .rest a
    | some o => exact .move a (houtput o)

theorem turn_revalidate (a : Action) (tree : PointerTree) :
    s.Turn a (s.revalidate tree).1.tree (s.revalidate tree).1.selection := by
  cases tree with
  | schema => exact .move a (.follow s.tree)
  | rendered context =>
    rw [revalidate]
    cases s.render context with
    | none => exact .rest a
    | some o => exact .move a (.follow o)

theorem turn_load (v : Json) :
    s.Turn (.load v) (s.perform (.load v)).1.tree (s.perform (.load v)).1.selection := by
  rw [perform, load]
  cases h : Schema.load s.next v with
  | error error => exact .rest _
  | ok result => exact .load v result.1 result.2 h

theorem turn_publish (operation : Operation) (showToast : Bool) :
    s.Turn (.publish operation showToast) (s.perform (.publish operation showToast)).1.tree
      (s.perform (.publish operation showToast)).1.selection := by
  have hfst : (s.perform (.publish operation showToast)).1 = (s.publish operation showToast).1 := by
    rw [perform]
    split <;> simp only [*]
  rw [hfst, tree_publish, selection_publish]
  exact .rest _

theorem enabled_of_resolve? {chord : Chord} {config : KeyboardConfig} {enabled : Bool}
    {command : Command} (h : Command.resolve? chord config enabled = some command) :
    enabled = true := by
  rw [Command.resolve?] at h
  split at h
  · assumption
  · cases h

theorem turn_chord (chord : Chord) :
    s.Turn (.chord chord) (s.pressChord chord).1.tree (s.pressChord chord).1.selection := by
  rw [pressChord]
  cases h : Command.resolve? chord s.config.keyboard s.selection.enabled with
  | none => exact .rest _
  | some command =>
    have henabled : s.selection.enabled = true := enabled_of_resolve? h
    show s.Turn _ (s.run command).1.tree (s.run command).1.selection
    cases command with
    | escape => exact .move _ (SelectionState.move_escape _)
    | selectFirstChild => exact .move _ (SelectionState.move_selectFirstChild henabled s.tree)
    | selectParent => exact .move _ (SelectionState.move_selectParent henabled s.tree)
    | nextSibling => exact .sibling chord false h
    | previousSibling => exact .sibling chord true h
    | move direction =>
      rw [run, tree_quietly, selection_quietly]
      exact turn_finish _ fun e h => .shift h
    | copy =>
      rw [run, tree_quietly, selection_quietly]
      exact turn_copy _
    | cut =>
      rw [run, tree_quietly, selection_quietly]
      exact turn_cut _
    | paste =>
      rw [run, tree_quietly, selection_quietly]
      exact turn_finish _ fun e h => .paste h
    | duplicate =>
      rw [run, tree_quietly, selection_quietly]
      exact turn_finish _ fun e h => .duplicate h
    | delete =>
      rw [run, tree_quietly, selection_quietly]
      exact turn_finish _ fun e h => .delete h

/-- **An action makes one turn.** -/
theorem turn_perform {a : Action} (h : ∀ events, a ≠ .input events) :
    s.Turn a (s.perform a).1.tree (s.perform a).1.selection := by
  cases a with
  | select id path => exact .select id path
  | setHovered id path => exact .move _ (SelectionState.move_setHovered _ id path)
  | hover tree raw direct =>
    exact turn_lookup _ tree _ (fun _ => SelectionState.move_setHovered ..)
      fun _ => SelectionState.move_setHovered ..
  | click tree raw direct =>
    exact turn_lookup _ tree _ (fun t => SelectionState.move_commit _ t _)
      fun o => SelectionState.move_commit _ o _
  | doubleClick tree raw =>
    exact turn_lookup _ tree _ (fun t => SelectionState.move_doubleClick _ t raw)
      fun o => SelectionState.move_doubleClick _ o raw
  | revalidate tree => exact turn_revalidate _ tree
  | toChildren => exact .move _ (SelectionState.move_toChildren _ s.tree)
  | toParent => exact .move _ (SelectionState.move_toParent _)
  | setSelectionEnabled enabled => exact .move _ (SelectionState.move_setEnabled _ enabled)
  | copy => rw [perform, fst_reply]; exact turn_copy _
  | cut => rw [perform, fst_reply]; exact turn_cut _
  | paste => rw [perform, fst_reply]; exact turn_finish _ fun e h => .paste h
  | delete => rw [perform, fst_reply]; exact turn_finish _ fun e h => .delete h
  | duplicate => rw [perform, fst_reply]; exact turn_finish _ fun e h => .duplicate h
  | move direction => rw [perform, fst_reply]; exact turn_finish _ fun e h => .shift h
  | moveTo parent gap => rw [perform, fst_reply]; exact turn_finish _ fun e h => .carry h
  | beginEdit edit => exact .rest _
  | cancelEdit => exact .rest _
  | commitEdit => rw [perform, fst_reply]; exact turn_commitEdit
  | chord chord => rw [perform, fst_reply]; exact turn_chord chord
  | input events => exact absurd rfl (h events)
  | notify toast => exact .rest _
  | takeToast => exact .rest _
  | replace tree => exact .replace tree
  | load v => exact turn_load v
  | setKeyboard config => exact .rest _
  | setHost host => exact .rest _
  | publish operation showToast => exact turn_publish operation showToast
  | render context => exact .rest _

end Session

end SchemaCanvas
