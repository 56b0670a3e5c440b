import SchemaCanvas.Edit.Operation
import SchemaCanvas.Proofs.Ids.Unique
import SchemaCanvas.Proofs.Schema.Preorder
import SchemaCanvas.Proofs.Selection.Moves

/-!
# Recorded paths

A selection holds the id of a node and the path at which it was selected. The node is looked for by
its id, and the recorded path counts only where that finds nothing. It never does: the search is
exact, so where it finds nothing the recorded path has no node with the id either. Two selections of
one id are therefore interchangeable in every operation on the tree and every step of the keyboard.

* `Selection.locate?_congr` : both are found at the same path;
* `Selection.interchangeable` : what follows for the operations and the steps;
* `Node.pathOf?_exact` : the search is exact, and recorded paths do not matter.
-/

namespace SchemaCanvas

namespace SelectionState

/-- The steps of the keyboard that lead from the selected node to another one. -/
def keyboardSteps (tree : Node) : List (SelectionState → SelectionState × Option Selection) :=
  [fun s => s.selectFirstChild tree, fun s => s.selectParent tree,
    fun s => s.selectSibling tree false, fun s => s.selectSibling tree true]

/-- The state with another selected node. -/
def selecting (s : SelectionState) (sel : Selection) : SelectionState :=
  { s with selected := some sel }

/-- The state without the path that is recorded for the selected node. -/
def unrecorded (s : SelectionState) : SelectionState :=
  { s with selected := s.selected.map fun sel => { sel with path := [] } }

/-- Two results of a step are the same, up to a recorded path. A step that selects nothing, be it
that there is no target or that selection is off, leaves the selection with that path. -/
structure Agree (enabled : Bool) (r r' : SelectionState × Option Selection) : Prop where
  state : r.1.unrecorded = r'.1.unrecorded
  id : r.2.map Selection.id = r'.2.map Selection.id
  target : enabled = true → r.2 = r'.2

end SelectionState

/-- Two selections are interchangeable in a tree: every operation gives the same tree, node or
rejection, and every step of the keyboard has the same target, whether selection is on or off, and
the same result. -/
structure Selection.Interchangeable (tree : Node) (sel other : Selection) : Prop where
  copy : Edit.copy tree (some sel) = Edit.copy tree (some other)
  cut (next : Nat) : Edit.cut next tree (some sel) = Edit.cut next tree (some other)
  paste (next : Nat) (clipboard : Option Node) :
    Edit.paste next tree (some sel) clipboard = Edit.paste next tree (some other) clipboard
  delete (next : Nat) : Edit.delete next tree (some sel) = Edit.delete next tree (some other)
  duplicate (next : Nat) :
    Edit.duplicate next tree (some sel) = Edit.duplicate next tree (some other)
  shift (next : Nat) (direction : Direction) :
    Edit.shift next tree (some sel) direction = Edit.shift next tree (some other) direction
  carry (next : Nat) (parent : Path) (gap : Nat) :
    Edit.carry next tree (some sel) parent gap = Edit.carry next tree (some other) parent gap
  firstChild (s : SelectionState) :
    (s.selecting sel).firstChild? tree = (s.selecting other).firstChild? tree
  parent (s : SelectionState) : (s.selecting sel).parent? tree = (s.selecting other).parent? tree
  sibling (s : SelectionState) (backwards : Bool) :
    (s.selecting sel).sibling? tree backwards = (s.selecting other).sibling? tree backwards
  escape (s : SelectionState) : (s.selecting sel).escape = (s.selecting other).escape
  step (s : SelectionState) (f) (hf : f ∈ SelectionState.keyboardSteps tree) :
    SelectionState.Agree s.enabled (f (s.selecting sel)) (f (s.selecting other))
  toChildren (s : SelectionState) :
    ((s.selecting sel).toChildren tree).1.unrecorded =
        ((s.selecting other).toChildren tree).1.unrecorded ∧
      ((s.selecting sel).toChildren tree).2 = ((s.selecting other).toChildren tree).2

section

variable {tree : Node} {sel other : Selection} (h : sel.id = other.id)
include h

/-! ### Operations -/

theorem Selection.locate?_congr : sel.locate? tree = other.locate? tree := by
  rw [sel.locate?_eq_pathOf?, other.locate?_eq_pathOf?, h]

namespace Edit

theorem locate_congr : locate tree (some sel) = locate tree (some other) := by
  simp only [locate, Selection.locate?_congr h, h]

theorem locateBelowRoot_congr (operation : Operation) :
    locateBelowRoot tree (some sel) operation = locateBelowRoot tree (some other) operation := by
  rw [locateBelowRoot, locateBelowRoot, locate_congr h]

theorem found_congr : found tree (some sel) = found tree (some other) := by
  funext path
  simp only [found, h]

theorem remove_congr (next : Nat) (operation : Operation) :
    remove next tree (some sel) operation = remove next tree (some other) operation := by
  rw [remove, remove, locateBelowRoot_congr h, found_congr h]

end Edit

/-! ### Steps of the keyboard -/

namespace SelectionState

theorem unrecorded_selecting (s : SelectionState) :
    (s.selecting sel).unrecorded = (s.selecting other).unrecorded := by
  simp only [unrecorded, selecting, Option.map_some, h]

omit h in
theorem selectAt_of_disabled {s : SelectionState} (hs : s.enabled = false) (level : Nat)
    (id : String) (path : Path) :
    s.selectAt level id path = ({ s with level }, s.selected) := by
  simp only [selectAt, select_of_disabled (s := { s with level }) hs]

/-- Where a step selects a node, what was selected before does not matter. -/
theorem selectAt_congr (s : SelectionState) (level : Nat) (id : String) (path : Path) :
    Agree s.enabled ((s.selecting sel).selectAt level id path)
      ((s.selecting other).selectAt level id path) := by
  cases henabled : s.enabled with
  | false =>
    have hsel := selectAt_of_disabled (s := s.selecting sel) henabled level id path
    have hother := selectAt_of_disabled (s := s.selecting other) henabled level id path
    rw [hsel, hother]
    exact ⟨unrecorded_selecting h { s with level }, congrArg some h, by simp⟩
  | true =>
    have hsel := fst_selectAt_of_enabled (s := s.selecting sel) henabled level id path
    have hother := fst_selectAt_of_enabled (s := s.selecting other) henabled level id path
    have htarget : ((s.selecting sel).selectAt level id path).2 =
        ((s.selecting other).selectAt level id path).2 := by
      show ((s.selecting sel).selectAt level id path).1.selected =
        ((s.selecting other).selectAt level id path).1.selected
      rw [hsel, hother]
    exact ⟨by rw [hsel, hother]; rfl, congrArg _ htarget, fun _ => htarget⟩

theorem firstChild?_congr (s : SelectionState) :
    (s.selecting sel).firstChild? tree = (s.selecting other).firstChild? tree := by
  simp only [firstChild?, selecting, Option.bind_eq_bind, Option.bind_some,
    Selection.locate?_congr h]

theorem parent?_congr (s : SelectionState) :
    (s.selecting sel).parent? tree = (s.selecting other).parent? tree := by
  simp only [parent?, selecting, Option.bind_eq_bind, Option.bind_some,
    Selection.locate?_congr h]

theorem sibling?_congr (s : SelectionState) (backwards : Bool) :
    (s.selecting sel).sibling? tree backwards = (s.selecting other).sibling? tree backwards := by
  simp only [sibling?, selecting, Option.bind_eq_bind, Option.bind_some,
    Selection.locate?_congr h]

theorem selectFirstChild_congr (s : SelectionState) :
    Agree s.enabled ((s.selecting sel).selectFirstChild tree)
      ((s.selecting other).selectFirstChild tree) := by
  rw [selectFirstChild, selectFirstChild, firstChild?_congr h]
  cases (s.selecting other).firstChild? tree with
  | none => exact ⟨unrecorded_selecting h s, rfl, fun _ => rfl⟩
  | some target => exact selectAt_congr h s (target.2.length - 1) target.1 target.2

theorem selectParent_congr (s : SelectionState) :
    Agree s.enabled ((s.selecting sel).selectParent tree)
      ((s.selecting other).selectParent tree) := by
  rw [selectParent, selectParent, parent?_congr h]
  cases (s.selecting other).parent? tree with
  | none => exact ⟨unrecorded_selecting h s, rfl, fun _ => rfl⟩
  | some target =>
    exact selectAt_congr h { s with hovered := none } (target.2.length - 1) target.1 target.2

theorem selectSibling_congr (s : SelectionState) (backwards : Bool) :
    Agree s.enabled ((s.selecting sel).selectSibling tree backwards)
      ((s.selecting other).selectSibling tree backwards) := by
  rw [selectSibling, selectSibling, sibling?_congr h]
  cases (s.selecting other).sibling? tree backwards with
  | none => exact ⟨unrecorded_selecting h s, rfl, fun _ => rfl⟩
  | some target => exact selectAt_congr h s s.level target.1 target.2

theorem toChildren_congr (s : SelectionState) :
    ((s.selecting sel).toChildren tree).1.unrecorded =
        ((s.selecting other).toChildren tree).1.unrecorded ∧
      ((s.selecting sel).toChildren tree).2 = ((s.selecting other).toChildren tree).2 := by
  have hnode : ((s.selecting sel).selected.bind fun sel => (sel.locate? tree).bind tree.get?) =
      (s.selecting other).selected.bind fun sel => (sel.locate? tree).bind tree.get? := by
    simp only [selecting, Option.bind_some, Selection.locate?_congr h]
  simp only [toChildren, hnode]
  split_ifs
  · exact ⟨rfl, rfl⟩
  · exact ⟨unrecorded_selecting h s, rfl⟩

end SelectionState

/-- **Selections of one id are interchangeable.** -/
theorem Selection.interchangeable (tree : Node) : sel.Interchangeable tree other where
  copy := by rw [Edit.copy, Edit.copy, Edit.locate_congr h, Edit.found_congr h]
  cut next := Edit.remove_congr h next .cut
  paste next clipboard := by
    simp only [Edit.paste, Edit.locate_congr h, Option.map_some, h]
  delete next := by rw [Edit.delete, Edit.delete, Edit.remove_congr h]
  duplicate next := by rw [Edit.duplicate, Edit.duplicate, Edit.locateBelowRoot_congr h]
  shift next direction := by rw [Edit.shift, Edit.shift, Edit.locateBelowRoot_congr h]
  carry next parent gap := by rw [Edit.carry, Edit.carry, Edit.locateBelowRoot_congr h]
  firstChild := SelectionState.firstChild?_congr h
  parent := SelectionState.parent?_congr h
  sibling := SelectionState.sibling?_congr h
  escape s := rfl
  step s := by
    simp only [SelectionState.keyboardSteps, List.forall_mem_cons]
    exact ⟨SelectionState.selectFirstChild_congr h s, SelectionState.selectParent_congr h s,
      SelectionState.selectSibling_congr h s false, SelectionState.selectSibling_congr h s true,
      fun _ hf => absurd hf List.not_mem_nil⟩
  toChildren s := SelectionState.toChildren_congr h s

end

/-- **The search for an id is exact, and recorded paths do not matter.** What is found is the first
path with the id, in the lexicographic order of paths, in which a node comes before its children and
these come from first to last; nothing is found if and only if no path has the id. So a selection is
found where its id is, and selections of one id are interchangeable. -/
theorem Node.pathOf?_exact (tree : Node) :
    (∀ id path, tree.pathOf? id = some path ↔ (∃ n, tree.get? path = some n ∧ n.id = id) ∧
      ∀ other n, tree.get? other = some n → n.id = id → other ≠ path →
        List.Lex (· < ·) path other) ∧
    (∀ id, tree.pathOf? id = none ↔ ∀ path n, tree.get? path = some n → n.id ≠ id) ∧
    (∀ sel : Selection, sel.locate? tree = tree.pathOf? sel.id) ∧
    ∀ sel other : Selection, sel.id = other.id → sel.Interchangeable tree other :=
  ⟨fun _ _ => pathOf?_eq_some_iff_first, fun _ => pathOf?_eq_none_iff,
    fun sel => sel.locate?_eq_pathOf? tree, fun _ _ h => Selection.interchangeable h tree⟩

end SchemaCanvas
