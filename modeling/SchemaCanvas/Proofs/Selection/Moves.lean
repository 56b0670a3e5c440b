import SchemaCanvas.Selection.State
import Mathlib.Tactic.SplitIfs

/-!
# Moves of the selection

A selection changes in one of a few ways, which `SelectionState.Move` lists with their conditions.
The pointer, the keyboard and the host make such moves, with two exceptions that are left to
themselves: a host may select any node at any path, and a step to a sibling keeps the level.

* `SelectionState.move_commit` : what the pointer does;
* `SelectionState.move_selectFirstChild`, `move_selectParent` and `move_escape` : the keyboard;
* `SelectionState.length_of_sibling?` : how deep a sibling lies.
-/

namespace SchemaCanvas

namespace SelectionState

variable {s : SelectionState} {tree : Node} {id : String} {path : Path}

/-! ### Selecting -/

theorem select_of_disabled (h : s.enabled = false) (id : String) (path : Path) :
    s.select id path = (s, false) := by
  simp [select, h]

/-- While selection is on, a node is selected whether or not that changes anything. -/
theorem fst_select_of_enabled (h : s.enabled = true) (id : String) (path : Path) :
    (s.select id path).1 = { s with selected := some ⟨id, path⟩ } := by
  by_cases hsel : s.selected = some ⟨id, path⟩
  · simp [select, hsel]
    rw [← hsel]
  · simp [select, h, hsel]

theorem fst_selectAt_of_enabled (h : s.enabled = true) (level : Nat) (id : String) (path : Path) :
    (s.selectAt level id path).1 = { s with level, selected := some ⟨id, path⟩ } :=
  fst_select_of_enabled (s := { s with level }) h id path

/-- A node that the pointer selects is selected afterwards, and is one of the tree. -/
theorem selected_of_commit {T : Type} [Lookup T] {tree : T} {target : Path} {sel : Selection}
    (h : (s.commit tree target).2 = some sel) :
    (s.commit tree target).1.selected = some sel ∧ Lookup.idAt? tree sel.path = some sel.id := by
  unfold commit at h ⊢
  split_ifs at h ⊢ with hcan
  split at h
  · next id hid =>
    have henabled : s.enabled = true := (Bool.and_eq_true_iff.1 hcan).1
    have hnext := fst_selectAt_of_enabled henabled (target.length - 1) id target
    have hsel : (s.selectAt (target.length - 1) id target).1.selected = some sel := h
    obtain rfl : ⟨id, target⟩ = sel := by
      rw [hnext] at hsel
      exact Option.some.inj hsel
    rw [hid]
    exact ⟨hsel, rfl⟩
  · cases h

/-! ### Following a change of the tree -/

/-- A selected node that is followed through a change is at the level of its path. -/
theorem level_revalidate {T : Type} [Lookup T] {tree : T} {sel : Selection}
    (h : (s.revalidate tree).selected = some sel) :
    (s.revalidate tree).level = sel.path.length - 1 := by
  change s.selected.bind (follow? tree) = some sel at h
  simp only [revalidate, h]

/-! ### Steps of the keyboard -/

theorem ne_nil_of_firstChild? (h : s.firstChild? tree = some (id, path)) : path ≠ [] := by
  simp only [firstChild?, Option.bind_eq_bind, Option.bind_eq_some_iff, Option.some.injEq,
    Prod.mk.injEq] at h
  obtain ⟨_, _, own, _, _, _, first, _, _, _, _, rfl⟩ := h
  simp

theorem ne_nil_of_parent? (h : s.parent? tree = some (id, path)) : path ≠ [] := by
  simp only [parent?, Option.bind_eq_bind, Option.bind_eq_some_iff] at h
  obtain ⟨_, _, own, _, parent, _, h⟩ := h
  split_ifs at h with hroot
  obtain ⟨_, _, h⟩ := Option.bind_eq_some_iff.1 h
  obtain ⟨-, rfl⟩ := Prod.mk.inj (Option.some.inj h)
  simpa using hroot

/-- A sibling lies as deep as the selected node does in the tree as it is now. -/
theorem length_of_sibling? {backwards : Bool} (h : s.sibling? tree backwards = some (id, path)) :
    ∃ sel own, s.selected = some sel ∧ sel.locate? tree = some own ∧ path.length = own.length := by
  simp only [sibling?, Option.bind_eq_bind, Option.bind_eq_some_iff] at h
  obtain ⟨sel, hsel, own, hown, last, hlast, home, -, h⟩ := h
  by_cases halone : home.childPositions.length < 2
  · rw [if_pos halone] at h
    cases h
  rw [if_neg halone] at h
  simp only [Option.bind_eq_some_iff, Option.some.injEq, Prod.mk.injEq] at h
  obtain ⟨i, -, other, -, _, -, -, rfl⟩ := h
  refine ⟨sel, own, hsel, hown, ?_⟩
  have hne : own ≠ [] := by
    rintro rfl
    cases hlast
  have := List.length_pos_iff.2 hne
  rw [List.length_append, List.length_dropLast, List.length_singleton]
  omega

/-! ### Moves -/

/-- What can be done to a selection. -/
inductive Move (s : SelectionState) : SelectionState → Prop
  /-- nothing changes -/
  | stay : Move s s
  | hover (target : Option Selection) (h : s.enabled = true) : Move s { s with hovered := target }
  /-- a node below the root is selected, at its own level -/
  | land (sel : Selection) (hovered : Option Selection) (h : s.enabled = true)
      (hroot : sel.path ≠ []) :
      Move s { s with selected := some sel, hovered, level := sel.path.length - 1 }
  /-- nothing is selected or hovered any more -/
  | clear (level : Nat) (enabled : Bool) :
      Move s { s with selected := none, hovered := none, level, enabled }
  | enable : Move s { s with enabled := true }
  /-- the selected and the hovered node are looked up in a tree -/
  | follow {T : Type} [Lookup T] (tree : T) : Move s (s.revalidate tree)

variable (s)

theorem move_setHovered (id : Option String) (path : Path) : s.Move (s.setHovered id path).1 := by
  rw [setHovered]
  split_ifs with h
  · exact .hover _ (Bool.and_eq_true_iff.1 h).1
  · exact .stay

theorem move_setEnabled (enabled : Bool) : s.Move (s.setEnabled enabled) := by
  cases enabled with
  | false => exact .clear s.level false
  | true => exact .enable

theorem move_toChildren (tree : Node) : s.Move (s.toChildren tree).1 := by
  rw [toChildren]
  dsimp only
  split_ifs
  · exact .clear (s.level + 1) s.enabled
  · exact .stay

theorem move_toParent : s.Move s.toParent.1 := by
  rw [toParent]
  split
  · exact .stay
  · rename_i level _
    exact .clear level s.enabled

theorem move_escape : s.Move s.escape.1 := by
  rw [escape]
  split_ifs
  · exact .clear s.level s.enabled
  · exact move_toParent s

section

variable {T : Type} [Lookup T] (tree : T)

theorem move_commit (target : Path) : s.Move (s.commit tree target).1 := by
  rw [commit]
  split_ifs with h
  · obtain ⟨henabled, htarget⟩ := Bool.and_eq_true_iff.1 h
    cases Lookup.idAt? tree target with
    | none => exact .stay
    | some id =>
      have hselect := fst_selectAt_of_enabled henabled (target.length - 1) id target
      show s.Move (s.selectAt (target.length - 1) id target).1
      rw [hselect]
      exact .land ⟨id, target⟩ s.hovered henabled (by simpa using htarget)
  · exact .stay

theorem move_doubleClick (raw : Path) : s.Move (s.doubleClick tree raw).1 := by
  rw [doubleClick]
  split
  · exact move_commit s tree _
  · exact .stay

end

variable {s} (h : s.enabled = true) (tree : Node)
include h

theorem move_selectFirstChild : s.Move (s.selectFirstChild tree).1 := by
  rw [selectFirstChild]
  split
  · rename_i id path hchild
    rw [fst_selectAt_of_enabled h]
    exact .land ⟨id, path⟩ s.hovered h (ne_nil_of_firstChild? hchild)
  · exact .stay

theorem move_selectParent : s.Move (s.selectParent tree).1 := by
  rw [selectParent]
  split
  · rename_i id path hparent
    have henabled : ({ s with hovered := none } : SelectionState).enabled = true := h
    rw [fst_selectAt_of_enabled henabled]
    exact .land ⟨id, path⟩ none h (ne_nil_of_parent? hparent)
  · exact .stay

end SelectionState

end SchemaCanvas
