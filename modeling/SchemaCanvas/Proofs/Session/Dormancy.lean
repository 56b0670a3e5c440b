import SchemaCanvas.Proofs.Schema.Find
import SchemaCanvas.Proofs.Selection.Moves
import SchemaCanvas.Proofs.Session.Run

/-!
# Sessions without selection

A host can turn selection off, and nothing should be selected or hovered then. The pointer and the
keyboard look at the switch, and an operation on the selected node is rejected without one. A change
of content needs no selection: it finds its node by id, and it selects that node whether selection
is on or off.

* `Edit.dormant_content_iff` : what a change of content does to a dormant selection;
* `Session.dormant_after_iff` : what one step does to it;
* `Session.forall_dormant_iff` : nothing is selected along a run while selection is off, if and only
  if the run does not commit a change below the root then.
-/

namespace SchemaCanvas

namespace SelectionState

variable {s : SelectionState}

/-- While selection is off, nothing is selected or hovered. -/
def Dormant (s : SelectionState) : Prop := s.enabled = false → s.selected = none ∧ s.hovered = none

theorem dormant_of_enabled (h : s.enabled = true) : s.Dormant := by
  intro hoff
  rw [h] at hoff
  cases hoff

theorem dormant_select (hs : s.Dormant) (id : String) (path : Path) :
    (s.select id path).1.Dormant := by
  cases h : s.enabled with
  | false => rwa [select_of_disabled h]
  | true =>
    rw [fst_select_of_enabled h]
    exact dormant_of_enabled h

theorem Move.dormant {selection : SelectionState} (h : s.Move selection) (hs : s.Dormant) :
    selection.Dormant := by
  cases h with
  | stay => exact hs
  | hover _ henabled | land _ _ henabled => exact dormant_of_enabled henabled
  | clear => exact fun _ => ⟨rfl, rfl⟩
  | enable => exact dormant_of_enabled rfl
  | follow tree =>
    intro hoff
    obtain ⟨hselected, hhovered⟩ := hs hoff
    simp [revalidate, hselected, hhovered]

theorem dormant_selectSibling (h : s.enabled = true) (tree : Node) (backwards : Bool) :
    (s.selectSibling tree backwards).1.Dormant := by
  rw [selectSibling]
  split
  · rename_i id path _
    rw [fst_selectAt_of_enabled h]
    exact dormant_of_enabled h
  · exact dormant_of_enabled h

end SelectionState

/-! ### Changes of content -/

namespace Edit

/-- A change of content selects its node, unless that is the root. -/
theorem dormant_content_iff {next : Nat} {tree : Node} {pending : PendingEdit} {e : Edit}
    (h : content next tree pending = .ok e) (s : SelectionState) :
    (s.afterEdit e).Dormant ↔ (s.enabled = false → tree.pathOf? pending.id = some []) := by
  obtain ⟨path, new, -, hpath, hnew, rfl⟩ := content_eq_ok_iff.1 h
  -- the node is found at the same path when the selection is followed through the change
  have hfound : new.pathOf? pending.id = some path :=
    Node.pathOf?_of_modify? (id_applyTo pending) hpath hnew
  have hfollow : SelectionState.follow? new ⟨pending.id, path⟩ =
      if path = [] then none else some ⟨pending.id, path⟩ := by
    simp only [SelectionState.follow?, Lookup.pathOf?, hfound]
    by_cases hroot : path = [] <;> simp [hroot]
  rw [hpath, Option.some.injEq]
  refine imp_congr_right fun _ => ?_
  simp only [SelectionState.afterEdit, SelectionState.revalidate, Option.bind_some, hfollow,
    Option.bind_none, and_true]
  by_cases hroot : path = [] <;> simp [hroot]

end Edit

namespace Session

variable {s : Session}

theorem Yields.selected_ne_none {e : Edit} (h : s.Yields e) : s.selection.selected ≠ none := by
  intro hnone
  have habsurd {path : Path} :
      (s.selection.selected.bind fun sel => sel.locate? s.tree) ≠ some path := by
    rw [hnone]
    nofun
  cases h with
  | cut h =>
    obtain ⟨_, _, hpath, -⟩ := Edit.remove_eq_ok_iff.1 h
    exact habsurd hpath
  | paste h =>
    obtain ⟨_, _, _, _, -, hpath, -⟩ := Edit.paste_eq_ok_iff.1 h
    exact habsurd hpath
  | delete h =>
    obtain ⟨_, h⟩ := Edit.delete_eq_ok_iff.1 h
    obtain ⟨_, _, hpath, -⟩ := Edit.remove_eq_ok_iff.1 h
    exact habsurd hpath
  | duplicate h =>
    obtain ⟨_, _, _, _, hpath, -⟩ := Edit.duplicate_eq_ok_iff.1 h
    exact habsurd hpath
  | shift h =>
    obtain ⟨_, _, _, _, hpath, -⟩ := Edit.shift_eq_ok_iff.1 h
    exact habsurd hpath
  | carry h =>
    obtain ⟨_, _, _, _, hpath, -⟩ := Edit.carry_eq_ok_iff.1 h
    exact habsurd hpath

/-- A turn keeps a selection dormant, if it changes content only where that keeps it dormant. -/
theorem Turn.dormant {a : Action} {tree : Node} {selection : SelectionState}
    (h : s.Turn a tree selection) (hs : s.selection.Dormant)
    (hcontent : ∀ pending e, a = .commitEdit → s.pending = some pending →
      Edit.content s.next s.tree pending = .ok e → (s.selection.afterEdit e).Dormant) :
    selection.Dormant := by
  cases h with
  | move _ h => exact h.dormant hs
  | copy => exact hs
  | select id path => exact SelectionState.dormant_select hs id path
  | sibling _ backwards h =>
    exact SelectionState.dormant_selectSibling (enabled_of_resolve? h) s.tree backwards
  | edit _ e copied h =>
    -- an accepted operation has found a selected node
    exact fun hoff => absurd (hs hoff).1 h.selected_ne_none
  | content pending e hpending h => exact hcontent pending e rfl hpending h
  | replace | load => exact fun _ => ⟨rfl, rfl⟩

/-- The step makes a change of content below the root while selection is off. -/
def Step.Wakes (x : Step) : Prop :=
  x.action = .commitEdit ∧ x.before.selection.enabled = false ∧
    ∃ pending path, x.before.pending = some pending ∧ pending.isEmpty = false ∧
      x.before.tree.pathOf? pending.id = some path ∧ path ≠ []

theorem selection_commitEdit {pending : PendingEdit} {e : Edit} (hp : s.pending = some pending)
    (h : Edit.content s.next s.tree pending = .ok e) :
    s.commitEdit.1.selection = s.selection.afterEdit e := by
  rw [commitEdit, hp]
  show (s.cancelEdit.finish (Edit.content s.next s.tree pending)).1.selection = _
  rw [h, finish, selection_apply]
  rfl

theorem dormant_after_iff {x : Step} (hinput : ∀ events, x.action ≠ .input events)
    (hbefore : x.before.selection.Dormant) : x.after.selection.Dormant ↔ ¬ x.Wakes := by
  obtain ⟨s, a⟩ := x
  constructor
  · rintro hafter ⟨rfl, hoff, pending, path, hpending, hempty, hpath, hroot⟩
    -- the change is accepted, as its node is found
    obtain ⟨node, hnode, -⟩ := Node.exists_get?_of_pathOf? hpath
    have hsome := s.tree.isSome_modify? (Node.withElement (Edit.applyTo pending)) path
    rw [hnode, Option.isSome_some, Option.isSome_iff_exists] at hsome
    obtain ⟨new, hnew⟩ := hsome
    have hcontent : Edit.content s.next s.tree pending =
        .ok ⟨new, some ⟨pending.id, path⟩, .edit, s.next⟩ :=
      Edit.content_eq_ok_iff.2 ⟨path, new, hempty, hpath, hnew, rfl⟩
    change (reply s.commitEdit .operation).1.selection.Dormant at hafter
    rw [fst_reply, selection_commitEdit hpending hcontent,
      Edit.dormant_content_iff hcontent] at hafter
    have hfound := hafter hoff
    rw [hpath] at hfound
    exact hroot (Option.some.inj hfound)
  · intro hwakes
    refine (turn_perform hinput).dormant hbefore fun pending e ha hpending hcontent => ?_
    rw [Edit.dormant_content_iff hcontent]
    intro hoff
    obtain ⟨path, _, hempty, hpath, -, -⟩ := Edit.content_eq_ok_iff.1 hcontent
    by_contra hroot
    refine hwakes ⟨ha, hoff, pending, path, hpending, hempty, hpath, ?_⟩
    rintro rfl
    exact hroot hpath

/-- **Nothing is selected or hovered along a run while selection is off, if and only if no step of
the run makes a change of content below the root then.** -/
theorem forall_dormant_iff (tree : Node) (next : Nat) (config : Config) (transforms : Transforms)
    (host : Option Host) (actions : List Action) :
    (∀ x ∈ (start tree next config transforms host).steps actions, x.after.selection.Dormant) ↔
      ∀ x ∈ (start tree next config transforms host).steps actions, ¬ x.Wakes := by
  have hstart : (start tree next config transforms host).selection.Dormant := fun _ => ⟨rfl, rfl⟩
  refine (trace_steps _ actions).forall_after_iff (I := fun s => s.selection.Dormant) hstart
    fun x hx hbefore => ?_
  obtain ⟨hinput, -⟩ := action_of_mem_steps hx
  exact dormant_after_iff hinput hbefore

/-- A page with one section. -/
def sectionTree : Node where
  element := {
    id := "root", type := "div",
    children := some [.node { element := { id := "a", type := "div" } }] }

/-- The section is selected by the change of its text, although selection is off. -/
theorem not_dormant_sectionTree :
    ¬ ((start sectionTree 0 { selectionEnabled := false } [] none).performAll
      [.beginEdit { id := "a", text := some "x" }, .commitEdit]).selection.Dormant := by
  intro h
  obtain ⟨hselected, -⟩ := h rfl
  cases hselected

end Session

end SchemaCanvas
