import SchemaCanvas.Proofs.Selection.Moves

/-!
# Clicking at one place

The target of the pointer is given by cases: the selection itself, a child of it, a node above it,
or else a node beside the way to it. All of them are one rule: of the path under the pointer as many
steps are taken as it shares with the selection, and one more. So a click at one place always goes
one level deeper on the way to that place, and repeated clicks arrive there and stay.

* `hoverTarget_eq_take` : the rule;
* `SelectionState.click_eq` : what one click does to the selection;
* `SelectionState.sharedLength_clicks` : how far repeated clicks have come;
* `SelectionState.clicks_arrive` : the rule once more, and that repeated clicks arrive.
-/

namespace SchemaCanvas

namespace Path

/-! ### Shared steps -/

theorem commonLength_le_right (p q : Path) : commonLength p q ≤ q.length := by
  induction p generalizing q with
  | nil => simp [commonLength]
  | cons i p ih =>
    cases q with
    | nil => simp [commonLength]
    | cons j q =>
      rw [commonLength, List.length_cons]
      split_ifs
      · exact Nat.succ_le_succ (ih q)
      · exact Nat.zero_le _

theorem commonLength_append (p below : Path) : commonLength p (p ++ below) = p.length := by
  induction p with
  | nil => simp [commonLength]
  | cons i p ih => rw [List.cons_append, commonLength, if_pos rfl, ih, List.length_cons]

theorem commonLength_append_left (p below : Path) : commonLength (p ++ below) p = p.length := by
  induction p with
  | nil => cases below <;> rfl
  | cons i p ih => rw [List.cons_append, commonLength, if_pos rfl, ih, List.length_cons]

theorem commonLength_take (p : Path) (k : Nat) : commonLength (p.take k) p = min k p.length := by
  have hsplit := commonLength_append (p.take k) (p.drop k)
  rwa [List.take_append_drop, List.length_take] at hsplit

end Path

/-- How many leading steps of a path are those of the selected path. -/
def sharedLength (selected : Option Path) (path : Path) : Nat :=
  match selected with
  | none => 0
  | some sel => sel.commonLength path

theorem sharedLength_le (selected : Option Path) (path : Path) :
    sharedLength selected path ≤ path.length := by
  cases selected with
  | none => exact Nat.zero_le _
  | some sel => exact Path.commonLength_le_right sel path

/-! ### The target of the pointer -/

/-- **The target is one step further than what is shared with the selection.** -/
theorem hoverTarget_eq_take (sel hovered : Path) :
    hoverTarget (some sel) hovered = hovered.take (sel.commonLength hovered + 1) := by
  simp only [hoverTarget]
  split_ifs with h
  · -- in the special cases there is at most one step left
    refine (List.take_of_length_le ?_).symm
    simp only [Bool.or_eq_true, decide_eq_true_eq, Bool.and_eq_true, beq_iff_eq, Path.isAbove,
      List.isPrefixOf_iff_prefix] at h
    rcases h with (rfl | ⟨⟨below, rfl⟩, hlength⟩) | ⟨⟨below, rfl⟩, -⟩
    · have hself := Path.commonLength_append hovered []
      rw [List.append_nil] at hself
      omega
    · rw [Path.commonLength_append]
      omega
    · rw [Path.commonLength_append_left]
      omega
  · rfl

/-- Without a selection the pointer has the target that it has with the root selected. -/
theorem hoverTarget_none (hovered : Path) :
    hoverTarget none hovered = hoverTarget (some []) hovered := by
  rw [hoverTarget_eq_take]
  cases hovered <;> rfl

theorem hoverTarget_eq (selected : Option Path) (hovered : Path) :
    hoverTarget selected hovered = hovered.take (sharedLength selected hovered + 1) := by
  cases selected with
  | none => rfl
  | some sel => exact hoverTarget_eq_take sel hovered

namespace SelectionState

variable {T : Type} [Lookup T]

/-! ### Clicks -/

/-- The state after so many clicks at one place. -/
def clicks (tree : T) (raw : Path) (s : SelectionState) : Nat → SelectionState
  | 0 => s
  | count + 1 => ((clicks tree raw s count).click tree raw false).1

variable {tree : T} {s : SelectionState} {raw : Path}

theorem click_eq (henabled : s.enabled = true) (hraw : raw ≠ [])
    (hknown : ∀ path, path <+: raw → path ≠ [] → (Lookup.idAt? tree path).isSome) :
    ∃ id, Lookup.idAt? tree (raw.take (sharedLength s.selectedPath raw + 1)) = some id ∧
      (s.click tree raw false).1 =
        { s with
          selected := some ⟨id, raw.take (sharedLength s.selectedPath raw + 1)⟩
          level := (raw.take (sharedLength s.selectedPath raw + 1)).length - 1 } := by
  have htarget : s.pointerTarget raw false = raw.take (sharedLength s.selectedPath raw + 1) :=
    hoverTarget_eq s.selectedPath raw
  have hne : raw.take (sharedLength s.selectedPath raw + 1) ≠ [] := by simp [hraw]
  obtain ⟨id, hid⟩ := Option.isSome_iff_exists.1 (hknown _ (List.take_prefix _ _) hne)
  refine ⟨id, hid, ?_⟩
  rw [click, htarget, commit, if_pos (by simp [henabled, hne]), hid]
  exact fst_selectAt_of_enabled henabled _ id _

/-- **Every click comes one step further, up to the place.** -/
theorem sharedLength_clicks (henabled : s.enabled = true) (hraw : raw ≠ [])
    (hknown : ∀ path, path <+: raw → path ≠ [] → (Lookup.idAt? tree path).isSome) (count : Nat) :
    (s.clicks tree raw count).enabled = true ∧
      sharedLength (s.clicks tree raw count).selectedPath raw =
        min (sharedLength s.selectedPath raw + count) raw.length := by
  induction count with
  | zero =>
    have := sharedLength_le s.selectedPath raw
    exact ⟨henabled, by rw [clicks]; omega⟩
  | succ count ih =>
    obtain ⟨id, -, hclick⟩ := click_eq ih.1 hraw hknown
    rw [clicks, hclick]
    refine ⟨ih.1, ?_⟩
    -- what is shared is all that is selected by now
    show Path.commonLength (raw.take _) raw = _
    rw [Path.commonLength_take, ih.2]
    omega

/-- **Clicks at one place arrive there and stay.** The target of the pointer is the path under it,
cut to one step more than it shares with the selected path; without a selection it is as if the root
were selected. So let selection be enabled, and let the tree know an id at every path on the way to
a place below the root. Then as many clicks at the place as its path is long select it, at its
level, whatever was selected before, and all further clicks leave it selected. -/
theorem clicks_arrive :
    (∀ sel hovered : Path, hoverTarget (some sel) hovered =
      hovered.take (min (sel.commonLength hovered + 1) hovered.length)) ∧
    (∀ hovered : Path, hoverTarget none hovered = hoverTarget (some []) hovered) ∧
    ∀ {T : Type} [Lookup T] (tree : T) (s : SelectionState) (raw : Path), s.enabled = true →
      raw ≠ [] → (∀ path, path <+: raw → path ≠ [] → (Lookup.idAt? tree path).isSome) →
      ∀ count, raw.length ≤ count → ∃ id, Lookup.idAt? tree raw = some id ∧
        (s.clicks tree raw count).selected = some ⟨id, raw⟩ ∧
        (s.clicks tree raw count).level = raw.length - 1 := by
  refine ⟨fun sel hovered => ?_, hoverTarget_none, ?_⟩
  · rw [hoverTarget_eq_take, List.take_eq_take_min]
  intro T _ tree s raw henabled hraw hknown count hcount
  have hpos : 0 < raw.length := List.length_pos_iff.2 hraw
  obtain ⟨before, rfl⟩ : ∃ before, count = before + 1 := ⟨count - 1, by omega⟩
  obtain ⟨henabled', hshared⟩ := sharedLength_clicks henabled hraw hknown before
  -- the last of the clicks has at most one step to go
  have hall : raw.take (sharedLength (s.clicks tree raw before).selectedPath raw + 1) = raw :=
    List.take_of_length_le (by omega)
  obtain ⟨id, hid, hclick⟩ := click_eq henabled' hraw hknown
  rw [hall] at hid hclick
  exact ⟨id, hid, by rw [clicks, hclick], by rw [clicks, hclick]⟩

/-- A page with a note, and with a list that has a title and a row with a cell. -/
def listPage : Node :=
  let note : Element := { id := "note", type := "p" }
  let cell : Element := { id := "cell", type := "td" }
  let row : Element := { id := "row", type := "tr", children := some [.node { element := cell }] }
  let list : Element :=
    { id := "list", type := "table", children := some [.text "Rows", .node { element := row }] }
  { element := {
      id := "root", type := "div"
      children := some [.node { element := note }, .node { element := list }] } }

/-- From the note it takes three clicks to the cell, through the list and the row. -/
theorem clicks_arrive_listPage :
    let s : SelectionState := { selected := some ⟨"note", [0]⟩, level := 5, enabled := true }
    s.enabled = true ∧
      (∀ path, path <+: [1, 1, 0] → path ≠ [] → (Lookup.idAt? listPage path).isSome) ∧
      (s.clicks listPage [1, 1, 0] 2).selected = some ⟨"row", [1, 1]⟩ ∧
      (s.clicks listPage [1, 1, 0] 3).selected = some ⟨"cell", [1, 1, 0]⟩ ∧
      (s.clicks listPage [1, 1, 0] 3).level = 2 := by
  intro s
  have hknown : ∀ path, path <+: [1, 1, 0] → path ≠ [] → (Lookup.idAt? listPage path).isSome := by
    intro path hpath hne
    simp only [List.prefix_cons_iff, List.prefix_nil] at hpath
    rcases hpath with rfl | ⟨_, rfl, rfl | ⟨_, rfl, rfl | ⟨_, rfl, rfl⟩⟩⟩
    · exact absurd rfl hne
    all_goals rfl
  obtain ⟨id, hid, hselected, hlevel⟩ :=
    clicks_arrive.2.2 listPage s [1, 1, 0] rfl (by simp) hknown 3 (Nat.le_refl 3)
  obtain rfl : "cell" = id := Option.some.inj hid
  exact ⟨rfl, hknown, rfl, hselected, hlevel⟩

end SelectionState

end SchemaCanvas
