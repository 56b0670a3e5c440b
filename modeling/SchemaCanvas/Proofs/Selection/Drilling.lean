import SchemaCanvas.Selection.Target
import Mathlib.Data.List.TakeDrop
import Mathlib.Tactic.SplitIfs

/-!
# Double clicking at one place

A double click moves the selection towards the place under the pointer, by at most one level. All
its cases are one rule: the way to the place is cut to one step more than the selection has, unless
the selection lies so deep that this would skip a level; then it climbs to its parent. So each
double click brings the selection one level nearer, and the last one puts it on the place.

* `drillTarget_eq` : the rule;
* `checkedDrillTarget?_eq` : no path is cut where it has no such step;
* `drillSteps_drillTarget` : every double click saves one;
* `doubleClicks_arrive` : where a double click leads, and that repeated double clicks arrive.
-/

namespace SchemaCanvas

/-- The first steps of a path, if there are as many. -/
def Path.firstSteps? (path : Path) (count : Nat) : Option Path :=
  if count ≤ path.length then some (path.take count) else none

/-- The target of a double click, or nothing where a path would be cut beyond its end. -/
def checkedDrillTarget? (sel clicked : Path) : Option Path :=
  if sel.isPrefixOf clicked then clicked.firstSteps? (sel.length + 1)
  else
    let depth := min (sel.length + 1) clicked.length
    if sel.length ≤ depth + 1 then clicked.firstSteps? depth else sel.parent?

/-- How many double clicks it takes from the selection to a place. -/
def drillSteps (sel clicked : Path) : Nat :=
  if sel = clicked then 0
  else max 1 (max (sel.length - clicked.length) (clicked.length - sel.length))

/-- The selected path after so many double clicks at one place. -/
def drilled (clicked sel : Path) : Nat → Path
  | 0 => sel
  | count + 1 =>
    let reached := drilled clicked sel count
    (doubleClickTarget? (some reached) clicked).getD reached

variable {sel clicked : Path}

/-! ### The target -/

/-- **The target is one step further on the way to the place,** or the parent of the selection. -/
theorem drillTarget_eq (sel clicked : Path) :
    drillTarget sel clicked =
      if sel.length ≤ clicked.length + 1 then clicked.take (sel.length + 1) else sel.dropLast := by
  rw [drillTarget]
  dsimp only
  split_ifs with hprefix hfar hdepth hnear hnear
  · rfl
  · -- a path that goes on from the selection is not shorter
    have := (List.isPrefixOf_iff_prefix.1 hprefix).length_le
    omega
  · exact List.take_eq_take_min.symm
  · omega
  · omega
  · rfl

theorem drillTarget_ne (h : sel ≠ clicked) : drillTarget sel clicked ≠ sel := by
  intro heq
  have hlength := congrArg List.length heq
  rw [drillTarget_eq] at heq hlength
  split_ifs at heq hlength with hnear
  · rw [List.length_take] at hlength
    rw [List.take_of_length_le (by omega)] at heq
    exact h heq.symm
  · rw [List.length_dropLast] at hlength
    omega

theorem doubleClickTarget?_of_ne (h : sel ≠ clicked) :
    doubleClickTarget? (some sel) clicked = some (drillTarget sel clicked) := by
  rw [doubleClickTarget?, if_neg]
  simp [Ne.symm h, drillTarget_ne h]

theorem doubleClickTarget?_self (clicked : Path) :
    doubleClickTarget? (some clicked) clicked = none := by
  simp [doubleClickTarget?]

theorem length_drillTarget (sel clicked : Path) :
    sel.length ≤ (drillTarget sel clicked).length + 1 ∧
      (drillTarget sel clicked).length ≤ sel.length + 1 := by
  rw [drillTarget_eq]
  split_ifs
  · rw [List.length_take]
    omega
  · rw [List.length_dropLast]
    omega

/-- The target lies on the way to the place, or one level up. -/
theorem drillTarget_prefix_or_parent (sel clicked : Path) :
    drillTarget sel clicked <+: clicked ∨ sel.parent? = some (drillTarget sel clicked) := by
  rw [drillTarget_eq]
  split_ifs with hnear
  · exact .inl (List.take_prefix _ _)
  · right
    rw [Path.parent?, if_neg]
    rw [List.isEmpty_iff]
    rintro rfl
    exact hnear (Nat.zero_le _)

/-- **Every cut is within the path that is cut.** -/
theorem checkedDrillTarget?_eq (h : sel ≠ clicked) :
    checkedDrillTarget? sel clicked = some (drillTarget sel clicked) := by
  rw [checkedDrillTarget?, drillTarget]
  dsimp only
  split_ifs with hprefix hdepth
  · obtain ⟨below, rfl⟩ := List.isPrefixOf_iff_prefix.1 hprefix
    -- a place below the selection is at least one step away
    have hbelow : 0 < below.length := by
      refine List.length_pos_iff.2 fun hnil => h ?_
      rw [hnil, List.append_nil]
    rw [Path.firstSteps?, if_pos]
    rw [List.length_append]
    omega
  · rw [Path.firstSteps?, if_pos (Nat.min_le_right _ _)]
  · rw [Path.parent?, if_neg]
    rw [List.isEmpty_iff]
    rintro rfl
    exact hdepth (Nat.zero_le _)

/-! ### Repeated double clicks -/

theorem drillSteps_eq_zero_iff : drillSteps sel clicked = 0 ↔ sel = clicked := by
  rw [drillSteps]
  split_ifs with h
  · exact iff_of_true rfl h
  · exact iff_of_false (by omega) h

/-- **A double click saves one** of those that it takes to the place. -/
theorem drillSteps_drillTarget (h : sel ≠ clicked) :
    drillSteps (drillTarget sel clicked) clicked + 1 = drillSteps sel clicked := by
  rw [drillTarget_eq, drillSteps, drillSteps, if_neg h]
  split_ifs with hnear harrived harrived
  · -- the last one: the place is at most one step further
    rw [List.take_eq_self_iff] at harrived
    omega
  · rw [List.take_eq_self_iff] at harrived
    rw [List.length_take]
    omega
  · have := congrArg List.length harrived
    rw [List.length_dropLast] at this
    omega
  · rw [List.length_dropLast]
    omega

theorem drillSteps_drilled (clicked sel : Path) (count : Nat) :
    drillSteps (drilled clicked sel count) clicked = drillSteps sel clicked - count := by
  induction count with
  | zero => rfl
  | succ count ih =>
    rw [drilled]
    by_cases harrived : drilled clicked sel count = clicked
    · rw [harrived, doubleClickTarget?_self, Option.getD_none]
      rw [harrived] at ih
      have hzero := drillSteps_eq_zero_iff.2 (Eq.refl clicked)
      omega
    · rw [doubleClickTarget?_of_ne harrived, Option.getD_some]
      have := drillSteps_drillTarget harrived
      omega

/-- **Double clicks at one place arrive there and stay.** A double click does nothing if and only if
the selection is at the place. Otherwise its target is reached by cuts that fit, is at most one
level less or one level more deep than the selection, and lies on the way to the place or is the
parent of the selection. Repeated double clicks are at the place after `drillSteps` and not before,
which are no more than the steps of both paths and one. -/
theorem doubleClicks_arrive (sel clicked : Path) :
    (doubleClickTarget? (some sel) clicked = none ↔ sel = clicked) ∧
    (∀ target, doubleClickTarget? (some sel) clicked = some target →
      checkedDrillTarget? sel clicked = some target ∧
      sel.length ≤ target.length + 1 ∧ target.length ≤ sel.length + 1 ∧
      (target <+: clicked ∨ sel.parent? = some target)) ∧
    drillSteps sel clicked ≤ sel.length + clicked.length + 1 ∧
    ∀ count, drilled clicked sel count = clicked ↔ drillSteps sel clicked ≤ count := by
  refine ⟨?_, fun target htarget => ?_, ?_, fun count => ?_⟩
  · by_cases h : sel = clicked
    · subst h
      exact iff_of_true (doubleClickTarget?_self sel) rfl
    · exact iff_of_false (by simp [doubleClickTarget?_of_ne h]) h
  · have hne : sel ≠ clicked := by
      rintro rfl
      rw [doubleClickTarget?_self] at htarget
      cases htarget
    rw [doubleClickTarget?_of_ne hne] at htarget
    obtain rfl := Option.some.inj htarget
    exact ⟨checkedDrillTarget?_eq hne, (length_drillTarget sel clicked).1,
      (length_drillTarget sel clicked).2, drillTarget_prefix_or_parent sel clicked⟩
  · rw [drillSteps]
    split_ifs
    · exact Nat.zero_le _
    · omega
  · rw [← drillSteps_eq_zero_iff, drillSteps_drilled]
    omega

/-- From a cell of one list to the list after it takes three: up, up, and over. -/
theorem doubleClicks_arrive_nextList :
    doubleClickTarget? (some [0, 3, 2, 5]) [1] = some [0, 3, 2] ∧
      checkedDrillTarget? [0, 3, 2, 5] [1] = some [0, 3, 2] ∧
      Path.parent? [0, 3, 2, 5] = some [0, 3, 2] ∧
      drilled [1] [0, 3, 2, 5] 2 = [0, 3] ∧ drilled [1] [0, 3, 2, 5] 3 = [1] := by
  obtain ⟨-, htarget, -, harrive⟩ := doubleClicks_arrive [0, 3, 2, 5] [1]
  obtain ⟨hcut, -⟩ := htarget [0, 3, 2] rfl
  exact ⟨rfl, hcut, rfl, rfl, (harrive 3).2 (by decide)⟩

end SchemaCanvas
