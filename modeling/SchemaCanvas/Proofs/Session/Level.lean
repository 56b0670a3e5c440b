import SchemaCanvas.Proofs.Selection.Moves
import SchemaCanvas.Proofs.Session.Run

/-!
# The level of the selected node

A node is selectable at the level that is one less than the length of its path, and whatever selects
a node should put the level there. The pointer, the first child and the parent do so; a step to a
sibling leaves the level where it is. That is right as long as the selected node lies where it was
selected. A node of a loop does not: the pointer finds its copies in the rendered tree, one position
deeper than the node itself lies in the schema, in which the keyboard moves.

* `Session.levelHolds_after_iff` : what one step does to the level;
* `Session.forall_levelHolds_iff` : the level holds along a run if and only if the run makes no step
  to a sibling from a displaced node.
-/

namespace SchemaCanvas

namespace SelectionState

variable {s : SelectionState}

/-- If a node is selected, it is selectable at the present level. -/
def LevelHolds (s : SelectionState) : Prop := ∀ sel ∈ s.selected, s.isSelectable sel.path = true

theorem levelHolds_iff :
    s.LevelHolds ↔ ∀ sel, s.selected = some sel → sel.path.length = s.level + 1 := by
  simp [LevelHolds, isSelectable]

theorem levelHolds_of_selected_eq_none (h : s.selected = none) : s.LevelHolds := by
  rw [levelHolds_iff, h]
  nofun

theorem levelHolds_selectAt_iff (h : s.enabled = true) {level : Nat} {id : String} {path : Path} :
    (s.selectAt level id path).1.LevelHolds ↔ path.length = level + 1 := by
  rw [fst_selectAt_of_enabled h, levelHolds_iff]
  simp

theorem levelHolds_revalidate (s : SelectionState) {T : Type} [Lookup T] (tree : T) :
    (s.revalidate tree).LevelHolds := by
  rw [levelHolds_iff]
  intro sel hsel
  have hlevel := level_revalidate hsel
  change s.selected.bind (follow? tree) = some sel at hsel
  obtain ⟨old, -, hfollow⟩ := Option.bind_eq_some_iff.1 hsel
  obtain ⟨path, hpath, rfl⟩ := Option.map_eq_some_iff.1 hfollow
  have hroot : path ≠ [] := by simpa using (Option.filter_eq_some_iff.1 hpath).2
  have := List.length_pos_iff.2 hroot
  rw [hlevel]
  dsimp only
  omega

theorem Move.levelHolds {selection : SelectionState} (h : s.Move selection) (hs : s.LevelHolds) :
    selection.LevelHolds := by
  cases h with
  | stay | hover | enable => exact hs
  | land sel hovered henabled hroot =>
    rw [levelHolds_iff]
    intro other hother
    obtain rfl : sel = other := Option.some.inj hother
    have := List.length_pos_iff.2 hroot
    dsimp only
    omega
  | clear => exact levelHolds_of_selected_eq_none rfl
  | follow tree => exact levelHolds_revalidate s tree

/-- The selected node lies at another depth of the tree than the one at which it was selected. -/
def Displaced (s : SelectionState) (tree : Node) : Prop :=
  ∃ sel path, s.selected = some sel ∧ sel.locate? tree = some path ∧ path.length ≠ sel.path.length

theorem displaced_iff {sel : Selection} {tree : Node} {path : Path} (hsel : s.selected = some sel)
    (hpath : sel.locate? tree = some path) :
    s.Displaced tree ↔ path.length ≠ sel.path.length := by
  constructor
  · rintro ⟨sel', path', hsel', hpath', hne⟩
    rw [hsel] at hsel'
    obtain rfl := Option.some.inj hsel'
    rw [hpath] at hpath'
    obtain rfl := Option.some.inj hpath'
    exact hne
  · exact fun hne => ⟨sel, path, hsel, hpath, hne⟩

/-- **A step to a sibling loses the level exactly if the selected node is displaced.** -/
theorem levelHolds_selectSibling_iff (hs : s.LevelHolds) (h : s.enabled = true) (tree : Node)
    (backwards : Bool) :
    (s.selectSibling tree backwards).1.LevelHolds ↔
      ¬ ((s.sibling? tree backwards).isSome = true ∧ s.Displaced tree) := by
  rw [selectSibling]
  cases hsibling : s.sibling? tree backwards with
  | none => simpa using hs
  | some target =>
    obtain ⟨id, path⟩ := target
    obtain ⟨sel, own, hsel, hown, hlength⟩ := length_of_sibling? hsibling
    have hlevel := levelHolds_iff.1 hs sel hsel
    -- the sibling is as deep as the node is now, the level is that of its old path
    rw [levelHolds_selectAt_iff h, displaced_iff hsel hown, hlength, ← hlevel]
    simp

end SelectionState

namespace Session

variable {s : Session}

/-- The step goes from a displaced node to a sibling. -/
def Step.Strays (x : Step) : Prop :=
  ∃ chord backwards, x.action = .chord chord ∧
    Command.resolve? chord x.before.config.keyboard x.before.selection.enabled =
      some (siblingCommand backwards) ∧
    (x.before.selection.sibling? x.before.tree backwards).isSome = true ∧
    x.before.selection.Displaced x.before.tree

theorem selection_pressChord_of_sibling {chord : Chord} {backwards : Bool}
    (h : Command.resolve? chord s.config.keyboard s.selection.enabled =
      some (siblingCommand backwards)) :
    (s.pressChord chord).1.selection = (s.selection.selectSibling s.tree backwards).1 := by
  rw [pressChord, h]
  cases backwards <;> rfl

/-- A turn keeps the level, if it does not select a node at an arbitrary path and steps to a sibling
only where that keeps the level. -/
theorem Turn.levelHolds {a : Action} {tree : Node} {selection : SelectionState}
    (h : s.Turn a tree selection) (hs : s.selection.LevelHolds)
    (hselect : ∀ id path, a ≠ .select id path)
    (hsibling : ∀ chord backwards, a = .chord chord →
      Command.resolve? chord s.config.keyboard s.selection.enabled =
        some (siblingCommand backwards) →
      (s.selection.selectSibling s.tree backwards).1.LevelHolds) :
    selection.LevelHolds := by
  cases h with
  | move _ h => exact h.levelHolds hs
  | select id path => exact absurd rfl (hselect id path)
  | sibling chord backwards h => exact hsibling chord backwards rfl h
  | copy => exact hs
  | edit | content => exact SelectionState.levelHolds_revalidate _ _
  | replace | load => exact SelectionState.levelHolds_of_selected_eq_none rfl

theorem levelHolds_after_iff {x : Step} (hinput : ∀ events, x.action ≠ .input events)
    (hselect : ∀ id path, x.action ≠ .select id path) (hbefore : x.before.selection.LevelHolds) :
    x.after.selection.LevelHolds ↔ ¬ x.Strays := by
  obtain ⟨s, a⟩ := x
  constructor
  · rintro hafter ⟨chord, backwards, rfl, hcommand, hstray⟩
    change (reply (s.pressChord chord) .command).1.selection.LevelHolds at hafter
    rw [fst_reply, selection_pressChord_of_sibling hcommand,
      SelectionState.levelHolds_selectSibling_iff hbefore (enabled_of_resolve? hcommand)] at hafter
    exact hafter hstray
  · intro hstray
    refine (turn_perform hinput).levelHolds hbefore hselect fun chord backwards ha hcommand => ?_
    rw [SelectionState.levelHolds_selectSibling_iff hbefore (enabled_of_resolve? hcommand)]
    exact fun h => hstray ⟨chord, backwards, ha, hcommand, h.1, h.2⟩

/-- **The level holds along a run if and only if no step of the run strays.** The run may do
anything but select a node at a path of the host's choice. -/
theorem forall_levelHolds_iff (tree : Node) (next : Nat) (config : Config) (transforms : Transforms)
    (host : Option Host) {actions : List Action} (hselect : ∀ id path, .select id path ∉ actions) :
    (∀ x ∈ (start tree next config transforms host).steps actions, x.after.selection.LevelHolds) ↔
      ∀ x ∈ (start tree next config transforms host).steps actions, ¬ x.Strays := by
  refine (trace_steps _ actions).forall_after_iff (I := fun s => s.selection.LevelHolds)
    (SelectionState.levelHolds_of_selected_eq_none rfl) fun x hx => ?_
  obtain ⟨hinput, haction⟩ := action_of_mem_steps hx
  refine levelHolds_after_iff hinput fun id path ha => ?_
  obtain hmem | ⟨chord, hchord⟩ := haction
  · rw [ha] at hmem
    exact hselect id path hmem
  · rw [ha] at hchord
    cases hchord

/-- A list with a row for every item and one row more. -/
def loopTree : Node :=
  let row : Element :=
    { id := "row", type := "li", loop := some { source := .path "xs", item := "x" } }
  let last : Element := { id := "end", type := "li" }
  { element := {
      id := "list", type := "ul",
      children := some [.node { element := row }, .node { element := last }] } }

/-- A context in which the list has two items. -/
def loopContext : Json := .obj [("xs", .arr [.str "a", .str "b"])]

/-- The second row is selected in the rendered tree, at a path of two positions. The next sibling in
the schema has a path of one position, and is selected at the old level. -/
theorem not_levelHolds_loopTree :
    ¬ ((start loopTree 0 {} [] none).performAll
      [.click (.rendered loopContext) [0, 1] true,
        .chord { key := .tab }]).selection.LevelHolds := by
  rw [SelectionState.levelHolds_iff]
  intro h
  have hlength := h ⟨"end", [1]⟩ rfl
  exact absurd hlength (by decide)

/-- The same steps keep the level if the row is selected in the schema. -/
theorem forall_levelHolds_loopTree :
    (∀ id path, .select id path ∉ [Action.click .schema [0] true, .chord { key := .tab }]) ∧
      ∀ x ∈ (start loopTree 0 {} [] none).steps
        [.click .schema [0] true, .chord { key := .tab }], x.after.selection.LevelHolds := by
  have hselect : ∀ id path,
      .select id path ∉ [Action.click .schema [0] true, .chord { key := .tab }] := by simp
  refine ⟨hselect, (forall_levelHolds_iff loopTree 0 {} [] none hselect).2 fun x hx => ?_⟩
  rintro ⟨chord, backwards, hchord, -, -, sel, path, hsel, hpath, hne⟩
  obtain rfl | hx := List.mem_cons.1 hx
  · cases hchord
  · obtain rfl := List.mem_singleton.1 hx
    obtain rfl : ⟨"row", [0]⟩ = sel := Option.some.inj hsel
    obtain rfl : [0] = path := Option.some.inj hpath
    exact hne rfl

end Session

end SchemaCanvas
