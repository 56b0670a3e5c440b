import SchemaCanvas.Proofs.Ids.Unique
import SchemaCanvas.Proofs.Selection.Moves
import Mathlib.Data.List.Rotate

/-!
# Round trips of the keyboard

The keyboard goes from the selected node to its siblings, its first child and its parent. The node
is looked up by its id for that, so in a tree with distinct ids every step starts from the node that
is selected. The siblings are taken in a ring, over whatever stands between them in the list, and a
step changes nothing but the selected node.

* `SelectionState.selectSibling_eq` : what a step to a sibling does;
* `SelectionState.siblings_eq` : where so many steps lead;
* `SelectionState.selectFirstChild_eq` and `selectParent_eq` : what the steps down and up do;
* `SelectionState.round_trips` : steps that lead back to where they started.
-/

namespace SchemaCanvas

open scoped List

/-- The node at a path, as it is selected there. -/
def Node.selectionAt? (tree : Node) (path : Path) : Option Selection :=
  (tree.idAt? path).map fun id => ⟨id, path⟩

namespace SelectionState

/-- Selection is on, and the node at a path is selected there. -/
structure SelectedAt (s : SelectionState) (tree : Node) (path : Path) : Prop where
  enabled : s.enabled = true
  known : (tree.get? path).isSome
  selected : s.selected = tree.selectionAt? path

/-- The next or the previous of so many places in a ring. -/
def ringStep (count : Nat) (backwards : Bool) (j : Nat) : Nat :=
  (if backwards then j + count - 1 else j + 1) % count

/-- The state after so many steps to the next sibling. -/
def siblings (tree : Node) (s : SelectionState) : Nat → SelectionState
  | 0 => s
  | count + 1 => ((siblings tree s count).selectSibling tree false).1

variable {s : SelectionState} {tree parent n : Node} {path home : Path} {i j k : Nat}

/-! ### The ring -/

theorem ringStep_false (count j : Nat) : ringStep count false j = (j + 1) % count := rfl

theorem ringStep_true (count j : Nat) : ringStep count true j = (j + count - 1) % count := rfl

theorem ringStep_lt {count : Nat} (h : j < count) (backwards : Bool) :
    ringStep count backwards j < count := Nat.mod_lt _ (Nat.zero_lt_of_lt h)

theorem ringStep_ringStep {count : Nat} (h : j < count) (backwards : Bool) :
    ringStep count (!backwards) (ringStep count backwards j) = j := by
  cases backwards with
  | false =>
    rw [Bool.not_false, ringStep_false, ringStep_true]
    -- the step round the end is the one from the last place
    rcases Nat.lt_or_ge (j + 1) count with hlt | hge
    · rw [Nat.mod_eq_of_lt hlt, show j + 1 + count - 1 = j + count by omega, Nat.add_mod_right,
        Nat.mod_eq_of_lt h]
    · obtain rfl : count = j + 1 := by omega
      rw [Nat.mod_self, show 0 + (j + 1) - 1 = j by omega, Nat.mod_eq_of_lt h]
  | true =>
    rw [Bool.not_true, ringStep_true, ringStep_false, Nat.mod_add_mod,
      show j + count - 1 + 1 = j + count by omega, Nat.add_mod_right, Nat.mod_eq_of_lt h]

/-! ### The selected node -/

theorem selectionAt?_of_get? (h : tree.get? path = some n) :
    tree.selectionAt? path = some ⟨n.id, path⟩ := by
  rw [Node.selectionAt?, Node.idAt?, h]
  rfl

theorem SelectedAt.exists_locate? (htree : tree.HasDistinctIds) (h : s.SelectedAt tree path) :
    ∃ sel, s.selected = some sel ∧ sel.locate? tree = some path := by
  obtain ⟨n, hn⟩ := Option.isSome_iff_exists.1 h.known
  refine ⟨⟨n.id, path⟩, h.selected.trans (selectionAt?_of_get? hn), ?_⟩
  exact htree.locate?_eq_some_iff.2 ⟨n, hn, rfl⟩

theorem SelectedAt.select (h : s.SelectedAt tree path) {other : Path}
    (hother : tree.get? other = some n) :
    ({ s with selected := tree.selectionAt? other } : SelectionState).SelectedAt tree other :=
  ⟨h.enabled, Option.isSome_iff_exists.2 ⟨n, hother⟩, rfl⟩

theorem exists_parent (hn : tree.get? path = some n) (hroot : path ≠ []) :
    ∃ parent j, ∃ hj : j < parent.childPositions.length, tree.get? path.dropLast = some parent ∧
      path = path.dropLast ++ [parent.childPositions[j]] := by
  have hsplit := List.dropLast_append_getLast hroot
  rw [← hsplit, Node.get?_concat] at hn
  obtain ⟨parent, hparent, hchild⟩ := Option.bind_eq_some_iff.1 hn
  have hmem : path.getLast hroot ∈ parent.childPositions := by
    rw [Node.mem_childPositions_iff, hchild]
    rfl
  obtain ⟨j, hj, hown⟩ := List.getElem_of_mem hmem
  exact ⟨parent, j, hj, hparent, by rw [hown, hsplit]⟩

theorem exists_get?_of_mem_childPositions (hparent : tree.get? home = some parent)
    (hi : i ∈ parent.childPositions) :
    ∃ c, parent.child? i = some c ∧ tree.get? (home ++ [i]) = some c := by
  obtain ⟨c, hc⟩ := Option.isSome_iff_exists.1 (Node.mem_childPositions_iff.1 hi)
  exact ⟨c, hc, by rw [Node.get?_concat, hparent, Option.bind_some, hc]⟩

/-! ### Steps to siblings -/

section

variable (htree : tree.HasDistinctIds) (hparent : tree.get? home = some parent)
include htree hparent

theorem selectSibling_of_alone (halone : ¬ 2 ≤ parent.childPositions.length)
    (h : s.SelectedAt tree (home ++ [i])) (backwards : Bool) :
    (s.selectSibling tree backwards).1 = s := by
  obtain ⟨sel, hsel, hlocate⟩ := h.exists_locate? htree
  have hsibling : s.sibling? tree backwards = none := by
    simp only [sibling?, Option.bind_eq_bind, hsel, Option.bind_some, hlocate,
      List.getLast?_concat, List.dropLast_concat, hparent, if_pos (Nat.not_le.1 halone)]
  rw [selectSibling, hsibling]

variable (hmany : 2 ≤ parent.childPositions.length) (hj : j < parent.childPositions.length)
  (h : s.SelectedAt tree (home ++ [parent.childPositions[j]]))
  (hk : k < parent.childPositions.length)
include hmany hj h

/-- **A step to a sibling selects the one beside it in the ring,** and changes nothing else. -/
theorem selectSibling_eq {backwards : Bool}
    (hstep : ringStep parent.childPositions.length backwards j = k) :
    (s.selectSibling tree backwards).1 =
      { s with selected := tree.selectionAt? (home ++ [parent.childPositions[k]]) } := by
  obtain ⟨sel, hsel, hlocate⟩ := h.exists_locate? htree
  obtain ⟨c, -, hc⟩ := exists_get?_of_mem_childPositions hparent (List.getElem_mem hk)
  have hindex : parent.childPositions.idxOf? parent.childPositions[j] = some j := by
    refine List.idxOf?_eq_some_iff.2 ⟨hj, rfl, fun i hi => Nat.ne_of_lt ?_⟩
    exact List.pairwise_iff_getElem.1 parent.pairwise_childPositions i j _ hj hi
  have hid : tree.idAt? (home ++ [parent.childPositions[k]]) = some c.id := by
    rw [Node.idAt?, hc, Option.map_some]
  have hsibling : s.sibling? tree backwards =
      some (c.id, home ++ [parent.childPositions[k]]) := by
    rw [ringStep] at hstep
    simp only [sibling?, Option.bind_eq_bind, hsel, Option.bind_some, hlocate,
      List.getLast?_concat, List.dropLast_concat, hparent, if_neg (Nat.not_lt.2 hmany), hindex,
      hstep, List.getElem?_eq_getElem hk, hid]
  rw [selectSibling, hsibling, selectionAt?_of_get? hc]
  exact fst_selectAt_of_enabled h.enabled s.level c.id _

/-- **A step to a sibling and a step back** leave the state as it was. -/
theorem selectSibling_selectSibling (backwards : Bool) :
    ((s.selectSibling tree backwards).1.selectSibling tree (!backwards)).1 = s := by
  have hnext := ringStep_lt hj backwards
  obtain ⟨c, -, hc⟩ := exists_get?_of_mem_childPositions hparent (List.getElem_mem hnext)
  have hback := ringStep_ringStep hj backwards
  rw [selectSibling_eq htree hparent hmany hj h hnext rfl,
    selectSibling_eq htree hparent hmany hnext (h.select hc) hj hback, ← h.selected]

/-- **So many steps to the next sibling** go on round the ring. -/
theorem siblings_eq (count : Nat) (hcount : (j + count) % parent.childPositions.length = k) :
    s.siblings tree count =
      { s with selected := tree.selectionAt? (home ++ [parent.childPositions[k]]) } := by
  induction count generalizing k with
  | zero =>
    obtain rfl : j = k := (Nat.mod_eq_of_lt hj).symm.trans hcount
    rw [siblings, ← h.selected]
  | succ count ih =>
    have hbefore : (j + count) % parent.childPositions.length < parent.childPositions.length :=
      Nat.mod_lt _ (Nat.zero_lt_of_lt hj)
    obtain ⟨c, -, hc⟩ := exists_get?_of_mem_childPositions hparent (List.getElem_mem hbefore)
    have hstep : ringStep parent.childPositions.length false
        ((j + count) % parent.childPositions.length) = k := by
      rw [← hcount, ringStep_false, Nat.mod_add_mod, Nat.add_assoc]
    rw [siblings, ih hbefore rfl,
      selectSibling_eq htree hparent hmany hbefore (h.select hc) hk hstep]

/-- After as many steps as there are siblings the state is what it was. -/
theorem siblings_length : s.siblings tree parent.childPositions.length = s := by
  rw [siblings_eq htree hparent hmany hj h hj _ (by rw [Nat.add_mod_right, Nat.mod_eq_of_lt hj]),
    ← h.selected]

theorem map_siblings_eq_rotate :
    (List.range parent.childPositions.length).map
        (fun count => (s.siblings tree (count + 1)).selectedPath) =
      (parent.childPositions.map fun i => some (home ++ [i])).rotate (j + 1) := by
  refine List.ext_getElem (by simp) fun count hcount _ => ?_
  have hk : (j + (count + 1)) % parent.childPositions.length < parent.childPositions.length :=
    Nat.mod_lt _ (Nat.zero_lt_of_lt hj)
  obtain ⟨c, -, hc⟩ := exists_get?_of_mem_childPositions hparent (List.getElem_mem hk)
  rw [List.getElem_map, List.getElem_range, siblings_eq htree hparent hmany hj h hk _ rfl,
    selectedPath, selectionAt?_of_get? hc, List.getElem_rotate, List.getElem_map]
  simp only [List.length_map, Option.map_some, ← Nat.add_assoc, Nat.add_comm count]

end

/-! ### Steps down and up -/

theorem exists_head?_childPositions (h : n.hasChildNodes) :
    ∃ i, n.childPositions.head? = some i := by
  obtain ⟨item, hitem, hnode⟩ := List.any_eq_true.1 h
  obtain ⟨i, hi⟩ := List.getElem?_of_mem hitem
  have hmem : i ∈ n.childPositions := by
    rw [Node.mem_childPositions_iff, Node.child?, hi]
    exact hnode
  rw [← Option.isSome_iff_exists, List.isSome_head?]
  exact List.ne_nil_of_mem hmem

section

variable (htree : tree.HasDistinctIds)
include htree

theorem selectFirstChild_eq (h : s.SelectedAt tree path) (hn : tree.get? path = some n)
    (hfirst : n.childPositions.head? = some i) :
    (s.selectFirstChild tree).1 =
      { s with selected := tree.selectionAt? (path ++ [i]), level := path.length } := by
  obtain ⟨sel, hsel, hlocate⟩ := h.exists_locate? htree
  obtain ⟨c, hc, hget⟩ := exists_get?_of_mem_childPositions hn (List.mem_of_mem_head? hfirst)
  have hchild : s.firstChild? tree = some (c.id, path ++ [i]) := by
    simp only [firstChild?, Option.bind_eq_bind, hsel, Option.bind_some, hlocate, hn, hfirst, hc]
  rw [selectFirstChild, hchild, selectionAt?_of_get? hget]
  dsimp only
  rw [fst_selectAt_of_enabled h.enabled, List.length_append, List.length_singleton,
    Nat.add_sub_cancel]

theorem selectParent_eq (h : s.SelectedAt tree (home ++ [i])) (hparent : tree.get? home = some n)
    (hhome : home ≠ []) :
    (s.selectParent tree).1 =
      { s with selected := tree.selectionAt? home, hovered := none, level := home.length - 1 } := by
  obtain ⟨sel, hsel, hlocate⟩ := h.exists_locate? htree
  have hid : tree.idAt? home = some n.id := by rw [Node.idAt?, hparent, Option.map_some]
  have hup : s.parent? tree = some (n.id, home) := by
    simp [parent?, hsel, hlocate, Path.parent?, hhome, hid]
  rw [selectParent, hup, selectionAt?_of_get? hparent]
  exact fst_selectAt_of_enabled (s := { s with hovered := none }) h.enabled _ n.id home

/-- **A step down and a step up** lead back, to the level of the node. -/
theorem selectParent_selectFirstChild (h : s.SelectedAt tree path) (hn : tree.get? path = some n)
    (hfirst : n.childPositions.head? = some i) (hroot : path ≠ []) :
    ((s.selectFirstChild tree).1.selectParent tree).1 =
      { s with hovered := none, level := path.length - 1 } := by
  obtain ⟨c, -, hget⟩ := exists_get?_of_mem_childPositions hn (List.mem_of_mem_head? hfirst)
  have hdown : ({ s with
      selected := tree.selectionAt? (path ++ [i]), level := path.length } :
        SelectionState).SelectedAt tree (path ++ [i]) :=
    ⟨h.enabled, Option.isSome_iff_exists.2 ⟨c, hget⟩, rfl⟩
  rw [selectFirstChild_eq htree h hn hfirst, selectParent_eq htree hdown hn hroot, ← h.selected]

end

/-! ### Round trips -/

/-- **Steps that lead back to where they started.** In a tree with distinct ids let a node below the
root be selected where it is. If it has siblings, then as many steps to the next sibling as there
are siblings visit the place of each of them once, select there the node that the tree has at that
place, and lead back. A step to a sibling and a step the other way lead back. If the node has
children, the step down selects the first of them and the step up leads back, to the level of the
node. -/
theorem round_trips {sel : Selection} (htree : tree.HasDistinctIds) (henabled : s.enabled = true)
    (hselected : s.selected = some sel) (hid : tree.idAt? sel.path = some sel.id)
    (hroot : sel.path ≠ []) :
    ∃ parent n, tree.get? sel.path.dropLast = some parent ∧ tree.get? sel.path = some n ∧
      (2 ≤ parent.childPositions.length →
        let visited := (List.range parent.childPositions.length).map fun count =>
          (s.siblings tree (count + 1)).selectedPath
        visited.Nodup ∧
        visited ~ parent.childPositions.map (fun i => some (sel.path.dropLast ++ [i])) ∧
        (∀ count, ∃ visit, (s.siblings tree count).selected = some visit ∧
          tree.idAt? visit.path = some visit.id) ∧
        s.siblings tree parent.childPositions.length = s) ∧
      (∀ backwards, ((s.selectSibling tree backwards).1.selectSibling tree (!backwards)).1 = s) ∧
      (n.hasChildNodes → ∃ i, n.childPositions.head? = some i ∧
        (s.selectFirstChild tree).1.selected = tree.selectionAt? (sel.path ++ [i]) ∧
        ((s.selectFirstChild tree).1.selectParent tree).1 =
          { s with hovered := none, level := sel.path.length - 1 }) := by
  obtain ⟨n, hn, -⟩ := Option.map_eq_some_iff.1 hid
  obtain ⟨parent, j, hj, hhome, hpath⟩ := exists_parent hn hroot
  have h : s.SelectedAt tree sel.path :=
    ⟨henabled, Option.isSome_iff_exists.2 ⟨n, hn⟩, by rw [hselected, Node.selectionAt?, hid]; rfl⟩
  have hat := h
  rw [hpath] at hat
  refine ⟨parent, n, hhome, hn, fun hmany => ?_, fun backwards => ?_, fun hchildren => ?_⟩
  · have hvisited := map_siblings_eq_rotate htree hhome hmany hj hat
    have hperm := List.rotate_perm
      (parent.childPositions.map fun i => some (sel.path.dropLast ++ [i])) (j + 1)
    rw [← hvisited] at hperm
    refine ⟨hperm.nodup_iff.2 ?_, hperm, fun count => ?_,
      siblings_length htree hhome hmany hj hat⟩
    · -- different positions make different places
      refine List.Nodup.map (fun i k heq => ?_) (parent.pairwise_childPositions.imp Nat.ne_of_lt)
      exact List.singleton_inj.1 (List.append_cancel_left (Option.some.inj heq))
    · have hk : (j + count) % parent.childPositions.length < parent.childPositions.length :=
        Nat.mod_lt _ (Nat.zero_lt_of_lt hj)
      obtain ⟨c, -, hc⟩ := exists_get?_of_mem_childPositions hhome (List.getElem_mem hk)
      rw [siblings_eq htree hhome hmany hj hat hk count rfl]
      refine ⟨_, selectionAt?_of_get? hc, ?_⟩
      rw [Node.idAt?, hc, Option.map_some]
  · by_cases hmany : 2 ≤ parent.childPositions.length
    · exact selectSibling_selectSibling htree hhome hmany hj hat backwards
    · rw [selectSibling_of_alone htree hhome hmany hat,
        selectSibling_of_alone htree hhome hmany hat]
  · obtain ⟨i, hfirst⟩ := exists_head?_childPositions hchildren
    refine ⟨i, hfirst, ?_, selectParent_selectFirstChild htree h hn hfirst hroot⟩
    rw [selectFirstChild_eq htree h hn hfirst]

/-- A page with a list that has a title, two rows around a text, and a foot with a note. -/
def footedPage : Node :=
  let note : Element := { id := "note", type := "p" }
  let foot : Element := { id := "foot", type := "li", children := some [.node { element := note }] }
  let list : Element := {
    id := "list", type := "ul"
    children := some [.node { element := { id := "title", type := "li" } },
      .node { element := { id := "first", type := "li" } }, .text "and",
      .node { element := { id := "second", type := "li" } },
      .node { element := foot }] }
  { element := { id := "page", type := "div", children := some [.node { element := list }] } }

/-- From the foot the steps go round to the title, over the text, and back to the foot. -/
theorem round_trips_footedPage :
    let s : SelectionState := { selected := some ⟨"foot", [0, 4]⟩, level := 1, enabled := true }
    footedPage.HasDistinctIds ∧ footedPage.idAt? [0, 4] = some "foot" ∧
      (s.siblings footedPage 1).selected = some ⟨"title", [0, 0]⟩ ∧
      (s.siblings footedPage 3).selected = some ⟨"second", [0, 3]⟩ ∧
      s.siblings footedPage 4 = s ∧
      ((s.selectSibling footedPage true).1.selectSibling footedPage false).1 = s ∧
      (s.selectFirstChild footedPage).1.selected = some ⟨"note", [0, 4, 0]⟩ ∧
      ((s.selectFirstChild footedPage).1.selectParent footedPage).1 = s := by
  intro s
  have hplaces : footedPage.idPlaces =
      [(.node, "page"), (.node, "list"), (.node, "title"), (.node, "first"), (.node, "second"),
        (.node, "foot"), (.node, "note")] := rfl
  have htree : footedPage.HasDistinctIds :=
    ⟨by simp [NodesNamed, hplaces], by simp [Node.ids, hplaces]⟩
  obtain ⟨parent, n, hparent, hn, hring, hback, hdown⟩ :=
    round_trips (s := s) htree rfl rfl rfl (by simp)
  obtain rfl := Option.some.inj hparent
  obtain rfl := Option.some.inj hn
  obtain ⟨-, -, -, hround⟩ := hring (by decide)
  obtain ⟨i, hi, hchild, hup⟩ := hdown rfl
  obtain rfl : 0 = i := Option.some.inj hi
  exact ⟨htree, rfl, rfl, rfl, hround, hback true, hchild, hup⟩

end SelectionState

end SchemaCanvas
