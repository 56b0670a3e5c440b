import SchemaCanvas.Proofs.Edit.Outcome
import SchemaCanvas.Proofs.Render.Outcome
import SchemaCanvas.Proofs.Render.Placement
import SchemaCanvas.Proofs.Schema.Subtree
import SchemaCanvas.Proofs.Selection.Moves

/-!
# Where rendered nodes come from

Every rendered node has the id of a node of the schema, whichever way rendering took to it: a child,
the body of a loop, which may be the repeated element itself, or an `else` branch. An operation
looks the id up again to find the node that it works on. It finds what lies at a path; an `else`
branch has no path, so a node in it can be rendered and selected, but not found.

* `Renderer.exists_within_of_renderNode` : rendered ids are ids of the schema;
* `Renderer.located_of_render` : what is found of them, and after a click.
-/

namespace SchemaCanvas

/-- What a loop repeats brings no ids of its own, and no changes for surfaces. -/
theorem Node.exists_within_of_loopBody {n a : Node} (h : a.Within (n.element.loopBody n.id)) :
    ∃ b : Node, b.Within n ∧ b.id = a.id ∧ b.element.platform = a.element.platform := by
  unfold Element.loopBody at h
  split at h
  · next c hitems =>
    have hmem : .node c ∈ n.items := by
      rw [Node.items, hitems]
      exact List.mem_singleton_self _
    exact ⟨a, .child hmem h, rfl, rfl⟩
  · -- the element itself, without its directives
    cases h with
    | self => exact ⟨n, .self, rfl, rfl⟩
    | child hc h => exact ⟨a, .child hc h, rfl, rfl⟩
    | branch hb => cases hb

namespace Renderer

variable {r : Renderer} {levels : Nat} {frame : RenderFrame} {n : Node} {o : Output}

theorem exists_within_of_renderNode (hn : ∀ a : Node, a.Within n → a.element.platform = none)
    (h : r.renderNode levels frame n = some o) :
    ∀ m ∈ o.nodes, ∀ id, m.id? = some id → ∃ a : Node, a.Within n ∧ a.id = id := by
  induction levels generalizing frame n o with
  | zero =>
    cases renderNode_eq_some_iff.1 h with
    | tooDeep =>
      intro m hm id hid
      obtain rfl := List.mem_singleton.1 hm
      exact ⟨n, .self, Option.some.inj hid⟩
  | succ levels ih =>
    cases renderNode_eq_some_iff.1 h with
    | misfit =>
      intro m hm id hid
      obtain rfl := List.mem_singleton.1 hm
      exact ⟨n, .self, Option.some.inj hid⟩
    | branch _ he hbranch hb =>
      obtain rfl := Element.eq_of_onSurface (hn n .self) he
      intro m hm id hid
      have hotherwise := (Element.otherwise_of_branch hbranch).1
      obtain ⟨a, ha, haid⟩ := ih (fun a ha => hn a (.branch hotherwise ha)) hb m hm id hid
      exact ⟨a, .branch hotherwise ha, haid⟩
    | loop _ he =>
      obtain rfl := Element.eq_of_onSurface (hn n .self) he
      intro m hm id hid
      rcases Output.mem_nodes_iff.1 hm with rfl | ⟨c, hc, hmc⟩
      · exact ⟨n, .self, Option.some.inj hid⟩
      obtain ⟨repetition, hmem, hc⟩ := List.mem_filterMap.1 hc
      obtain ⟨i, hi⟩ := List.getElem?_of_mem hmem
      obtain ⟨context, hbody⟩ := exists_of_mem_renderLoop hi
      -- the body need not lie in the tree, but what is in it is as in the tree
      have hplain : ∀ a : Node, a.Within (n.element.loopBody n.id) →
          a.element.platform = none := by
        intro a ha
        obtain ⟨b, hb, -, hplatform⟩ := Node.exists_within_of_loopBody ha
        rw [← hplatform, hn b hb]
      obtain ⟨a, ha, rfl⟩ := ih hplain (hbody.symm.trans hc) m hmc id hid
      obtain ⟨b, hb, hbid, -⟩ := Node.exists_within_of_loopBody ha
      exact ⟨b, hb, hbid⟩
    | plain _ he =>
      obtain rfl := Element.eq_of_onSurface (hn n .self) he
      intro m hm id hid
      rcases Output.mem_nodes_iff.1 hm with rfl | ⟨c, hc, hmc⟩
      · exact ⟨n, .self, Option.some.inj hid⟩
      rcases exists_child_of_mem_renderItems hc with ⟨s, rfl⟩ | ⟨i, child, hchild, hc⟩
      · -- a text has no id
        obtain rfl := List.mem_singleton.1 hmc
        cases hid
      · have hmem : .node child ∈ n.items := Node.mem_items_iff.2 ⟨i, hchild⟩
        obtain ⟨a, ha, haid⟩ := ih (fun a ha => hn a (.child hmem ha)) hc m hmc id hid
        exact ⟨a, .child hmem ha, haid⟩

/-- A rendered node is found by its id, unless it comes from an `else` branch. -/
theorem exists_pathOf?_or_inBranch {tree : Node} {context : Json}
    (hplatform : ∀ a : Node, a.Within tree → a.element.platform = none)
    (h : r.render tree context = some o) {m : Output} (hm : m ∈ o.nodes) {id : String}
    (hid : m.id? = some id) : (∃ path, tree.pathOf? id = some path) ∨ tree.InBranch id := by
  obtain ⟨a, ha, rfl⟩ := exists_within_of_renderNode hplatform h m hm id hid
  rcases Node.exists_path_or_inBranch ha with ⟨path, hpath⟩ | hbranch
  · exact .inl (Node.exists_pathOf?_iff.2 ⟨path, a, hpath, rfl⟩)
  · exact .inr hbranch

/-- **What is rendered can be edited,** apart from what comes from an `else` branch. In a tree
without changes for surfaces, the id of every rendered node is found, and so is the node that is
selected after a click on the rendered tree, unless the id is one of an `else` branch. -/
theorem located_of_render {tree : Node} {context : Json}
    (hplatform : ∀ a : Node, a.Within tree → a.element.platform = none)
    (h : r.render tree context = some o) :
    (∀ m ∈ o.nodes, ∀ id, m.id? = some id →
      (∃ path, tree.pathOf? id = some path) ∨ tree.InBranch id) ∧
    ∀ (s : SelectionState) raw direct sel, (s.click o raw direct).2 = some sel →
      (∃ path, Edit.locate tree (s.click o raw direct).1.selected = .ok path) ∨
        tree.InBranch sel.id := by
  refine ⟨fun m hm id hid => exists_pathOf?_or_inBranch hplatform h hm hid, ?_⟩
  intro s raw direct sel hclick
  obtain ⟨hselected, hid⟩ := SelectionState.selected_of_commit hclick
  obtain ⟨m, hfound, hid⟩ := Option.bind_eq_some_iff.1 hid
  obtain ⟨hm, -⟩ := Output.mem_nodes_of_findByPath? hfound
  rcases exists_pathOf?_or_inBranch hplatform h hm hid with ⟨path, hpath⟩ | hbranch
  · refine .inl ⟨path, Edit.locate_eq_ok_iff.2 ?_⟩
    rw [SelectionState.click, hselected, Option.bind_some, Selection.locate?, hpath]
  · exact .inr hbranch

/-- A page with a row for every item and a part in whose place a note is shown. -/
def standInTree : Node :=
  let row : Element :=
    { id := "row", type := "li", loop := some { source := .path "xs", item := "x" } }
  let note : Element := { id := "note", type := "p" }
  let part : Element :=
    { id := "part", type := "div", condition := some (.literal (.bool false)),
      otherwise := some (.node { element := note }) }
  let items := [.node { element := row }, .node { element := part }]
  { element := { id := "page", type := "div", children := some items } }

/-- A context in which the page has two rows. -/
def standInContext : Json := .obj [("xs", .arr [.str "a", .str "b"])]

theorem platform_of_within_standInTree :
    ∀ a : Node, a.Within standInTree → a.element.platform = none := by
  refine Node.forall_within_iff.2 ⟨rfl, nofun, fun c hc => ?_⟩
  simp only [standInTree, Node.items, Element.items, Option.getD_some, List.mem_cons,
    ChildItem.node.injEq, List.not_mem_nil, or_false] at hc
  rcases hc with rfl | rfl
  · exact Node.forall_within_iff.2 ⟨rfl, nofun, nofun⟩
  · refine Node.forall_within_iff.2 ⟨rfl, fun note hnote => ?_, nofun⟩
    cases hnote
    exact Node.forall_within_iff.2 ⟨rfl, nofun, nofun⟩

theorem located_of_render_standInTree :
    ∃ o, (Renderer.mk .standard []).render standInTree standInContext = some o ∧
      (∀ m ∈ o.nodes, ∀ id, m.id? = some id →
        (∃ path, standInTree.pathOf? id = some path) ∨ standInTree.InBranch id) ∧
      ∃ s : SelectionState, (s.click o [0, 1] true).2 = some ⟨"row", [0, 1]⟩ ∧
        ((∃ path, Edit.locate standInTree (s.click o [0, 1] true).1.selected = .ok path) ∨
          standInTree.InBranch "row") := by
  obtain ⟨o, ho⟩ :
      ∃ o, (Renderer.mk .standard []).render standInTree standInContext = some o := ⟨_, rfl⟩
  obtain ⟨hfound, hclick⟩ := located_of_render platform_of_within_standInTree ho
  let s : SelectionState := { enabled := true }
  have hrow : (s.click o [0, 1] true).2 = some ⟨"row", [0, 1]⟩ := by
    cases ho
    rfl
  exact ⟨o, ho, hfound, s, hrow, hclick s _ _ _ hrow⟩

/-- The note in the `else` branch is rendered and selected, and not found. -/
theorem not_located_of_render_standInTree :
    (∀ a : Node, a.Within standInTree → a.element.platform = none) ∧
    ∃ o m, (Renderer.mk .standard []).render standInTree standInContext = some o ∧
      m ∈ o.nodes ∧ m.id? = some "note" ∧ standInTree.pathOf? "note" = none ∧
      ∃ s : SelectionState, (s.click o [1] true).2 = some ⟨"note", [1]⟩ ∧
        Edit.locate standInTree (s.click o [1] true).1.selected =
          .error (.nodeNotFound "note") := by
  obtain ⟨o, ho⟩ :
      ∃ o, (Renderer.mk .standard []).render standInTree standInContext = some o := ⟨_, rfl⟩
  obtain ⟨m, hm, hid⟩ : ∃ m, o.findByPath? [1] = some m ∧ m.id? = some "note" := by
    cases ho
    exact ⟨_, rfl, rfl⟩
  refine ⟨platform_of_within_standInTree, o, m, ho, (Output.mem_nodes_of_findByPath? hm).1, hid,
    rfl, { enabled := true }, ?_, ?_⟩
  all_goals
    cases ho
    rfl

end Renderer

end SchemaCanvas
