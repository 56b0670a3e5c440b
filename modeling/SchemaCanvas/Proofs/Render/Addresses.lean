import SchemaCanvas.Proofs.Render.Outcome
import SchemaCanvas.Proofs.Render.Placement
import SchemaCanvas.Proofs.Schema.Subtree

/-!
# Schema paths and rendered paths

The paths of a rendered tree are positions in that tree. They are paths of the schema as well, as
long as nothing in the schema is repeated, stands in for something else or is changed for a surface:
every child is rendered at its own position, and a component takes the place of its element.

* `Renderer.exists_get?_of_renderNode` : a rendered node lies where its schema node lies;
* `Renderer.exists_element_of_get?` : a schema node that is not cut off is rendered where it lies;
* `Renderer.sameAddresses_render` : both for a whole tree.
-/

namespace SchemaCanvas

/-- An element that is rendered in its own place, if it is rendered: it is not repeated, no other
node stands in for it, and it has no changes for surfaces. -/
structure Element.Stays (e : Element) : Prop where
  loop : e.loop = none
  otherwise : ∀ b, e.otherwise ≠ some (.node b)
  platform : e.platform = none

namespace Renderer

variable {r : Renderer} {levels : Nat} {frame : RenderFrame} {n : Node}

theorem plain_of_stays (r : Renderer) (levels : Nat) (frame : RenderFrame) (hn : n.element.Stays)
    (hway : n.element.condition = none ∧ ¬ n.Blank) :
    r.renderNode (levels + 1) frame n =
      some (.element (r.renderPlain (r.renderNode levels) (frame.inside n) n.id n.element)) := by
  obtain ⟨hcondition, hblank⟩ := hway
  refine renderNode_eq_some_iff.2 (.plain hblank ?_ ?_ hn.loop)
  · exact Element.onSurface_of_platform hn.platform r.config.platform
  · exact Element.branch_of_condition hcondition _ r.transforms

theorem exists_get?_of_renderNode {o : Output} (hn : ∀ a : Node, a.Within n → a.element.Stays)
    (h : r.renderNode levels frame n = some o) :
    ∀ m ∈ o.nodes, ∀ q, m.path? = some q →
      ∃ p a, q = frame.path ++ p ∧ n.get? p = some a ∧ m.id? = some a.id := by
  induction levels generalizing frame n o with
  | zero =>
    cases renderNode_eq_some_iff.1 h with
    | tooDeep =>
      intro m hm q hq
      obtain rfl := List.mem_singleton.1 hm
      exact ⟨[], n, by rw [← Option.some.inj hq, List.append_nil], rfl, rfl⟩
  | succ levels ih =>
    obtain ⟨hself, -, hitems⟩ := Node.forall_within_iff.1 hn
    cases renderNode_eq_some_iff.1 h with
    | misfit _ hmisfit =>
      rw [Element.onSurface_of_platform hself.platform] at hmisfit
      cases hmisfit
    | branch _ he hbranch =>
      obtain rfl := Element.eq_of_onSurface hself.platform he
      exact absurd (Element.otherwise_of_branch hbranch).1 (hself.otherwise _)
    | loop _ he _ hloop =>
      obtain rfl := Element.eq_of_onSurface hself.platform he
      rw [hself.loop] at hloop
      cases hloop
    | plain _ he =>
      obtain rfl := Element.eq_of_onSurface hself.platform he
      intro m hm q hq
      rcases Output.mem_nodes_iff.1 hm with rfl | ⟨o, ho, hmo⟩
      · exact ⟨[], n, by rw [← Option.some.inj hq, List.append_nil]; rfl, rfl, rfl⟩
      rcases exists_child_of_mem_renderItems ho with ⟨s, rfl⟩ | ⟨i, child, hchild, ho⟩
      · -- a text has no path
        obtain rfl := List.mem_singleton.1 hmo
        cases hq
      · have hmem : .node child ∈ n.items := Node.mem_items_iff.2 ⟨i, hchild⟩
        obtain ⟨p, a, rfl, hget, hid⟩ := ih (hitems child hmem) ho m hmo q hq
        refine ⟨i :: p, a, ?_, ?_, hid⟩
        · simp [RenderFrame.below, RenderFrame.inside]
        · rw [Node.get?, hchild, Option.bind_some, hget]

/-- **A schema node is rendered where it lies,** unless it lies too deep or something above it or
itself has a condition or a blank type. -/
theorem exists_element_of_get? {a : Node} {p : Path} (hn : ∀ a : Node, a.Within n → a.element.Stays)
    (hget : n.get? p = some a) (hlevels : p.length < levels)
    (hway : ∀ q b, q <+: p → n.get? q = some b → b.element.condition = none ∧ ¬ b.Blank) :
    ∃ o e, r.renderNode levels frame n = some o ∧ .element e ∈ o.nodes ∧
      e.path = frame.path ++ p ∧ e.id = a.id := by
  -- along the path: one step of it leads one level deeper, in the schema and in the rendered tree
  induction p generalizing n levels frame with
  | nil =>
    obtain ⟨levels, rfl⟩ := Nat.exists_eq_succ_of_ne_zero (Nat.ne_of_gt hlevels)
    obtain rfl := Option.some.inj hget
    have hplain := plain_of_stays r levels frame (hn n .self) (hway [] n List.prefix_rfl rfl)
    exact ⟨_, _, hplain, Output.self_mem_nodes _, (List.append_nil _).symm, rfl⟩
  | cons i p ih =>
    obtain ⟨levels, rfl⟩ := Nat.exists_eq_succ_of_ne_zero (Nat.ne_zero_of_lt hlevels)
    obtain ⟨hself, -, hitems⟩ := Node.forall_within_iff.1 hn
    obtain ⟨child, hchild, hrest⟩ := Option.bind_eq_some_iff.1 hget
    have hwayBelow : ∀ q b, q <+: p → child.get? q = some b →
        b.element.condition = none ∧ ¬ b.Blank := by
      intro q b hq hb
      refine hway (i :: q) b (List.cons_prefix_cons.2 ⟨rfl, hq⟩) ?_
      rw [Node.get?, hchild, Option.bind_some, hb]
    obtain ⟨o, e, ho, he, hpath, hid⟩ : ∃ o e,
        r.renderNode levels ((frame.inside n).below i) child = some o ∧ .element e ∈ o.nodes ∧
          e.path = frame.path ++ [i] ++ p ∧ e.id = a.id :=
      ih (hitems child (Node.mem_items_iff.2 ⟨i, hchild⟩)) hrest (Nat.lt_of_succ_lt_succ hlevels)
        hwayBelow
    have hplain := plain_of_stays r levels frame hself (hway [] n List.nil_prefix rfl)
    refine ⟨_, e, hplain, Output.mem_nodes_iff.2 (.inr ⟨o, ?_, he⟩), ?_, hid⟩
    · exact mem_renderItems_iff.2 ⟨i, .node child, Node.getElem?_of_child? hchild, ho⟩
    · rw [hpath, List.append_assoc]
      rfl

/-- **One scheme of addresses.** In a tree whose elements all stay in their places, every rendered
node with a path has the id of the schema node at that path. Every schema node at a path shorter
than the depth that is rendered, with no condition and no blank type on the way to it, is rendered
as an element at that path, with its id. -/
theorem sameAddresses_render {tree : Node} (htree : ∀ a : Node, a.Within tree → a.element.Stays)
    (context : Json) :
    (∀ o, r.render tree context = some o → ∀ m ∈ o.nodes, ∀ p, m.path? = some p →
      ∃ n, tree.get? p = some n ∧ m.id? = some n.id) ∧
    ∀ p n, tree.get? p = some n → p.length < r.config.maxDepth →
      (∀ q a, q <+: p → tree.get? q = some a → a.element.condition = none ∧ ¬ a.Blank) →
      ∃ o e, r.render tree context = some o ∧ .element e ∈ o.nodes ∧ e.path = p ∧ e.id = n.id := by
  constructor
  · intro o ho m hm p hp
    obtain ⟨p, n, rfl, hget, hid⟩ := exists_get?_of_renderNode htree ho m hm p hp
    exact ⟨n, hget, hid⟩
  · intro p n hget hlevels hway
    exact exists_element_of_get? htree hget hlevels hway

/-- A page with a line of text and a card, which is a component and holds a text and a note. -/
def cardTree : Node :=
  let note : Element := { id := "note", type := "p" }
  let card : Element :=
    { id := "inner", type := "div", children := some [.text "Notes", .node { element := note }] }
  let component : Component := { id := "card" }
  let items := [.text "Cards", .other .null, .node { component := component, element := card }]
  { element := { id := "page", type := "div", children := some items } }

theorem sameAddresses_render_cardTree :
    (∀ a : Node, a.Within cardTree → a.element.Stays) ∧
    ∃ o e, (Renderer.mk .standard []).render cardTree .null = some o ∧
      (∀ m ∈ o.nodes, ∀ p, m.path? = some p →
        ∃ n, cardTree.get? p = some n ∧ m.id? = some n.id) ∧
      .element e ∈ o.nodes ∧ e.path = [2, 1] ∧ e.id = "note" := by
  have hstays : ∀ a : Node, a.Within cardTree → a.element.Stays := by
    -- one level after the other: the page, the card and the note
    refine Node.forall_within_iff.2 ⟨⟨rfl, nofun, rfl⟩, nofun, fun card hcard => ?_⟩
    obtain rfl : card = _ := by simpa [cardTree, Node.items, Element.items] using hcard
    refine Node.forall_within_iff.2 ⟨⟨rfl, nofun, rfl⟩, nofun, fun note hnote => ?_⟩
    obtain rfl : note = _ := by simpa [Node.items, Element.items] using hnote
    exact Node.forall_within_iff.2 ⟨⟨rfl, nofun, rfl⟩, nofun, nofun⟩
  obtain ⟨hwhere, hevery⟩ := sameAddresses_render (r := Renderer.mk .standard []) hstays .null
  -- nothing on the way to the note has a condition or a blank type
  have hway : ∀ q a, q <+: [2, 1] → cardTree.get? q = some a →
      a.element.condition = none ∧ ¬ a.Blank := by
    intro q a hq ha
    simp only [List.prefix_cons_iff, List.prefix_nil] at hq
    rcases hq with rfl | ⟨_, rfl, rfl | ⟨_, rfl, rfl⟩⟩
    all_goals
      cases ha
      exact ⟨rfl, by unfold Node.Blank; decide⟩
  obtain ⟨o, e, ho, he, hpath, hid⟩ := hevery [2, 1] _ rfl (by decide) hway
  exact ⟨hstays, o, e, ho, hwhere o ho, he, hpath, hid⟩

end Renderer

end SchemaCanvas
