import SchemaCanvas.Proofs.Render.Outcome
import SchemaCanvas.Proofs.Render.Placement
import Mathlib.Order.Basic

/-!
# The limit on the depth

An element at which the levels end leaves a failure in its place, and nothing on the way up takes a
failure out again: the failure of an `else` branch stands in for the element, that of a child or of
the body of a repetition is among the children of what is rendered. So a rendered tree without such
a failure has never come to its limit, and a higher limit makes no difference.

* `Renderer.renderNode_of_whole` : one node and everything below it;
* `Renderer.render_withLimit` : a whole tree.
-/

namespace SchemaCanvas

namespace Output

/-- The place of an element at which the levels ended. -/
def IsCutOff : Output → Prop
  | failure _ _ _ (.tooDeep _) => True
  | _ => False

instance : DecidablePred IsCutOff
  | failure _ _ _ (.tooDeep _) => .isTrue trivial
  | failure _ _ _ (.platform _) | text _ | element _ | loop .. => .isFalse id

/-- Nothing in the tree is cut off. -/
def Whole (o : Output) : Prop := ∀ m ∈ o.nodes, ¬ m.IsCutOff

theorem Whole.child {o c : Output} (h : o.Whole) (hc : c ∈ o.children) : c.Whole :=
  fun m hm => h m (mem_nodes_iff.2 (.inr ⟨c, hc, hm⟩))

theorem not_whole_tooDeep {id type : String} {path : Path} {limit : Nat} :
    ¬ (Output.failure id type path (.tooDeep limit)).Whole :=
  fun h => h _ (self_mem_nodes _) trivial

end Output

namespace Renderer

/-- The same settings with another limit on the depth. -/
def withLimit (r : Renderer) (limit : Nat) : Renderer :=
  { r with config := { r.config with maxDepth := limit } }

@[simp]
theorem withLimit_transforms (r : Renderer) (limit : Nat) :
    (r.withLimit limit).transforms = r.transforms := rfl

@[simp]
theorem withLimit_platform (r : Renderer) (limit : Nat) :
    (r.withLimit limit).config.platform = r.config.platform := rfl

variable {r : Renderer} {limit limit' levels levels' : Nat} {frame : RenderFrame} {n : Node}

/-! ### One level

Two ways to render what lies one level deeper are compared. They need to agree only on nodes that
the first renders whole, since these are the only ones that go into a whole tree. -/

section

variable {inner inner' : RenderFrame → Node → Option Output}
  (hinner : ∀ {frame n}, (∀ o, inner frame n = some o → o.Whole) → inner' frame n = inner frame n)

include hinner

theorem renderItem_of_whole {item : ChildItem}
    (h : ∀ o, (r.withLimit limit).renderItem inner frame item = some o → o.Whole) :
    (r.withLimit limit').renderItem inner' frame item =
      (r.withLimit limit).renderItem inner frame item := by
  cases item with
  | node n => exact hinner h
  | text | ref => rfl
  | other v => cases v <;> rfl

theorem renderItems_of_whole {items : List ChildItem}
    (h : ∀ o ∈ (r.withLimit limit).renderItems inner frame items, o.Whole) :
    (r.withLimit limit').renderItems inner' frame items =
      (r.withLimit limit).renderItems inner frame items := by
  refine congrArg (List.filterMap id) (List.ext_getElem? fun i => ?_)
  rw [List.getElem?_mapIdx, List.getElem?_mapIdx]
  refine Option.map_congr fun item hitem => renderItem_of_whole hinner fun o ho => ?_
  exact h o (mem_renderItems_iff.2 ⟨i, item, hitem, ho⟩)

theorem renderLoop_of_whole {id : String} {e : Element} {l : Loop}
    (h : ∀ repetition ∈ (r.withLimit limit).renderLoop inner frame id e l,
      ∀ o, repetition.body = some o → o.Whole) :
    (r.withLimit limit').renderLoop inner' frame id e l =
      (r.withLimit limit).renderLoop inner frame id e l := by
  by_cases hsource : frame.sources.contains l.source.identity
  · rw [renderLoop, renderLoop, if_pos hsource, if_pos hsource]
  cases hitems : l.items frame.context r.transforms with
  | error => simp only [renderLoop, withLimit_transforms, hitems]
  | ok items =>
    simp only [renderLoop, if_neg hsource, withLimit_transforms, hitems] at h ⊢
    refine List.ext_getElem? fun i => ?_
    rw [List.getElem?_mapIdx, List.getElem?_mapIdx]
    refine Option.map_congr fun item hitem => ?_
    -- the key of a repetition does not depend on its body
    refine congrArg (Repetition.mk _ _) (hinner fun o ho => ?_)
    let repetition := (r.withLimit limit).renderRepetition inner frame id e l i item
    have hmem : repetition ∈
        items.mapIdx ((r.withLimit limit).renderRepetition inner frame id e l) :=
      List.mem_of_getElem? (by rw [List.getElem?_mapIdx, hitem, Option.map_some])
    exact h repetition hmem o ho

theorem renderElement_of_whole {id : String} {e : Element}
    (h : ∀ o, (r.withLimit limit).renderElement inner frame id e = some o → o.Whole) :
    (r.withLimit limit').renderElement inner' frame id e =
      (r.withLimit limit).renderElement inner frame id e := by
  simp only [renderElement, withLimit_transforms] at h ⊢
  cases hbranch : e.branch frame.context r.transforms with
  | nothing => rfl
  | node b =>
    rw [hbranch] at h
    exact hinner h
  | self =>
    rw [hbranch] at h
    cases hloop : e.loop with
    | some l =>
      rw [hloop] at h
      have hwhole := h _ rfl
      refine congrArg (fun repetitions => some (Output.loop id frame.path repetitions)) ?_
      refine renderLoop_of_whole hinner fun repetition hmem o ho => ?_
      exact hwhole.child (List.mem_filterMap.2 ⟨repetition, hmem, ho⟩)
    | none =>
      rw [hloop] at h
      have hwhole := h _ rfl
      have hchildren : (r.withLimit limit').renderItems inner' frame e.items =
          (r.withLimit limit).renderItems inner frame e.items :=
        renderItems_of_whole hinner fun o ho => hwhole.child ho
      simp only [renderPlain, hchildren]
      rfl

end

/-! ### All levels -/

/-- **A node that is rendered whole is rendered in the same way with more levels.** -/
theorem renderNode_of_whole
    (h : ∀ o, (r.withLimit limit).renderNode levels frame n = some o → o.Whole)
    (hle : levels ≤ levels') :
    (r.withLimit limit').renderNode levels' frame n =
      (r.withLimit limit).renderNode levels frame n := by
  induction levels generalizing levels' frame n with
  | zero =>
    by_cases hblank : n.Blank
    · rw [renderNode_of_blank hblank, renderNode_of_blank hblank]
    · -- the node itself is cut off
      exact absurd (h _ (renderNode_zero hblank)) Output.not_whole_tooDeep
  | succ levels ih =>
    obtain ⟨levels', rfl⟩ := Nat.exists_eq_add_of_le' hle
    by_cases hblank : n.Blank
    · rw [renderNode_of_blank hblank, renderNode_of_blank hblank]
    -- both have a level left for the node itself, and what is inside has one less
    rw [show levels' + (levels + 1) = levels' + levels + 1 by omega, renderNode_succ hblank,
      renderNode_succ hblank, withLimit_platform, withLimit_platform]
    rw [renderNode_succ hblank, withLimit_platform] at h
    cases hsurface : n.element.onSurface r.config.platform with
    | error => rfl
    | ok e =>
      rw [hsurface] at h
      exact renderElement_of_whole (fun hwhole => ih hwhole (by omega)) h

/-- **The limit on the depth makes no difference where nothing is cut off.** If a tree is rendered
without a failure at the limit anywhere, a higher limit gives exactly the same. -/
theorem render_withLimit {tree : Node} {context : Json} (hle : limit ≤ limit')
    (h : ∀ o, (r.withLimit limit).render tree context = some o → ∀ m ∈ o.nodes, ¬ m.IsCutOff) :
    (r.withLimit limit').render tree context = (r.withLimit limit).render tree context :=
  renderNode_of_whole h hle

/-- A page with a row for every item and a part in whose place a note is shown. Rows and note lie
three levels deep. -/
def threeLevelTree : Node :=
  let cell : Element := { id := "cell", type := "li" }
  let rows : Element :=
    { id := "rows", type := "ul", loop := some { source := .path "xs", item := "x" },
      children := some [.node { element := cell }] }
  let note : Element := { id := "note", type := "p" }
  let part : Element :=
    { id := "part", type := "div", condition := some (.literal (.bool false)),
      otherwise := some (.node { element := note }) }
  let items := [.node { element := rows }, .node { element := part }]
  { element := { id := "page", type := "div", children := some items } }

/-- A context in which the page has two rows. -/
def twoRows : Json := .obj [("xs", .arr [.str "a", .str "b"])]

theorem render_withLimit_threeLevelTree :
    let r := Renderer.mk .standard []
    ∃ o, (r.withLimit 3).render threeLevelTree twoRows = some o ∧
      (∀ m ∈ o.nodes, ¬ m.IsCutOff) ∧ (r.withLimit 64).render threeLevelTree twoRows = some o := by
  intro r
  obtain ⟨o, ho⟩ : ∃ o, (r.withLimit 3).render threeLevelTree twoRows = some o := ⟨_, rfl⟩
  have hwhole : ∀ m ∈ o.nodes, ¬ m.IsCutOff := by
    cases ho
    decide +kernel
  refine ⟨o, ho, hwhole, (render_withLimit (by decide) fun o' ho' => ?_).trans ho⟩
  cases ho.symm.trans ho'
  exact hwhole

end Renderer

end SchemaCanvas
