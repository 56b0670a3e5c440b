import SchemaCanvas.Render.Render
import Mathlib.Tactic.SplitIfs

/-!
# One level of rendering

Rendering goes through a schema tree and leaves it in two places: the `else` branch of an element,
and the body of a loop, which is not always a node of the tree. `Renderer.Outcome` lists what can
come out of one node, with the conditions, in terms of what is rendered one level deeper. What is
claimed of every rendered tree is proved by induction on the levels and by cases on outcomes.

* `Renderer.renderNode_eq_some_iff` : there are no other outcomes;
* `Renderer.mem_renderItems_iff`, `Renderer.exists_child_of_mem_renderItems` and
  `Renderer.exists_of_mem_renderLoop` : where the children come from.
-/

namespace SchemaCanvas

/-- The type of the node is blank. -/
def Node.Blank (n : Node) : Prop := (Text.trim n.type).isEmpty = true

/-- The frame in which the element of a node is rendered. -/
def RenderFrame.inside (frame : RenderFrame) (n : Node) : RenderFrame :=
  { frame with context := n.context frame.context }

namespace Element

variable {e : Element}

/-- What stands in for an element is the node in its `else` branch, and there is a condition. -/
theorem otherwise_of_branch {context : Json} {transforms : Transforms} {b : Node}
    (h : e.branch context transforms = .node b) :
    e.otherwise = some (.node b) ∧ e.condition ≠ none := by
  unfold branch at h
  split at h
  · cases h
  · next condition hcondition =>
    rw [hcondition]
    refine ⟨?_, by simp⟩
    split_ifs at h
    unfold ElseBranch.branch at h
    split at h
    · next heq =>
      cases h
      exact heq
    · cases h
    · cases h

theorem branch_of_condition (h : e.condition = none) (context : Json) (transforms : Transforms) :
    e.branch context transforms = .self := by
  rw [branch, h]

theorem onSurface_of_platform (h : e.platform = none) (surface : Option String) :
    e.onSurface surface = .ok e := by
  obtain ⟨_, _, _, _, _, _, _, _, _, _, platform⟩ := e
  obtain rfl : platform = none := h
  rfl

theorem eq_of_onSurface {shown : Element} {surface : Option String} (h : e.platform = none)
    (hshown : e.onSurface surface = .ok shown) : shown = e := by
  rw [onSurface_of_platform h] at hshown
  exact (Except.ok.inj hshown).symm

end Element

namespace Renderer

variable {r : Renderer}

variable {levels : Nat} {frame : RenderFrame} {n : Node} {o : Output}

theorem renderNode_of_blank (h : n.Blank) : r.renderNode levels frame n = none := by
  cases levels with
  | zero => exact if_pos h
  | succ levels => exact if_pos h

theorem renderNode_zero (h : ¬ n.Blank) :
    r.renderNode 0 frame n =
      some (.failure n.id n.type frame.path (.tooDeep r.config.maxDepth)) := if_neg h

theorem renderNode_succ (h : ¬ n.Blank) :
    r.renderNode (levels + 1) frame n =
      match n.element.onSurface r.config.platform with
      | .error fault => some (.failure n.id n.type frame.path (.platform fault))
      | .ok e => r.renderElement (r.renderNode levels) (frame.inside n) n.id e := if_neg h

/-- What comes out of a node, where `levels` levels may be rendered. -/
inductive Outcome (r : Renderer) : Nat → RenderFrame → Node → Output → Prop
  /-- there are no levels left -/
  | tooDeep {frame : RenderFrame} {n : Node} (hblank : ¬ n.Blank) :
      Outcome r 0 frame n (.failure n.id n.type frame.path (.tooDeep r.config.maxDepth))
  /-- the element cannot be changed for the surface -/
  | misfit {levels : Nat} {frame : RenderFrame} {n : Node} {fault : PlatformFault}
      (hblank : ¬ n.Blank) (hsurface : n.element.onSurface r.config.platform = .error fault) :
      Outcome r (levels + 1) frame n (.failure n.id n.type frame.path (.platform fault))
  /-- the `else` branch stands in for the element -/
  | branch {levels : Nat} {frame : RenderFrame} {n b : Node} {e : Element} {o : Output}
      (hblank : ¬ n.Blank) (hsurface : n.element.onSurface r.config.platform = .ok e)
      (hbranch : e.branch (n.context frame.context) r.transforms = .node b)
      (hb : r.renderNode levels (frame.inside n) b = some o) :
      Outcome r (levels + 1) frame n o
  | loop {levels : Nat} {frame : RenderFrame} {n : Node} {e : Element} {l : Loop}
      (hblank : ¬ n.Blank) (hsurface : n.element.onSurface r.config.platform = .ok e)
      (hself : e.branch (n.context frame.context) r.transforms = .self) (hloop : e.loop = some l) :
      Outcome r (levels + 1) frame n
        (.loop n.id frame.path (r.renderLoop (r.renderNode levels) (frame.inside n) n.id e l))
  | plain {levels : Nat} {frame : RenderFrame} {n : Node} {e : Element}
      (hblank : ¬ n.Blank) (hsurface : n.element.onSurface r.config.platform = .ok e)
      (hself : e.branch (n.context frame.context) r.transforms = .self) (hloop : e.loop = none) :
      Outcome r (levels + 1) frame n
        (.element (r.renderPlain (r.renderNode levels) (frame.inside n) n.id e))

theorem Outcome.not_blank (h : r.Outcome levels frame n o) : ¬ n.Blank := by
  cases h <;> assumption

/-- **What is rendered is one of the outcomes.** -/
theorem renderNode_eq_some_iff :
    r.renderNode levels frame n = some o ↔ r.Outcome levels frame n o := by
  by_cases hblank : n.Blank
  · -- a blank node gives nothing, and no outcome allows one
    rw [renderNode_of_blank hblank]
    constructor
    · intro h
      cases h
    · exact fun h => absurd hblank h.not_blank
  constructor
  · intro h
    cases levels with
    | zero =>
      rw [renderNode_zero hblank] at h
      cases h
      exact .tooDeep hblank
    | succ levels =>
      rw [renderNode_succ hblank] at h
      split at h
      · next hsurface =>
        cases h
        exact .misfit hblank hsurface
      · next e hsurface =>
        unfold renderElement at h
        split at h
        · cases h
        · next hbranch => exact .branch hblank hsurface hbranch h
        · next hself =>
          split at h
          · next hloop =>
            cases h
            exact .loop hblank hsurface hself hloop
          · next hloop =>
            cases h
            exact .plain hblank hsurface hself hloop
  · intro h
    cases h with
    | tooDeep => exact renderNode_zero hblank
    | misfit _ hsurface => rw [renderNode_succ hblank, hsurface]
    | branch _ hsurface hbranch hb =>
      rw [renderNode_succ hblank, hsurface]
      simp only [renderElement, RenderFrame.inside, hbranch]
      exact hb
    | loop _ hsurface hself hloop =>
      rw [renderNode_succ hblank, hsurface]
      simp only [renderElement, RenderFrame.inside, hself, hloop]
    | plain _ hsurface hself hloop =>
      rw [renderNode_succ hblank, hsurface]
      simp only [renderElement, RenderFrame.inside, hself, hloop]

/-! ### Children -/

section

variable {inner : RenderFrame → Node → Option Output}

theorem cases_of_renderItem {item : ChildItem} (h : r.renderItem inner frame item = some o) :
    (∃ s, o = .text s) ∨ ∃ n, item = .node n ∧ inner frame n = some o := by
  unfold renderItem at h
  split at h
  · exact .inl ⟨_, (Option.some.inj h).symm⟩
  · exact .inl ⟨_, (Option.some.inj h).symm⟩
  · exact .inr ⟨_, rfl, h⟩
  · exact .inl ⟨_, (Option.some.inj h).symm⟩
  · exact .inl ⟨_, (Option.some.inj h).symm⟩
  · cases h

/-- Every child comes from an entry, at the position of that entry. -/
theorem mem_renderItems_iff {items : List ChildItem} :
    o ∈ r.renderItems inner frame items ↔
      ∃ i item, items[i]? = some item ∧ r.renderItem inner (frame.below i) item = some o := by
  simp only [renderItems, List.mem_filterMap, id_eq, exists_eq_right, List.mem_mapIdx]
  constructor
  · rintro ⟨i, hi, h⟩
    exact ⟨i, items[i], List.getElem?_eq_getElem hi, h⟩
  · rintro ⟨i, item, hitem, h⟩
    obtain ⟨hi, rfl⟩ := List.getElem?_eq_some_iff.1 hitem
    exact ⟨i, hi, h⟩

theorem exists_child_of_mem_renderItems (h : o ∈ r.renderItems inner frame n.items) :
    (∃ s, o = .text s) ∨ ∃ i c, n.child? i = some c ∧ inner (frame.below i) c = some o := by
  obtain ⟨i, item, hitem, ho⟩ := mem_renderItems_iff.1 h
  rcases cases_of_renderItem ho with htext | ⟨c, rfl, hc⟩
  · exact .inl htext
  · refine .inr ⟨i, c, ?_, hc⟩
    rw [Node.child?, hitem]
    rfl

/-- The repetition at a position of a loop. Its source is not being repeated, and has an item at
that position. -/
theorem getElem?_renderLoop {id : String} {e : Element} {l : Loop} {i : Nat}
    {repetition : Repetition} (h : (r.renderLoop inner frame id e l)[i]? = some repetition) :
    l.source.identity ∉ frame.sources ∧
      ∃ items item, l.items frame.context r.transforms = .ok items ∧ items[i]? = some item ∧
        repetition = r.renderRepetition inner frame id e l i item := by
  unfold renderLoop at h
  split_ifs at h with hsource
  · cases h
  split at h
  · next items hitems =>
    rw [List.getElem?_mapIdx] at h
    obtain ⟨item, hitem, rfl⟩ := Option.map_eq_some_iff.1 h
    exact ⟨by simpa using hsource, items, item, hitems, hitem, rfl⟩
  · cases h

theorem exists_of_mem_renderLoop {id : String} {e : Element} {l : Loop} {repetition : Repetition}
    {i : Nat} (h : (r.renderLoop inner frame id e l)[i]? = some repetition) :
    ∃ context, repetition.body =
      inner (frame.repetition l.source.identity context i) (e.loopBody id) := by
  obtain ⟨-, _, _, -, -, rfl⟩ := getElem?_renderLoop h
  exact ⟨_, rfl⟩

end

end Renderer

end SchemaCanvas
