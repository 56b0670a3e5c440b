import SchemaCanvas.Proofs.Render.Depth
import Mathlib.Order.WellFounded

/-!
# The recursion of rendering

A node that is rendered leads to others, all of them one level deeper: the `else` branch that stands
in for it, its children, or what its loop repeats, once for every item. `Renderer.Calls` lists these
ways with their conditions. The body of a loop may be the element itself, so the schema gets no
smaller on the way; it is the depth that ends the recursion. Nothing is called from the greatest
depth on.

* `Renderer.visitOnce` : one node, rendered with what the nodes it leads to give, with the depth
  counted up from the root;
* `Renderer.visitOnce_congr` : it asks for nothing but what it calls;
* `Renderer.exists_stack_of_under` : a rendered node and all nodes above it, as calls of each other;
* `Renderer.recursion_bounded` : the recursion ends, and so does the rendered tree.
-/

namespace SchemaCanvas

namespace Output

/-- A node that has rendered its element: all others have nothing below them. -/
def IsExpanded : Output → Prop
  | element _ | loop .. => True
  | text _ | failure .. => False

/-- A node of a tree, with the nodes above it, the root first. -/
inductive Under (o : Output) : List Output → Output → Prop
  | root : Under o [] o
  | child {above : List Output} {m c : Output} (h : Under o above m) (hc : c ∈ m.children) :
      Under o (above ++ [m]) c

end Output

/-- A node that is rendered, the number of levels above it and its frame. -/
structure Visit where
  depth : Nat
  frame : RenderFrame
  node : Node

namespace Visit

/-- The frame in which the element of the node is rendered. -/
def inside (v : Visit) : RenderFrame := v.frame.inside v.node

/-- A visit one level deeper. -/
def deeper (v : Visit) (frame : RenderFrame) (node : Node) : Visit := ⟨v.depth + 1, frame, node⟩

/-- The visit with which the rendering of a tree begins. -/
def root (tree : Node) (context : Json) : Visit := ⟨0, { context, sources := [], path := [] }, tree⟩

end Visit

/-- The way from a node to one that is rendered one level deeper. -/
inductive Route where
  /-- to the `else` branch -/
  | branch
  /-- to an entry of the list of children -/
  | child (i : Nat)
  /-- to the body of a loop, for one of its items -/
  | repetition (l : Loop) (i : Nat)

/-- The loop whose body is rendered on this way. -/
def Route.loop? : Route → Option Loop
  | repetition l _ => some l
  | branch | child _ => none

namespace Renderer

variable (r : Renderer)

/-! ### Visits and their calls -/

/-- What a visit gives. -/
def visit (v : Visit) : Option Output := r.renderNode (r.config.maxDepth - v.depth) v.frame v.node

/-- A visit, where `inner` answers the visits that it leads to. -/
def visitOnce (inner : Visit → Option Output) (v : Visit) : Option Output :=
  if (Text.trim v.node.type).isEmpty then none
  else if r.config.maxDepth ≤ v.depth then
    some (.failure v.node.id v.node.type v.frame.path (.tooDeep r.config.maxDepth))
  else
    match v.node.element.onSurface r.config.platform with
    | .error fault => some (.failure v.node.id v.node.type v.frame.path (.platform fault))
    | .ok e => r.renderElement (fun frame n => inner (v.deeper frame n)) v.inside v.node.id e

/-- A visit comes to an element, as it is on the surface. -/
structure Enters (v : Visit) (e : Element) : Prop where
  blank : ¬ v.node.Blank
  depth : v.depth < r.config.maxDepth
  surface : v.node.element.onSurface r.config.platform = .ok e

/-- The element is rendered itself: its conditions do not fail. -/
structure Expands (v : Visit) (e : Element) : Prop extends r.Enters v e where
  self : e.branch v.inside.context r.transforms = .self

/-- The visits that a visit leads to, one level deeper. -/
inductive Calls : Visit → Route → Visit → Prop
  | branch {v : Visit} {e : Element} {b : Node} (h : r.Enters v e)
      (hbranch : e.branch v.inside.context r.transforms = .node b) :
      Calls v .branch (v.deeper v.inside b)
  | child {v : Visit} {e : Element} {i : Nat} {c : Node} (h : r.Expands v e) (hloop : e.loop = none)
      (hc : e.items[i]? = some (.node c)) : Calls v (.child i) (v.deeper (v.inside.below i) c)
  | repetition {v : Visit} {e : Element} {l : Loop} {items : List Json} {i : Nat} {item : Json}
      (h : r.Expands v e) (hloop : e.loop = some l)
      (hsource : l.source.identity ∉ v.inside.sources)
      (hitems : l.items v.inside.context r.transforms = .ok items) (hitem : items[i]? = some item) :
      Calls v (.repetition l i)
        (v.deeper (v.inside.repetition l.source.identity (l.itemContext v.inside.context item i) i)
          (e.loopBody v.node.id))

variable {r} {v w : Visit} {route : Route}

theorem Calls.depth_eq (h : r.Calls v route w) : w.depth = v.depth + 1 := by
  cases h <;> rfl

theorem Calls.depth_lt (h : r.Calls v route w) : v.depth < r.config.maxDepth := by
  cases h with
  | branch h => exact h.depth
  | child h | repetition h => exact h.depth

theorem wellFounded_calls (r : Renderer) : WellFounded fun w v => ∃ route, r.Calls v route w := by
  let left (v : Visit) : Nat := r.config.maxDepth - v.depth
  refine Subrelation.wf (r := InvImage (· < ·) left) ?_ (InvImage.wf left Nat.lt_wfRel.wf)
  rintro w v ⟨route, h⟩
  have := h.depth_eq
  have := h.depth_lt
  show r.config.maxDepth - w.depth < r.config.maxDepth - v.depth
  omega

/-! ### One visit -/

section

variable {f g : Visit → Option Output}

theorem visitOnce_of_blank (h : v.node.Blank) : r.visitOnce f v = none := if_pos h

theorem visitOnce_of_le (h : ¬ v.node.Blank) (hdepth : r.config.maxDepth ≤ v.depth) :
    r.visitOnce f v =
      some (.failure v.node.id v.node.type v.frame.path (.tooDeep r.config.maxDepth)) :=
  (if_neg h).trans (if_pos hdepth)

theorem visitOnce_of_lt (h : ¬ v.node.Blank) (hdepth : ¬ r.config.maxDepth ≤ v.depth) :
    r.visitOnce f v =
      match v.node.element.onSurface r.config.platform with
      | .error fault => some (.failure v.node.id v.node.type v.frame.path (.platform fault))
      | .ok e => r.renderElement (fun frame n => f (v.deeper frame n)) v.inside v.node.id e :=
  (if_neg h).trans (if_neg hdepth)

theorem renderItem_congr_calls {e : Element} {i : Nat} {item : ChildItem} (h : r.Expands v e)
    (hloop : e.loop = none) (hitem : e.items[i]? = some item)
    (hcalls : ∀ route w, r.Calls v route w → f w = g w) :
    r.renderItem (fun frame n => f (v.deeper frame n)) (v.inside.below i) item =
      r.renderItem (fun frame n => g (v.deeper frame n)) (v.inside.below i) item := by
  cases item with
  | node n => exact hcalls _ _ (.child h hloop hitem)
  | text | ref => rfl
  | other v => cases v <;> rfl

theorem renderLoop_congr_calls {e : Element} {l : Loop} (h : r.Expands v e)
    (hloop : e.loop = some l) (hcalls : ∀ route w, r.Calls v route w → f w = g w) :
    r.renderLoop (fun frame n => f (v.deeper frame n)) v.inside v.node.id e l =
      r.renderLoop (fun frame n => g (v.deeper frame n)) v.inside v.node.id e l := by
  by_cases hsource : v.inside.sources.contains l.source.identity
  · rw [renderLoop, renderLoop, if_pos hsource, if_pos hsource]
  cases hitems : l.items v.inside.context r.transforms with
  | error => simp only [renderLoop, hitems]
  | ok items =>
    simp only [renderLoop, if_neg hsource, hitems]
    refine List.ext_getElem? fun i => ?_
    rw [List.getElem?_mapIdx, List.getElem?_mapIdx]
    refine Option.map_congr fun item hitem => congrArg (Repetition.mk _ _) ?_
    exact hcalls _ _ (.repetition h hloop (by simpa using hsource) hitems hitem)

/-- **A visit asks for nothing but what it calls.** -/
theorem visitOnce_congr (hcalls : ∀ route w, r.Calls v route w → f w = g w) :
    r.visitOnce f v = r.visitOnce g v := by
  by_cases hblank : v.node.Blank
  · rw [visitOnce_of_blank hblank, visitOnce_of_blank hblank]
  by_cases hdepth : r.config.maxDepth ≤ v.depth
  · rw [visitOnce_of_le hblank hdepth, visitOnce_of_le hblank hdepth]
  rw [visitOnce_of_lt hblank hdepth, visitOnce_of_lt hblank hdepth]
  cases hsurface : v.node.element.onSurface r.config.platform with
  | error => rfl
  | ok e =>
    have hentered : r.Enters v e := ⟨hblank, Nat.lt_of_not_le hdepth, hsurface⟩
    dsimp only [renderElement]
    cases hbranch : e.branch v.inside.context r.transforms with
    | nothing => rfl
    | node b => exact hcalls _ _ (.branch hentered hbranch)
    | self =>
      have hself : r.Expands v e := ⟨hentered, hbranch⟩
      cases hloop : e.loop with
      | some l => simp only [renderLoop_congr_calls hself hloop hcalls]
      | none =>
        have hchildren : r.renderItems (fun frame n => f (v.deeper frame n)) v.inside e.items =
            r.renderItems (fun frame n => g (v.deeper frame n)) v.inside e.items := by
          refine congrArg (List.filterMap id) (List.ext_getElem? fun i => ?_)
          rw [List.getElem?_mapIdx, List.getElem?_mapIdx]
          exact Option.map_congr fun item hitem =>
            renderItem_congr_calls hself hloop hitem hcalls
        simp only [renderPlain, hchildren]

end

/-- Counting levels down to the root comes to the same as counting the depth up. -/
theorem visit_eq (r : Renderer) (v : Visit) : r.visit v = r.visitOnce r.visit v := by
  by_cases hblank : v.node.Blank
  · rw [visit, renderNode_of_blank hblank, visitOnce_of_blank hblank]
  by_cases hdepth : r.config.maxDepth ≤ v.depth
  · rw [visit, Nat.sub_eq_zero_of_le hdepth, renderNode_zero hblank, visitOnce_of_le hblank hdepth]
  · have hlevels : r.config.maxDepth - v.depth = r.config.maxDepth - (v.depth + 1) + 1 := by omega
    rw [visit, hlevels, renderNode_succ hblank, visitOnce_of_lt hblank hdepth]
    rfl

/-- **The recursion has one solution,** which is the rendering. -/
theorem eq_visitOnce_iff {f : Visit → Option Output} :
    (∀ v, f v = r.visitOnce f v) ↔ f = r.visit := by
  constructor
  · intro h
    funext v
    induction v using (wellFounded_calls r).induction with
    | _ v ih =>
      rw [h, visit_eq]
      exact visitOnce_congr fun route w hcall => ih w ⟨route, hcall⟩
  · rintro rfl
    exact visit_eq r

/-! ### What a visit leaves in the tree -/

theorem visit_of_plain {e : Element} (h : r.Expands v e) (hloop : e.loop = none) :
    r.visit v = some (.element
      (r.renderPlain (fun frame n => r.visit (v.deeper frame n)) v.inside v.node.id e)) := by
  rw [visit_eq, visitOnce_of_lt h.blank (Nat.not_le.2 h.depth), h.surface]
  simp only [renderElement, h.self, hloop]

theorem visit_of_loop {e : Element} {l : Loop} (h : r.Expands v e) (hloop : e.loop = some l) :
    r.visit v = some (.loop v.node.id v.frame.path
      (r.renderLoop (fun frame n => r.visit (v.deeper frame n)) v.inside v.node.id e l)) := by
  rw [visit_eq, visitOnce_of_lt h.blank (Nat.not_le.2 h.depth), h.surface]
  simp only [renderElement, h.self, hloop]
  rfl

/-- A visit leaves a node of its own, and not that of an `else` branch. -/
structure Leaves (r : Renderer) (v : Visit) (o : Output) : Prop where
  visit : r.visit v = some o
  own : ∀ w, ¬ r.Calls v .branch w

variable {o c : Output}

theorem leaves_or_branch (h : r.visit v = some o) :
    r.Leaves v o ∨ ∃ w, r.Calls v .branch w ∧ r.visit w = some o := by
  by_cases hbranch : ∃ w, r.Calls v .branch w
  · obtain ⟨w, hcall⟩ := hbranch
    refine .inr ⟨w, hcall, ?_⟩
    cases hcall with
    | branch hentered hb =>
      rw [visit_eq, visitOnce_of_lt hentered.blank (Nat.not_le.2 hentered.depth),
        hentered.surface] at h
      simp only [renderElement, hb] at h
      exact h
  · exact .inl ⟨h, not_exists.1 hbranch⟩

theorem Leaves.cases (h : r.Leaves v o) :
    (∃ fault, o = .failure v.node.id v.node.type v.frame.path fault) ∨ ∃ e, r.Expands v e := by
  obtain ⟨h, hown⟩ := h
  rw [visit_eq] at h
  by_cases hblank : v.node.Blank
  · rw [visitOnce_of_blank hblank] at h
    cases h
  by_cases hdepth : r.config.maxDepth ≤ v.depth
  · rw [visitOnce_of_le hblank hdepth] at h
    exact .inl ⟨_, (Option.some.inj h).symm⟩
  rw [visitOnce_of_lt hblank hdepth] at h
  cases hsurface : v.node.element.onSurface r.config.platform with
  | error =>
    rw [hsurface] at h
    exact .inl ⟨_, (Option.some.inj h).symm⟩
  | ok e =>
    have hentered : r.Enters v e := ⟨hblank, Nat.lt_of_not_le hdepth, hsurface⟩
    rw [hsurface] at h
    dsimp only [renderElement] at h
    cases hbranch : e.branch v.inside.context r.transforms with
    | nothing =>
      rw [hbranch] at h
      cases h
    | node b => exact absurd (.branch hentered hbranch) (hown _)
    | self => exact .inr ⟨e, hentered, hbranch⟩

theorem Leaves.exists_call (h : r.Leaves v o) (hc : c ∈ o.children) :
    (∃ s, c = .text s) ∨
      ∃ route w, r.Calls v route w ∧ route ≠ .branch ∧ r.visit w = some c := by
  obtain ⟨fault, rfl⟩ | ⟨e, he⟩ := h.cases
  · cases hc
  cases hloop : e.loop with
  | none =>
    obtain rfl := Option.some.inj (h.visit.symm.trans (visit_of_plain he hloop))
    obtain ⟨i, item, hitem, hrendered⟩ := mem_renderItems_iff.1 hc
    rcases cases_of_renderItem hrendered with htext | ⟨n, rfl, hn⟩
    · exact .inl htext
    · exact .inr ⟨_, _, .child he hloop hitem, nofun, hn⟩
  | some l =>
    obtain rfl := Option.some.inj (h.visit.symm.trans (visit_of_loop he hloop))
    obtain ⟨repetition, hmem, hbody⟩ := List.mem_filterMap.1 hc
    obtain ⟨i, hi⟩ := List.getElem?_of_mem hmem
    obtain ⟨hsource, items, item, hitems, hitem, rfl⟩ := getElem?_renderLoop hi
    exact .inr ⟨_, _, .repetition he hloop hsource hitems hitem, nofun, hbody⟩

/-! ### Stacks of calls -/

/-- The visits that are open when a visit begins, the first one first, each with the way on which it
has called the next. -/
inductive Stack (r : Renderer) (start : Visit) : List (Visit × Route) → Visit → Prop
  | nil : Stack r start [] start
  | call {stack : List (Visit × Route)} {v w : Visit} {route : Route} (h : Stack r start stack v)
      (hcall : r.Calls v route w) : Stack r start (stack ++ [(v, route)]) w

/-- What the open visits leave in the rendered tree: those that lead to an `else` branch leave
nothing. -/
def trail (r : Renderer) (stack : List (Visit × Route)) : List Output :=
  stack.filterMap fun
    | (_, .branch) => none
    | (v, _) => r.visit v

variable {start : Visit} {stack : List (Visit × Route)}

theorem Stack.depth_eq (h : r.Stack start stack v) : v.depth = start.depth + stack.length := by
  induction h with
  | nil => rfl
  | call _ hcall ih =>
    rw [hcall.depth_eq, ih, List.length_append]
    rfl

/-- The visit that leaves what another one gives lies behind `else` branches alone. -/
theorem Stack.exists_leaves (h : r.Stack start stack v) (ho : r.visit v = some o) :
    ∃ stack' w, r.Stack start stack' w ∧ r.Leaves w o ∧ r.trail stack' = r.trail stack := by
  induction v using (wellFounded_calls r).induction generalizing stack with
  | _ v ih =>
    rcases leaves_or_branch ho with hown | ⟨w, hcall, hw⟩
    · exact ⟨stack, v, h, hown, rfl⟩
    · obtain ⟨stack', w', hstack, hleaves, htrail⟩ := ih w ⟨.branch, hcall⟩ (h.call hcall) hw
      refine ⟨stack', w', hstack, hleaves, htrail.trans ?_⟩
      simp [trail]

/-- **A rendered node and all nodes above it come from visits that have called each other.** -/
theorem exists_stack_of_under {above : List Output} {m : Output} (ho : r.visit start = some o)
    (h : o.Under above m) (hm : m.path? ≠ none) :
    ∃ stack v, r.Stack start stack v ∧ r.Leaves v m ∧ above = r.trail stack := by
  induction h with
  | root =>
    obtain ⟨stack, v, hstack, hleaves, htrail⟩ := Stack.nil.exists_leaves ho
    exact ⟨stack, v, hstack, hleaves, htrail.symm⟩
  | @child above m c _ hc ih =>
    have hpath : m.path? ≠ none := by
      intro hnone
      rw [Output.children_eq_nil_of_path? hnone] at hc
      cases hc
    obtain ⟨stack, v, hstack, hleaves, rfl⟩ := ih hpath
    rcases hleaves.exists_call hc with ⟨s, rfl⟩ | ⟨route, w, hcall, hroute, hw⟩
    · exact absurd rfl hm
    · obtain ⟨stack', w', hstack', hleaves', htrail⟩ := (hstack.call hcall).exists_leaves hw
      refine ⟨stack', w', hstack', hleaves', ?_⟩
      rw [htrail, trail, trail, List.filterMap_append]
      cases route with
      | branch => exact absurd rfl hroute
      | child | repetition => simp [hleaves.visit]

/-! ### The bound -/

theorem Leaves.depth_lt (h : r.Leaves v o) (ho : o.IsExpanded) : v.depth < r.config.maxDepth := by
  obtain ⟨fault, rfl⟩ | ⟨e, he⟩ := h.cases
  · exact absurd ho id
  · exact he.depth

theorem isCutOff_of_le (h : r.config.maxDepth ≤ v.depth) (ho : r.visit v = some o) :
    o.IsCutOff := by
  rw [visit_eq] at ho
  by_cases hblank : v.node.Blank
  · rw [visitOnce_of_blank hblank] at ho
    cases ho
  · rw [visitOnce_of_le hblank h] at ho
    obtain rfl := Option.some.inj ho
    trivial

/-- **Rendering is bounded.** It is the one solution of its recursion, in which the depth is counted
up from the root and a visit asks for nothing but what it calls. Calls go deeper and come to an end:
at the greatest depth nothing is called, and all that is rendered is cut off. So an element or a
loop of the rendered tree has fewer nodes above it than the limit. -/
theorem recursion_bounded (r : Renderer) :
    (∀ tree context, r.render tree context = r.visit (.root tree context)) ∧
    (∀ f : Visit → Option Output, (∀ v, f v = r.visitOnce f v) ↔ f = r.visit) ∧
    (∀ (f g : Visit → Option Output) v, (∀ route w, r.Calls v route w → f w = g w) →
      r.visitOnce f v = r.visitOnce g v) ∧
    (WellFounded fun w v => ∃ route, r.Calls v route w) ∧
    (∀ v route w, r.Calls v route w → v.depth < w.depth) ∧
    (∀ v, r.config.maxDepth ≤ v.depth → (∀ route w, ¬ r.Calls v route w) ∧
      ∀ o, r.visit v = some o → o.IsCutOff) ∧
    ∀ tree context o, r.render tree context = some o →
      ∀ above m, o.Under above m → m.IsExpanded → above.length < r.config.maxDepth := by
  refine ⟨fun _ _ => rfl, fun f => eq_visitOnce_iff, fun f g v => visitOnce_congr,
    wellFounded_calls r, fun v route w hcall => ?_, fun v hdepth => ⟨fun route w hcall => ?_,
      fun o => isCutOff_of_le hdepth⟩, fun tree context o ho above m hm hexpanded => ?_⟩
  · rw [hcall.depth_eq]
    exact Nat.lt_succ_self _
  · exact absurd hcall.depth_lt (Nat.not_lt.2 hdepth)
  · have hpath : m.path? ≠ none := by
      cases m with
      | text | failure => exact absurd hexpanded id
      | element | loop => nofun
    have hroot : r.visit (.root tree context) = some o := ho
    obtain ⟨stack, v, hstack, hleaves, rfl⟩ := exists_stack_of_under hroot hm hpath
    -- every node above comes from an open visit, and each of these counts one level
    have hlength : (r.trail stack).length ≤ stack.length := List.length_filterMap_le _ _
    have hdepth : v.depth = 0 + stack.length := hstack.depth_eq
    have := hleaves.depth_lt hexpanded
    omega

/-- With three levels the cells of the page are rendered, with two nodes above each. -/
theorem recursion_bounded_threeLevelTree :
    let r := (Renderer.mk .standard []).withLimit 3
    ∃ o above m, r.render threeLevelTree twoRows = some o ∧ o.Under above m ∧ m.IsExpanded ∧
      above.length = 2 ∧ above.length < r.config.maxDepth := by
  intro r
  obtain ⟨o, ho⟩ : ∃ o, r.render threeLevelTree twoRows = some o := ⟨_, rfl⟩
  obtain ⟨rows, cell, hrows, hcell, hexpanded⟩ :
      ∃ rows cell, rows ∈ o.children ∧ cell ∈ rows.children ∧ cell.IsExpanded := by
    cases ho
    exact ⟨_, _, List.mem_cons_self, List.mem_cons_self, trivial⟩
  have hunder : o.Under [o, rows] cell := .child (.child .root hrows) hcell
  obtain ⟨-, -, -, -, -, -, hbound⟩ := recursion_bounded r
  exact ⟨o, _, cell, ho, hunder, hexpanded, rfl, hbound _ _ o ho _ cell hunder hexpanded⟩

end Renderer

end SchemaCanvas
