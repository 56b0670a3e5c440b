import SchemaCanvas.Proofs.Render.Calls

/-!
# Loops within loops

The body of a loop is rendered in a frame that lists the sources of all loops around it, and a loop
over a source of the list has no repetitions. That ends the repetition of an element in itself only
if the list gets lost on no way to a deeper node. Here it is compared with the calls that are open:
the loops whose bodies are being rendered can be read off the stack, and the list of a frame says
exactly that.

* `Renderer.Stack.sources_eq` : the sources of a frame are those of the open loops, in their order;
* `Renderer.Stack.nodup_sources` : none of them is listed twice;
* `Renderer.loops_not_reentered` : all loops of a rendered tree.
-/

namespace SchemaCanvas

namespace Renderer

/-- The loops whose bodies are being rendered, the outermost first. -/
def openLoops (stack : List (Visit × Route)) : List Loop :=
  stack.filterMap fun (_, way) => way.loop?

/-- What tells their sources apart. -/
def openSources (stack : List (Visit × Route)) : List String :=
  (openLoops stack).map fun l => l.source.identity

variable {r : Renderer} {start v w : Visit} {route : Route} {stack : List (Visit × Route)}

theorem openSources_append (stack stack' : List (Visit × Route)) :
    openSources (stack ++ stack') = openSources stack ++ openSources stack' := by
  simp [openSources, openLoops]

/-- On every way the sources are handed on, and the one of a loop is added for its body alone. -/
theorem Calls.sources_eq (h : r.Calls v route w) :
    w.frame.sources = v.frame.sources ++ openSources [(v, route)] := by
  cases h with
  | branch | child => exact (List.append_nil _).symm
  | repetition => rfl

theorem Calls.disjoint_openSources (h : r.Calls v route w) :
    v.frame.sources.Disjoint (openSources [(v, route)]) := by
  cases h with
  | branch | child => exact List.disjoint_nil_right _
  | repetition _ _ hsource => exact List.disjoint_singleton.2 hsource

theorem nodup_openSources_singleton (entry : Visit × Route) : (openSources [entry]).Nodup := by
  obtain ⟨v, _ | _ | _⟩ := entry
  · exact .nil
  · exact .nil
  · exact List.nodup_singleton _

/-- **The sources of a frame are those of the open loops.** -/
theorem Stack.sources_eq (h : r.Stack start stack v) :
    v.frame.sources = start.frame.sources ++ openSources stack := by
  induction h with
  | nil => exact (List.append_nil _).symm
  | call _ hcall ih => rw [hcall.sources_eq, ih, openSources_append, List.append_assoc]

theorem Stack.nodup_sources (h : r.Stack start stack v) (hstart : start.frame.sources.Nodup) :
    v.frame.sources.Nodup := by
  induction h with
  | nil => exact hstart
  | call _ hcall ih =>
    rw [hcall.sources_eq]
    exact List.nodup_append'.2 ⟨ih, nodup_openSources_singleton _, hcall.disjoint_openSources⟩

theorem renderLoop_of_mem {inner : RenderFrame → Node → Option Output} {frame : RenderFrame}
    {id : String} {e : Element} {l : Loop} (h : l.source.identity ∈ frame.sources) :
    r.renderLoop inner frame id e l = [] :=
  if_pos (List.contains_iff_mem.2 h)

/-- **A loop is refused inside a loop over the same source,** at any distance. Wherever a loop is
rendered, its frame lists the sources of the loops around it, each of them once, and a loop over one
of these has no repetitions. So every loop of a rendered tree that has repetitions comes from a
visit inside loops over other sources. -/
theorem loops_not_reentered (r : Renderer) (tree : Node) (context : Json) :
    (∀ stack v e l, r.Stack (.root tree context) stack v → r.Expands v e → e.loop = some l →
      v.inside.sources = openSources stack ∧ (openSources stack).Nodup ∧
      (l.source.identity ∈ openSources stack →
        r.visit v = some (.loop v.node.id v.frame.path []))) ∧
    ∀ o above id path repetitions, r.render tree context = some o →
      o.Under above (.loop id path repetitions) → repetitions ≠ [] →
      ∃ stack v e l, r.Stack (.root tree context) stack v ∧ r.Expands v e ∧ e.loop = some l ∧
        r.visit v = some (.loop id path repetitions) ∧ above = r.trail stack ∧
        ∀ outer ∈ openLoops stack, outer.source.identity ≠ l.source.identity := by
  have hsources {stack v} (h : r.Stack (.root tree context) stack v) :
      v.inside.sources = openSources stack := h.sources_eq
  have hrefused {stack v e l} (hstack : r.Stack (.root tree context) stack v)
      (he : r.Expands v e) (hloop : e.loop = some l)
      (hopen : l.source.identity ∈ openSources stack) :
      r.visit v = some (.loop v.node.id v.frame.path []) := by
    rw [visit_of_loop he hloop, renderLoop_of_mem (by rwa [hsources hstack])]
  constructor
  · intro stack v e l hstack he hloop
    have hnodup : v.inside.sources.Nodup := hstack.nodup_sources .nil
    rw [hsources hstack] at hnodup
    exact ⟨hsources hstack, hnodup, hrefused hstack he hloop⟩
  · intro o above id path repetitions ho hm hrepeats
    have hroot : r.visit (.root tree context) = some o := ho
    obtain ⟨stack, v, hstack, hleaves, rfl⟩ := exists_stack_of_under hroot hm nofun
    obtain ⟨fault, hfault⟩ | ⟨e, he⟩ := hleaves.cases
    · cases hfault
    cases hloop : e.loop with
    | none => cases hleaves.visit.symm.trans (visit_of_plain he hloop)
    | some l =>
      refine ⟨stack, v, e, l, hstack, he, hloop, hleaves.visit, rfl, fun outer houter heq => ?_⟩
      have hopen : l.source.identity ∈ openSources stack := List.mem_map.2 ⟨outer, houter, heq⟩
      cases hleaves.visit.symm.trans (hrefused hstack he hloop hopen)
      exact hrepeats rfl

/-- A card that would repeat the list in which it stands. -/
def repeatingCard : Node where
  component := some { id := "card" }
  element := { id := "again", type := "li", loop := some { source := .path " xs ", item := "y" } }

/-- A list with two rows for every item: one of text, and one in whose place the card stands. -/
def selfNestedTree : Node :=
  let part : Element :=
    { id := "part", type := "li", condition := some (.literal (.bool false)),
      otherwise := some (.node repeatingCard) }
  { element := {
      id := "list", type := "ul", loop := some { source := .path "xs", item := "x" },
      children := some [.text "row", .node { element := part }] } }

/-- A context with one item. -/
def oneItem : Json := .obj [("xs", .arr [.str "a"])]

/-- The card is three calls away from the list, and has no repetitions. -/
theorem loops_not_reentered_selfNestedTree :
    let r := Renderer.mk .standard []
    ∃ stack v e l, r.Stack (.root selfNestedTree oneItem) stack v ∧ r.Expands v e ∧
      e.loop = some l ∧ stack.length = 3 ∧ l.source.identity ∈ openSources stack ∧
      v.inside.sources = openSources stack ∧ (openSources stack).Nodup ∧
      r.visit v = some (.loop "card" [0, 1] []) := by
  intro r
  have hlist : r.Expands (.root selfNestedTree oneItem) selfNestedTree.element :=
    ⟨⟨by unfold Node.Blank; decide, by decide, rfl⟩, rfl⟩
  have hrow := Stack.nil.call (.repetition (i := 0) hlist rfl List.not_mem_nil rfl rfl)
  have hpart := hrow.call (.child (i := 1)
    ⟨⟨by unfold Node.Blank; decide, by decide, rfl⟩, rfl⟩ rfl rfl)
  have hcard := hpart.call (.branch ⟨by unfold Node.Blank; decide, by decide, rfl⟩ rfl)
  have hexpands {v : Visit} (hnode : v.node = repeatingCard) (hdepth : v.depth = 3) :
      r.Expands v repeatingCard.element := by
    refine ⟨⟨?_, by rw [hdepth]; decide, by rw [hnode]; rfl⟩, Element.branch_of_condition rfl _ _⟩
    rw [hnode, Node.Blank]
    decide
  obtain ⟨hlists, -⟩ := loops_not_reentered r selfNestedTree oneItem
  obtain ⟨hsources, hnodup, hrefused⟩ := hlists _ _ _ _ hcard (hexpands rfl rfl) rfl
  have hopen := List.mem_singleton_self "xs"
  exact ⟨_, _, _, _, hcard, hexpands rfl rfl, rfl, rfl, hopen, hsources, hnodup, hrefused hopen⟩

end Renderer

end SchemaCanvas
