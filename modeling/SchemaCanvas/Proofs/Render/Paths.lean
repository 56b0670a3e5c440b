import SchemaCanvas.Proofs.Render.Outcome
import SchemaCanvas.Proofs.Render.Placement
import Mathlib.Data.List.Induction

/-!
# The paths of a rendered tree

A node is rendered at the path that it is given, also where its `else` branch stands in for it, and
gives every child its position in the list of children, every repetition its position in the loop.
Entries that render nothing leave gaps and shift nothing. So a rendered tree has its nodes in their
places, whatever the schema, the context and the settings are.

* `Renderer.placed_of_renderNode` : one node and everything below it;
* `Renderer.paths_render` : a whole tree.
-/

namespace SchemaCanvas

namespace Output

variable {o : Output} {p : Path}

theorem placed_iff : o.Placed ↔ o.ChildrenPlaced ∧ ∀ c ∈ o.children, c.Placed := by
  constructor
  · exact fun h => ⟨h o o.self_mem_nodes, fun c => h.children⟩
  · rintro ⟨hself, hchildren⟩ m hm
    rcases mem_nodes_iff.1 hm with rfl | ⟨c, hc, hmc⟩
    · exact hself
    · exact hchildren c hc m hmc

theorem placed_of_children_eq_nil (h : o.children = []) : o.Placed := by
  refine placed_iff.2 ⟨fun p _ => ⟨[], .nil, ?_⟩, ?_⟩
  · rw [h]
    rfl
  · rw [h]
    exact List.forall_mem_nil _

theorem exists_positions {entries : List (Option Output)}
    (h : ∀ i c q, entries[i]? = some (some c) → c.path? = some q → q = p ++ [i]) :
    ∃ ks : List Nat, ks.Pairwise (· < ·) ∧
      (entries.filterMap id).filterMap path? = ks.map fun k => p ++ [k] := by
  -- the last entry lies behind all others, so the induction goes from the end
  suffices hbound : ∃ ks : List Nat, ks.Pairwise (· < ·) ∧ (∀ k ∈ ks, k < entries.length) ∧
      (entries.filterMap id).filterMap path? = ks.map fun k => p ++ [k] by
    obtain ⟨ks, hks, -, heq⟩ := hbound
    exact ⟨ks, hks, heq⟩
  induction entries using List.reverseRecOn with
  | nil => exact ⟨[], .nil, List.forall_mem_nil _, rfl⟩
  | append_singleton entries entry ih =>
    have hrest : ∀ i c q, entries[i]? = some (some c) → c.path? = some q → q = p ++ [i] := by
      intro i c q hc
      obtain ⟨hi, -⟩ := List.getElem?_eq_some_iff.1 hc
      exact h i c q (by rw [List.getElem?_append_left hi, hc])
    obtain ⟨ks, hks, hlt, heq⟩ := ih hrest
    have hlonger : ∀ k ∈ ks, k < (entries ++ [entry]).length := fun k hk => by
      have := hlt k hk
      simp
      omega
    rw [List.filterMap_append, List.filterMap_append, heq]
    cases hq : entry.bind path? with
    | none =>
      -- nothing, or a text
      refine ⟨ks, hks, hlonger, ?_⟩
      cases entry with
      | none => simp
      | some c => simpa using hq
    | some q =>
      obtain ⟨c, rfl, hc⟩ := Option.bind_eq_some_iff.1 hq
      obtain rfl := h entries.length c q (by simp) hc
      refine ⟨ks ++ [entries.length], ?_, ?_, ?_⟩
      · refine List.pairwise_append.2 ⟨hks, List.pairwise_singleton .., fun k hk l hl => ?_⟩
        obtain rfl := List.mem_singleton.1 hl
        exact hlt k hk
      · refine List.forall_mem_append.2 ⟨hlonger, ?_⟩
        simp
      · simp [hc]

end Output

namespace Renderer

variable {r : Renderer} {frame : RenderFrame} {n : Node} {o : Output}

theorem placed_of_renderItem {inner : RenderFrame → Node → Option Output}
    (hinner : ∀ {frame n o}, inner frame n = some o → o.path? = some frame.path ∧ o.Placed)
    {item : ChildItem} (h : r.renderItem inner frame item = some o) :
    (∀ q, o.path? = some q → q = frame.path) ∧ o.Placed := by
  rcases cases_of_renderItem h with ⟨s, rfl⟩ | ⟨n, rfl, hn⟩
  · refine ⟨fun q hq => ?_, Output.placed_of_children_eq_nil rfl⟩
    cases hq
  · obtain ⟨hpath, hplaced⟩ := hinner hn
    exact ⟨fun q hq => Option.some.inj (hq.symm.trans hpath), hplaced⟩

/-- **A node is rendered at the path of its frame, with everything below it in place.** -/
theorem placed_of_renderNode {levels : Nat} (h : r.renderNode levels frame n = some o) :
    o.path? = some frame.path ∧ o.Placed := by
  induction levels generalizing frame n o with
  | zero =>
    cases renderNode_eq_some_iff.1 h with
    | tooDeep => exact ⟨rfl, Output.placed_of_children_eq_nil rfl⟩
  | succ levels ih =>
    cases renderNode_eq_some_iff.1 h with
    | misfit => exact ⟨rfl, Output.placed_of_children_eq_nil rfl⟩
    | branch _ _ _ hb =>
      -- the branch is rendered at the path of the element
      show o.path? = some (frame.inside n).path ∧ o.Placed
      exact ih hb
    | @loop _ _ _ e l =>
      let repetitions := r.renderLoop (r.renderNode levels) (frame.inside n) n.id e l
      have hbody : ∀ i c, (repetitions.map Repetition.body)[i]? = some (some c) →
          c.path? = some (frame.path ++ [i]) ∧ c.Placed := by
        intro i c hc
        rw [List.getElem?_map] at hc
        obtain ⟨repetition, hrepetition, hc⟩ := Option.map_eq_some_iff.1 hc
        obtain ⟨context, hbody⟩ := exists_of_mem_renderLoop hrepetition
        exact ih (hbody.symm.trans hc)
      refine ⟨rfl, Output.placed_iff.2 ⟨?_, ?_⟩⟩
      · rintro p ⟨⟩
        obtain ⟨ks, hks, heq⟩ := Output.exists_positions fun i c q hc hq =>
          Option.some.inj (hq.symm.trans (hbody i c hc).1)
        refine ⟨ks, hks, ?_⟩
        rw [← heq, List.filterMap_map]
        rfl
      · intro c hc
        obtain ⟨repetition, hmem, hc⟩ := List.mem_filterMap.1 hc
        obtain ⟨i, hi⟩ := List.getElem?_of_mem hmem
        exact (hbody i c (by rw [List.getElem?_map, hi, Option.map_some, hc])).2
    | plain =>
      refine ⟨rfl, Output.placed_iff.2 ⟨?_, ?_⟩⟩
      · rintro p ⟨⟩
        refine Output.exists_positions fun i c q hc hq => ?_
        rw [List.getElem?_mapIdx] at hc
        obtain ⟨item, -, hc⟩ := Option.map_eq_some_iff.1 hc
        exact (placed_of_renderItem ih hc).1 q hq
      · intro c hc
        obtain ⟨i, item, -, hc⟩ := mem_renderItems_iff.1 hc
        exact (placed_of_renderItem ih hc).2

/-- **The paths of a rendered tree.** The root has the empty path. The children of a node with a
path have that path and one position more, in increasing order. So no path occurs twice, on the way
to a node there is a node everywhere, and the search for a path finds the one node that has it. -/
theorem paths_render {tree : Node} {context : Json} (h : r.render tree context = some o) :
    o.path? = some [] ∧
    (∀ m ∈ o.nodes, ∀ p, m.path? = some p → ∃ ks : List Nat, ks.Pairwise (· < ·) ∧
      m.children.filterMap Output.path? = ks.map fun k => p ++ [k]) ∧
    o.paths.Nodup ∧
    (∀ p ∈ o.paths, ∀ q, q <+: p → q ∈ o.paths) ∧
    ∀ q m, o.findByPath? q = some m ↔ m ∈ o.nodes ∧ m.path? = some q := by
  obtain ⟨hroot, hplaced⟩ := placed_of_renderNode h
  refine ⟨hroot, hplaced, hplaced.nodup_paths, fun p hp q hq => ?_, fun q m => ?_⟩
  · exact hplaced.mem_paths_of_prefix hroot hp List.nil_prefix hq
  · exact hplaced.findByPath?_eq_some_iff

/-- A list with a title, an entry that is left out, a row for every item and a closing note. -/
def gapTree : Node :=
  let row : Element :=
    { id := "row", type := "li", loop := some { source := .path "xs", item := "x" } }
  let note : Element := { id := "note", type := "p" }
  let last : Element :=
    { id := "end", type := "li", condition := some (.literal (.bool false)),
      otherwise := some (.node { element := note }) }
  let items := [.text "Rows", .other .null, .node { element := row }, .node { element := last }]
  { element := { id := "list", type := "ul", children := some items } }

/-- A context in which the list has two items. -/
def gapContext : Json := .obj [("xs", .arr [.str "a", .str "b"])]

theorem paths_render_gapTree :
    ∃ o, (Renderer.mk .standard []).render gapTree gapContext = some o ∧
      o.path? = some [] ∧ o.paths = [[], [2], [2, 0], [2, 1], [3]] ∧ o.paths.Nodup ∧
      (∀ p ∈ o.paths, ∀ q, q <+: p → q ∈ o.paths) ∧
      ∃ m ∈ o.nodes, m.path? = some [2, 1] ∧ o.findByPath? [2, 1] = some m := by
  obtain ⟨o, ho⟩ : ∃ o, (Renderer.mk .standard []).render gapTree gapContext = some o := ⟨_, rfl⟩
  obtain ⟨hroot, -, hnodup, hprefix, hfind⟩ := paths_render ho
  have hpaths : o.paths = [[], [2], [2, 0], [2, 1], [3]] := by
    cases ho
    rfl
  obtain ⟨m, hm, hpath⟩ := Output.mem_paths_iff.1 (show [2, 1] ∈ o.paths by simp [hpaths])
  exact ⟨o, ho, hroot, hpaths, hnodup, hprefix, m, hm, hpath, (hfind _ _).2 ⟨hm, hpath⟩⟩

end Renderer

end SchemaCanvas
