import SchemaCanvas.Proofs.Edit.Landing
import SchemaCanvas.Proofs.Render.Paths

/-!
# What a node has influence on

A node of the schema shows at its own path and below, if at all. Whatever stands in its place, be it
a node that fails or one that shows nothing, the rest of the rendered tree is the same: nothing
moves, and the nodes above keep what they are. Only a loop or a change for a surface on the way to
the node would carry it to other places.

* `Output.outside?` : a rendered tree without what lies at a path and below;
* `Renderer.outside?_renderNode` : a replaced node leaves no trace in it;
* `Renderer.outside?_render` : so the nodes at all other paths are the same.
-/

namespace SchemaCanvas

namespace Output

/-! ### What lies outside -/

mutual

/-- A tree without the nodes at a path and below it. -/
def outside? (p : Path) : Output → Option Output
  | text s => some (text s)
  | element ⟨id, type, originalType, key, own, props, children, link⟩ =>
    if p.isPrefixOf own then none
    else some (element ⟨id, type, originalType, key, own, props, outsideItems p children, link⟩)
  | loop id own repetitions =>
    if p.isPrefixOf own then none else some (loop id own (outsideRepetitions p repetitions))
  | failure id type own fault =>
    if p.isPrefixOf own then none else some (failure id type own fault)

/-- Those of a list of trees that are left. -/
def outsideItems (p : Path) : List Output → List Output
  | [] => []
  | o :: rest => (outside? p o).toList ++ outsideItems p rest

/-- Repetitions with what is left of their bodies. -/
def outsideRepetitions (p : Path) : List Repetition → List Repetition
  | [] => []
  | ⟨key, index, none⟩ :: rest => ⟨key, index, none⟩ :: outsideRepetitions p rest
  | ⟨key, index, some o⟩ :: rest => ⟨key, index, outside? p o⟩ :: outsideRepetitions p rest

end

/-- A node by itself, without the nodes below it. -/
def alone : Output → Output
  | text s => text s
  | element e => element { e with children := [] }
  | loop id path repetitions =>
    loop id path (repetitions.map fun repetition => { repetition with body := none })
  | failure id type path fault => failure id type path fault

theorem id?_alone (o : Output) : o.alone.id? = o.id? := by
  cases o <;> rfl

theorem outsideItems_eq (p : Path) (items : List Output) :
    outsideItems p items = items.filterMap (outside? p) := by
  induction items with
  | nil => rfl
  | cons o rest ih =>
    rw [outsideItems, ih, List.filterMap_cons]
    cases outside? p o <;> rfl

theorem outsideRepetitions_eq (p : Path) (repetitions : List Repetition) :
    outsideRepetitions p repetitions = repetitions.map fun repetition =>
      { repetition with body := repetition.body.bind (outside? p) } := by
  induction repetitions with
  | nil => rfl
  | cons repetition rest ih =>
    obtain ⟨key, index, body⟩ := repetition
    cases body <;> rw [outsideRepetitions, ih] <;> rfl

variable {o m : Output} {p q own : Path}

theorem outside?_element (e : OutputElement) (h : ¬ p <+: e.path) :
    (element e).outside? p =
      some (element { e with children := e.children.filterMap (outside? p) }) := by
  obtain ⟨_, _, _, _, own, _, _, _⟩ := e
  rw [outside?, outsideItems_eq, if_neg (mt List.isPrefixOf_iff_prefix.1 h)]

theorem outside?_eq_none (hown : o.path? = some own) (h : p <+: own) : o.outside? p = none := by
  have hstart := List.isPrefixOf_iff_prefix.2 h
  cases o with
  | text => cases hown
  | element e =>
    cases e
    cases hown
    exact if_pos hstart
  | loop | failure =>
    cases hown
    exact if_pos hstart

/-- What is left of any other tree: the node itself, and what is left of its children. -/
theorem exists_of_outside? (h : ∀ own, o.path? = some own → ¬ p <+: own) :
    ∃ rest, o.outside? p = some rest ∧ rest.alone = o.alone ∧ rest.path? = o.path? ∧
      rest.children = o.children.filterMap (outside? p) := by
  cases o with
  | text s => exact ⟨_, rfl, rfl, rfl, rfl⟩
  | element e => exact ⟨_, outside?_element e (h _ rfl), rfl, rfl, rfl⟩
  | loop id own repetitions =>
    refine ⟨_, if_neg (mt List.isPrefixOf_iff_prefix.1 (h _ rfl)), ?_, rfl, ?_⟩
    · rw [outsideRepetitions_eq, alone, List.map_map]
      rfl
    · simp only [children]
      rw [outsideRepetitions_eq, List.filterMap_map, List.filterMap_filterMap]
      rfl
  | failure id type own fault =>
    exact ⟨_, if_neg (mt List.isPrefixOf_iff_prefix.1 (h _ rfl)), rfl, rfl, rfl⟩

theorem findSome?_filterMap_outside? {items : List Output}
    (h : ∀ c ∈ items, ((c.outside? p).bind (findByPath? q)).map alone =
      (c.findByPath? q).map alone) :
    ((items.filterMap (outside? p)).findSome? (findByPath? q)).map alone =
      (items.findSome? (findByPath? q)).map alone := by
  induction items with
  | nil => rfl
  | cons c rest ih =>
    obtain ⟨hc, hrest⟩ := List.forall_mem_cons.1 h
    rw [List.filterMap_cons, List.findSome?_cons]
    cases hleft : c.outside? p with
    | none =>
      rw [hleft] at hc
      rw [Option.map_eq_none_iff.1 hc.symm]
      exact ih hrest
    | some left =>
      rw [hleft, Option.bind_some] at hc
      simp only [List.findSome?_cons]
      cases hfound : c.findByPath? q with
      | none =>
        rw [hfound] at hc
        rw [Option.map_eq_none_iff.1 hc]
        exact ih hrest
      | some m =>
        rw [hfound] at hc
        obtain ⟨m', hm', halone⟩ := Option.map_eq_some_iff.1 hc
        rw [hm']
        exact congrArg some halone

/-- At a path that does not start with `p` there is the same node, whether or not what starts with
`p` has been left out. -/
theorem findByPath?_outside? (h : ¬ p <+: q) :
    ((o.outside? p).bind (findByPath? q)).map alone = (o.findByPath? q).map alone := by
  induction o using Output.induction with
  | step o ih =>
    by_cases hout : ∃ own, o.path? = some own ∧ p <+: own
    · -- nothing is left of the node, and the search does not enter it
      obtain ⟨own, hown, hstart⟩ := hout
      have hne : own ≠ q := fun heq => h (heq ▸ hstart)
      have hway : ¬ own.isPrefixOf q := fun hq =>
        h (hstart.trans (List.isPrefixOf_iff_prefix.1 hq))
      rw [outside?_eq_none hown hstart, findByPath?_eq, hown, Option.bind_some, if_neg hne,
        if_neg hway]
      rfl
    · have hout : ∀ own, o.path? = some own → ¬ p <+: own := fun own hown hstart =>
        hout ⟨own, hown, hstart⟩
      obtain ⟨rest, hrest, halone, hpath, hchildren⟩ := exists_of_outside? hout
      rw [hrest, Option.bind_some, findByPath?_eq, findByPath?_eq q o, hpath, hchildren]
      cases o.path? with
      | none => rfl
      | some own =>
        simp only [Option.bind_some]
        split_ifs
        · exact congrArg some halone
        · exact findSome?_filterMap_outside? ih
        · rfl

end Output

/-- On the way to a path nothing is repeated and nothing changed for a surface. -/
def Node.Unmoved (tree : Node) (p : Path) : Prop :=
  ∀ q a, q <+: p → q ≠ p → tree.get? q = some a → a.element.loop = none ∧ a.element.platform = none

theorem Node.Unmoved.below {tree c : Node} {i : Nat} {p : Path} (h : tree.Unmoved (i :: p))
    (hc : tree.child? i = some c) : c.Unmoved p := by
  intro q a hq hne ha
  refine h (i :: q) a (List.cons_prefix_cons.2 ⟨rfl, hq⟩) (by simpa using hne) ?_
  rw [Node.get?, hc, Option.bind_some, ha]

namespace Renderer

variable (r : Renderer) {levels : Nat} {frame : RenderFrame} {tree new n m c : Node} {p : Path}

/-! ### Replacing a node -/

theorem outside?_renderNode_self (frame : RenderFrame) (n : Node) :
    (r.renderNode levels frame n).bind (Output.outside? frame.path) = none := by
  cases ho : r.renderNode levels frame n with
  | none => rfl
  | some o => exact Output.outside?_eq_none (placed_of_renderNode ho).1 List.prefix_rfl

theorem filterMap_renderItems_set (inner : RenderFrame → Node → Option Output)
    {items : List ChildItem} {i : Nat} {changed : Node} (hc : items[i]? = some (.node c))
    (left : Output → Option Output)
    (h : (inner (frame.below i) c).bind left = (inner (frame.below i) changed).bind left) :
    (r.renderItems inner frame items).filterMap left =
      (r.renderItems inner frame (items.set i (.node changed))).filterMap left := by
  have hi : i < items.length := (List.getElem?_eq_some_iff.1 hc).1
  let entry (j : Nat) (item : ChildItem) := r.renderItem inner (frame.below j) item
  have hentries : (items.mapIdx entry).map (fun o? => o?.bind left) =
      ((items.set i (.node changed)).mapIdx entry).map (fun o? => o?.bind left) := by
    refine List.ext_getElem? fun j => ?_
    simp only [List.getElem?_map, List.getElem?_mapIdx]
    by_cases hij : i = j
    · subst hij
      rw [hc, List.getElem?_set_self hi]
      exact congrArg some h
    · rw [List.getElem?_set_ne hij]
  unfold renderItems
  rw [List.filterMap_filterMap, List.filterMap_filterMap]
  have hleft := congrArg (List.filterMap id) hentries
  rwa [List.filterMap_map, List.filterMap_map] at hleft

/-- Where an element that is not repeated has one of its children replaced, what is left is the same
outside the place of that child, if it is the same of the child. -/
theorem outside?_renderElement {inner : RenderFrame → Node → Option Output} {i : Nat}
    {changed : Node} (frame : RenderFrame) (hloop : tree.element.loop = none)
    (hc : tree.child? i = some c)
    (h : (inner (frame.below i) c).bind (Output.outside? (frame.path ++ i :: p)) =
      (inner (frame.below i) changed).bind (Output.outside? (frame.path ++ i :: p))) :
    (r.renderElement inner frame tree.id tree.element).bind
        (Output.outside? (frame.path ++ i :: p)) =
      (r.renderElement inner frame tree.id (tree.setItem i (.node changed)).element).bind
        (Output.outside? (frame.path ++ i :: p)) := by
  have hbranch : (tree.setItem i (.node changed)).element.branch frame.context r.transforms =
      tree.element.branch frame.context r.transforms := rfl
  have hloop' : (tree.setItem i (.node changed)).element.loop = none := hloop
  unfold renderElement
  rw [hbranch]
  cases tree.element.branch frame.context r.transforms with
  | nothing => rfl
  | node b => rfl
  | self =>
    have hshorter : ¬ frame.path ++ i :: p <+: frame.path := by
      intro hstart
      have hle := hstart.length_le
      rw [List.length_append, List.length_cons] at hle
      omega
    have hitems := r.filterMap_renderItems_set inner (Node.getElem?_of_child? hc) _ h
    simp only [hloop, hloop', Option.bind_some]
    rw [Output.outside?_element _ hshorter, Output.outside?_element _ hshorter]
    exact congrArg (fun children => some (Output.element { renderPlain r inner frame tree.id
      tree.element with children })) hitems

/-- **A replaced node leaves no trace outside its path.** -/
theorem outside?_renderNode (hm : tree.get? p = some m) (hway : tree.Unmoved p)
    (hnew : tree.modify? (fun _ => n) p = some new) :
    (r.renderNode levels frame tree).bind (Output.outside? (frame.path ++ p)) =
      (r.renderNode levels frame new).bind (Output.outside? (frame.path ++ p)) := by
  -- along the path: one child is another one, and everything else is rendered from the same
  induction p generalizing tree new levels frame with
  | nil => rw [List.append_nil, outside?_renderNode_self, outside?_renderNode_self]
  | cons i p ih =>
    obtain ⟨c, changed, hc, hchanged, rfl⟩ := Node.modify?_cons_eq_some_iff.1 hnew
    obtain ⟨hloop, hplatform⟩ := hway [] tree List.nil_prefix (by simp) rfl
    rw [Node.get?, hc] at hm
    by_cases hblank : tree.Blank
    · rw [renderNode_of_blank hblank, renderNode_of_blank (n := tree.setItem _ _) hblank]
    cases levels with
    | zero =>
      rw [renderNode_zero hblank, renderNode_zero (n := tree.setItem _ _) hblank]
      rfl
    | succ levels =>
      rw [renderNode_succ hblank, renderNode_succ (n := tree.setItem _ _) hblank,
        Element.onSurface_of_platform hplatform,
        Element.onSurface_of_platform (e := (tree.setItem _ _).element) hplatform]
      refine r.outside?_renderElement (frame.inside tree) hloop hc ?_
      have hpath : frame.path ++ i :: p = ((frame.inside tree).below i).path ++ p := by
        simp [RenderFrame.below, RenderFrame.inside]
      rw [show (frame.inside tree).path = frame.path from rfl, hpath]
      exact ih hm (hway.below hc) hchanged

/-- **Whatever stands at a path, the rest of the rendered tree is the same.** The node at a path is
replaced by any other node, and nothing above it is repeated or changed for a surface. Then the two
rendered trees are the same without what lies at that path and below, texts included, and at every
other path they have the same node or none: with the same id, type, key, props, link and fault. -/
theorem outside?_render {tree : Node} {p : Path} {m : Node} (hm : tree.get? p = some m)
    (hway : ∀ q a, q <+: p → q ≠ p → tree.get? q = some a →
      a.element.loop = none ∧ a.element.platform = none) (n : Node) (context : Json) :
    ∃ new, tree.modify? (fun _ => n) p = some new ∧ new.get? p = some n ∧
      (r.render tree context).bind (Output.outside? p) =
        (r.render new context).bind (Output.outside? p) ∧
      ∀ q, ¬ p <+: q →
        ((r.render tree context).bind (Output.findByPath? q)).map Output.alone =
          ((r.render new context).bind (Output.findByPath? q)).map Output.alone := by
  obtain ⟨new, hnew⟩ : ∃ new, tree.modify? (fun _ => n) p = some new := by
    refine Option.isSome_iff_exists.1 ?_
    rw [Node.isSome_modify?, hm]
    rfl
  have hget : new.get? p = some n := by rw [Node.get?_of_modify? hnew, hm]; rfl
  have houtside : (r.render tree context).bind (Output.outside? p) =
      (r.render new context).bind (Output.outside? p) :=
    r.outside?_renderNode hm hway hnew
  refine ⟨new, hnew, hget, houtside, fun q hq => ?_⟩
  have hfound (o? : Option Output) : (o?.bind (Output.findByPath? q)).map Output.alone =
      ((o?.bind (Output.outside? p)).bind (Output.findByPath? q)).map Output.alone := by
    cases o? with
    | none => rfl
    | some o => exact (Output.findByPath?_outside? hq).symm
  rw [hfound, houtside, ← hfound]

/-- A component with a title and a part that is shown under a condition, in which a picture stands
before a note. -/
def picturePage : Node :=
  let picture : Element := { id := "picture", type := "image" }
  let note : Element := { id := "note", type := "p" }
  let rule : Element := { id := "rule", type := "divider" }
  let part : Element :=
    { id := "part", type := "div", condition := some (.literal (.bool true)),
      children := some [.node { element := picture }, .node { element := note }],
      otherwise := some (.node { element := rule }) }
  let page : Element :=
    { id := "body", type := "div", children := some [.text "Pictures", .node { element := part }] }
  { component := some { id := "page", data := some (.obj []) }, element := page }

/-- A node that cannot be shown on the web. -/
def notForWeb : Node where
  element := { id := "film", type := "div", platform := some [("web", .null)] }

theorem outside?_render_picturePage :
    let r : Renderer := ⟨{ RenderConfig.standard with platform := some "web" }, []⟩
    (∃ m, picturePage.get? [1, 0] = some m) ∧
    (∀ q a, q <+: [1, 0] → q ≠ [1, 0] → picturePage.get? q = some a →
      a.element.loop = none ∧ a.element.platform = none) ∧
    ∃ new o note, picturePage.modify? (fun _ => notForWeb) [1, 0] = some new ∧
      r.render new .null = some o ∧
      o.findByPath? [1, 0] = some (.failure "film" "div" [1, 0] (.platform (.notObject .null))) ∧
      o.findByPath? [1, 1] = some note ∧ note.id? = some "note" := by
  intro r
  have hm : picturePage.get? [1, 0] =
      some { element := { id := "picture", type := "image" } } := rfl
  have hway : ∀ q a, q <+: [1, 0] → q ≠ [1, 0] → picturePage.get? q = some a →
      a.element.loop = none ∧ a.element.platform = none := by
    intro q a hq hne ha
    simp only [List.prefix_cons_iff, List.prefix_nil] at hq
    rcases hq with rfl | ⟨_, rfl, rfl | ⟨_, rfl, rfl⟩⟩
    · cases ha
      exact ⟨rfl, rfl⟩
    · cases ha
      exact ⟨rfl, rfl⟩
    · exact absurd rfl hne
  refine ⟨⟨_, hm⟩, hway, ?_⟩
  obtain ⟨new, hnew, -, -, hsame⟩ := r.outside?_render hm hway notForWeb .null
  obtain ⟨o, ho⟩ : ∃ o, r.render new .null = some o := by
    cases hnew
    exact ⟨_, rfl⟩
  have hfailure : o.findByPath? [1, 0] =
      some (.failure "film" "div" [1, 0] (.platform (.notObject .null))) := by
    cases hnew
    cases ho
    rfl
  -- the note is found as before, behind the node that fails
  have hnote : ((o.findByPath? [1, 1]).map Output.alone).bind Output.id? = some "note" := by
    have hbefore := hsame [1, 1] (by decide)
    rw [ho, Option.bind_some] at hbefore
    rw [← hbefore]
    rfl
  obtain ⟨alone, halone, hid⟩ := Option.bind_eq_some_iff.1 hnote
  obtain ⟨note, hnote, rfl⟩ := Option.map_eq_some_iff.1 halone
  exact ⟨new, o, note, hnew, ho, hfailure, hnote, note.id?_alone ▸ hid⟩

end Renderer

end SchemaCanvas
