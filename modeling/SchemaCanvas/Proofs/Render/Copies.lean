import SchemaCanvas.Proofs.Render.Outcome
import SchemaCanvas.Proofs.Render.Placement
import SchemaCanvas.Proofs.Schema.Alike

/-!
# Rendering a copy

Ids have no influence on what is shown. They are carried over to the rendered nodes, and a
repetition without a key of its own gets one that is made of the id of the loop; everything else is
rendered from what a copy with new ids has in common with its original.

* `Output.Alike` : rendered trees that are the same but for ids and keys made of them;
* `Renderer.renderNode_alike` : alike nodes are rendered alike;
* `Renderer.render_renewIds` : a copy is rendered like its original.
-/

namespace SchemaCanvas

/-! ### Alike rendered trees -/

/-- The key of a repetition for which none is given. -/
def Loop.defaultKey (id : String) (i : Nat) : String := id ++ "-" ++ toString i

/-- Repetitions of two loops with the same index, and with keys that are the same or both made of
the id of the loop. -/
structure Repetition.SameLabel (id id' : String) (repetition repetition' : Repetition) : Prop where
  index : repetition.index = repetition'.index
  key : ∃ given : Option String,
    repetition.key = given.getD (Loop.defaultKey id repetition.index) ∧
    repetition'.key = given.getD (Loop.defaultKey id' repetition'.index)

/-- Rendered trees that are the same but for ids and for keys that are made of them. -/
inductive Output.Alike : Output → Output → Prop
  | text (s : String) : Alike (.text s) (.text s)
  | element {e e' : OutputElement}
      (own : { e with id := "", children := [] } = { e' with id := "", children := [] })
      (children : List.Forall₂ Alike e.children e'.children) : Alike (.element e) (.element e')
  | loop {id id' : String} {path : Path} {repetitions repetitions' : List Repetition}
      (labels : List.Forall₂ (Repetition.SameLabel id id') repetitions repetitions')
      (bodies : List.Forall₂ (Option.Rel Alike) (repetitions.map Repetition.body)
        (repetitions'.map Repetition.body)) :
      Alike (.loop id path repetitions) (.loop id' path repetitions')
  | failure (id id' type : String) (path : Path) (fault : RenderFault) :
      Alike (.failure id type path fault) (.failure id' type path fault)

theorem flatMap_eq_of_forall₂ {α β γ : Type} {R : α → β → Prop} {l : List α} {l' : List β}
    {f : α → List γ} {g : β → List γ} (h : List.Forall₂ R l l')
    (hfg : ∀ a ∈ l, ∀ b, R a b → f a = g b) : l.flatMap f = l'.flatMap g := by
  induction h with
  | nil => rfl
  | cons hfirst _ ih =>
    obtain ⟨hf, hrest⟩ := List.forall_mem_cons.1 hfg
    rw [List.flatMap_cons, List.flatMap_cons, hf _ hfirst, ih hrest]

namespace Output.Alike

variable {o o' : Output}

theorem ownText_eq (h : o.Alike o') : o.ownText = o'.ownText := by
  cases h <;> rfl

theorem forall₂_children (h : o.Alike o') : List.Forall₂ Alike o.children o'.children := by
  cases h with
  | text | failure => exact .nil
  | element _ children => exact children
  | @loop _ _ _ repetitions repetitions' _ bodies =>
    have hbodies : List.Forall₂ Alike ((repetitions.map Repetition.body).filterMap id)
        ((repetitions'.map Repetition.body).filterMap id) :=
      List.rel_filterMap (fun _ _ h => h) bodies
    rwa [List.filterMap_map, List.filterMap_map] at hbodies

theorem map_ownText_eq (h : o.Alike o') : o.nodes.map ownText = o'.nodes.map ownText := by
  induction o using Output.induction generalizing o' with
  | step o ih =>
    have hbelow := flatMap_eq_of_forall₂ h.forall₂_children fun c hc _ => ih c hc
    rw [nodes_eq, nodes_eq o', List.map_cons, List.map_cons, List.map_flatMap, List.map_flatMap,
      h.ownText_eq, hbelow]

theorem textContent_eq (h : o.Alike o') : o.textContent = o'.textContent :=
  congrArg String.join h.map_ownText_eq

end Output.Alike

/-! ### What alike pieces have in common -/

/-- What is shown in the place of an element, with every id taken away. -/
def Branch.withoutIds : Branch → Branch
  | self => self
  | node n => node n.withoutIds
  | nothing => nothing

theorem ElseBranch.branch_map_withoutIds (b : Option ElseBranch) :
    branch (b.map withoutIds) = (branch b).withoutIds := by
  rcases b with _ | _ | _ <;> rfl

/-- An entry and one that is alike are the same, or both are nodes. -/
theorem ChildItem.cases_of_withoutIds_eq {item item' : ChildItem}
    (h : item.withoutIds = item'.withoutIds) :
    item = item' ∨ ∃ n n', item = .node n ∧ item' = .node n' ∧ n.withoutIds = n'.withoutIds := by
  cases item with
  | node n =>
    cases item' with
    | node n' => exact .inr ⟨n, n', rfl, rfl, ChildItem.node.inj h⟩
    | text | ref | other => cases h
  | text | ref | other =>
    cases item' with
    | node n' => cases h
    | text | ref | other => exact .inl h

namespace Element

variable {e e' : Element}

theorem branch_alike (h : e.withoutIds = e'.withoutIds) (context : Json) (transforms : Transforms) :
    (e.branch context transforms).withoutIds = (e'.branch context transforms).withoutIds := by
  obtain ⟨-, -, -, hif, helseIf, helse, -⟩ := withoutIds_eq_iff.1 h
  have hbranch : (ElseBranch.branch e.otherwise).withoutIds =
      (ElseBranch.branch e'.otherwise).withoutIds := by
    rw [← ElseBranch.branch_map_withoutIds, helse, ElseBranch.branch_map_withoutIds]
  unfold branch
  rw [hif, helseIf]
  split
  · rfl
  · split_ifs
    · rfl
    · rfl
    · exact hbranch

theorem items_alike (h : e.withoutIds = e'.withoutIds) :
    e.items.map ChildItem.withoutIds = e'.items.map ChildItem.withoutIds := by
  obtain ⟨-, -, hchildren, -⟩ := withoutIds_eq_iff.1 h
  have hitems (e : Element) : e.items.map ChildItem.withoutIds =
      (e.children.map (List.map ChildItem.withoutIds)).getD [] := by
    rw [items]
    cases e.children <;> rfl
  rw [hitems, hitems, hchildren]

theorem forall₂_items (h : e.withoutIds = e'.withoutIds) :
    List.Forall₂ (fun item item' => item.withoutIds = item'.withoutIds) e.items e'.items := by
  have hitems := items_alike h
  rwa [← List.forall₂_eq_eq_eq, List.forall₂_map_left_iff, List.forall₂_map_right_iff] at hitems

theorem loopBody_alike (h : e.withoutIds = e'.withoutIds) (id id' : String) :
    (e.loopBody id).withoutIds = (e'.loopBody id').withoutIds := by
  obtain ⟨htype, hprops, hchildren, -, -, -, -, hkey, hlink, hplatform⟩ := withoutIds_eq_iff.1 h
  have hself : ({ e with id := id, loop := none, condition := none, elseIf := none,
                         otherwise := none } : Element).withoutIds =
      ({ e' with id := id', loop := none, condition := none, elseIf := none,
                 otherwise := none } : Element).withoutIds :=
    withoutIds_eq_iff.2 ⟨htype, hprops, hchildren, rfl, rfl, rfl, rfl, hkey, hlink, hplatform⟩
  have hbody : ({ element := { e with id := id, loop := none, condition := none, elseIf := none,
                                      otherwise := none } } : Node).withoutIds =
      ({ element := { e' with id := id', loop := none, condition := none, elseIf := none,
                              otherwise := none } } : Node).withoutIds := by
    rw [Node.withoutIds_eq, Node.withoutIds_eq]
    exact congrArg (Node.mk none) hself
  have hitems := forall₂_items h
  unfold loopBody
  generalize e.items = items at hitems ⊢
  generalize e'.items = items' at hitems ⊢
  cases hitems with
  | nil => exact hbody
  | @cons item item' _ _ hitem hrest =>
    cases hrest with
    | cons => cases item <;> cases item' <;> exact hbody
    | nil =>
      rcases ChildItem.cases_of_withoutIds_eq hitem with rfl | ⟨n, n', rfl, rfl, hn⟩
      · cases item with
        | node n => rfl
        | text | ref | other => exact hbody
      · exact hn

end Element

namespace Node

variable {n n' : Node}

theorem element_alike (h : n.withoutIds = n'.withoutIds) :
    n.element.withoutIds = n'.element.withoutIds := by
  rw [n.withoutIds_eq, n'.withoutIds_eq] at h
  exact congrArg Node.element h

theorem type_alike (h : n.withoutIds = n'.withoutIds) : n.type = n'.type :=
  (Element.withoutIds_eq_iff.1 (element_alike h)).1

theorem context_alike (h : n.withoutIds = n'.withoutIds) (context : Json) :
    n.context context = n'.context context := by
  have hcontext (n : Node) : n.withoutIds.context context = n.context context := by
    rw [withoutIds_eq, Node.context, Node.context]
    cases n.component <;> rfl
  rw [← hcontext, h, hcontext]

end Node

/-! ### One level -/

theorem forall₂_mapIdx {α α' β β' : Type} {R : α → α' → Prop} {S : β → β' → Prop} {l : List α}
    {l' : List α'} {f : Nat → α → β} {g : Nat → α' → β'} (h : List.Forall₂ R l l')
    (hfg : ∀ i a a', R a a' → S (f i a) (g i a')) :
    List.Forall₂ S (l.mapIdx f) (l'.mapIdx g) := by
  induction h generalizing f g with
  | nil => exact .nil
  | cons hfirst _ ih =>
    rw [List.mapIdx_cons, List.mapIdx_cons]
    exact .cons (hfg 0 _ _ hfirst) (ih fun i => hfg (i + 1))

/-- The key of a repetition that is given by the loop or the element. -/
theorem Loop.exists_given (l : Loop) (key : Option PropValue) (context : Json)
    (transforms : Transforms) (i : Nat) : ∃ given : Option String, ∀ id,
      l.itemKey key id context transforms i = given.getD (defaultKey id i) :=
  ⟨_, fun _ => rfl⟩

namespace Renderer

variable (r : Renderer)

/-- Alike nodes are rendered alike in every frame. -/
def RendersAlike (inner : RenderFrame → Node → Option Output) : Prop :=
  ∀ frame (n n' : Node), n.withoutIds = n'.withoutIds →
    Option.Rel Output.Alike (inner frame n) (inner frame n')

section

variable {r} {inner : RenderFrame → Node → Option Output} {e e' : Element}

theorem renderItem_alike (hinner : RendersAlike inner) (frame : RenderFrame)
    {item item' : ChildItem} (h : item.withoutIds = item'.withoutIds) :
    Option.Rel Output.Alike (r.renderItem inner frame item) (r.renderItem inner frame item') := by
  rcases ChildItem.cases_of_withoutIds_eq h with rfl | ⟨n, n', rfl, rfl, hn⟩
  · unfold renderItem
    split
    · exact .some (.text _)
    · exact .some (.text _)
    · exact hinner frame _ _ rfl
    · exact .some (.text _)
    · exact .some (.text _)
    · exact .none
  · exact hinner frame n n' hn

theorem renderItems_alike (hinner : RendersAlike inner) (frame : RenderFrame)
    (h : e.withoutIds = e'.withoutIds) :
    List.Forall₂ Output.Alike (r.renderItems inner frame e.items)
      (r.renderItems inner frame e'.items) := by
  have hitems := forall₂_mapIdx (Element.forall₂_items h) fun i _ _ hitem =>
    renderItem_alike (r := r) hinner (frame.below i) hitem
  exact List.rel_filterMap (fun _ _ h => h) hitems

theorem renderPlain_alike (hinner : RendersAlike inner) (frame : RenderFrame) (id id' : String)
    (h : e.withoutIds = e'.withoutIds) :
    Output.Alike (.element (r.renderPlain inner frame id e))
      (.element (r.renderPlain inner frame id' e')) := by
  obtain ⟨htype, hprops, -, -, -, -, -, hkey, hlink, -⟩ := Element.withoutIds_eq_iff.1 h
  refine .element ?_ (renderItems_alike hinner frame h)
  simp only [renderPlain, key?, props, htype, hprops, hkey, hlink]

theorem renderLoop_alike (hinner : RendersAlike inner) (frame : RenderFrame) (id id' : String)
    (l : Loop) (h : e.withoutIds = e'.withoutIds) :
    Output.Alike (.loop id frame.path (r.renderLoop inner frame id e l))
      (.loop id' frame.path (r.renderLoop inner frame id' e' l)) := by
  obtain ⟨-, -, -, -, -, -, -, hkey, -⟩ := Element.withoutIds_eq_iff.1 h
  unfold renderLoop
  split_ifs
  · exact .loop .nil .nil
  · cases l.items frame.context r.transforms with
    | error => exact .loop .nil .nil
    | ok items =>
      have hsame : List.Forall₂ (· = ·) items items := List.forall₂_same.2 fun _ _ => rfl
      refine .loop (forall₂_mapIdx hsame ?_) ?_
      · rintro i item _ rfl
        obtain ⟨given, hgiven⟩ := l.exists_given e.key (l.itemContext frame.context item i)
          r.transforms i
        refine ⟨rfl, given, hgiven id, ?_⟩
        rw [hkey] at hgiven
        exact hgiven id'
      · refine List.forall₂_map_left_iff.2 (List.forall₂_map_right_iff.2 (forall₂_mapIdx hsame ?_))
        rintro i item _ rfl
        exact hinner _ _ _ (Element.loopBody_alike h id id')

theorem renderElement_alike (hinner : RendersAlike inner) (frame : RenderFrame) (id id' : String)
    (h : e.withoutIds = e'.withoutIds) :
    Option.Rel Output.Alike (r.renderElement inner frame id e)
      (r.renderElement inner frame id' e') := by
  have hbranch := Element.branch_alike h frame.context r.transforms
  obtain ⟨-, -, -, -, -, -, hloop, -⟩ := Element.withoutIds_eq_iff.1 h
  unfold renderElement
  generalize e.branch frame.context r.transforms = b at hbranch ⊢
  generalize e'.branch frame.context r.transforms = b' at hbranch ⊢
  rw [hloop]
  cases b with
  | nothing =>
    cases b' with
    | nothing => exact .none
    | self | node => cases hbranch
  | node n =>
    cases b' with
    | node n' => exact hinner frame n n' (Branch.node.inj hbranch)
    | self | nothing => cases hbranch
  | self =>
    cases b' with
    | self =>
      cases e'.loop with
      | some l => exact .some (renderLoop_alike hinner frame id id' l h)
      | none => exact .some (renderPlain_alike hinner frame id id' h)
    | node | nothing => cases hbranch

end

/-! ### All levels -/

/-- Blank nodes need not be looked at, since nodes are blank together. -/
theorem rendersAlike_of_not_blank {levels : Nat}
    (h : ∀ frame (n n' : Node), n.withoutIds = n'.withoutIds → ¬ n.Blank → ¬ n'.Blank →
      Option.Rel Output.Alike (r.renderNode levels frame n) (r.renderNode levels frame n')) :
    RendersAlike (r.renderNode levels) := by
  intro frame n n' hn
  have hblank : n.Blank ↔ n'.Blank := by rw [Node.Blank, Node.Blank, Node.type_alike hn]
  by_cases hn' : n'.Blank
  · rw [renderNode_of_blank (hblank.2 hn'), renderNode_of_blank hn']
    exact .none
  · exact h frame n n' hn (mt hblank.1 hn') hn'

/-- **Alike nodes are rendered alike.** -/
theorem renderNode_alike (levels : Nat) : RendersAlike (r.renderNode levels) := by
  induction levels with
  | zero =>
    refine r.rendersAlike_of_not_blank fun frame n n' h hblank hblank' => ?_
    rw [renderNode_zero hblank, renderNode_zero hblank', Node.type_alike h]
    exact .some (.failure ..)
  | succ levels ih =>
    refine r.rendersAlike_of_not_blank fun frame n n' h hblank hblank' => ?_
    have hsurface := Element.map_onSurface_eq (Node.element_alike h) r.config.platform
    rw [renderNode_succ hblank, renderNode_succ hblank', Node.type_alike h, RenderFrame.inside,
      RenderFrame.inside, Node.context_alike h]
    generalize n.element.onSurface r.config.platform = shown at hsurface ⊢
    generalize n'.element.onSurface r.config.platform = shown' at hsurface ⊢
    cases shown with
    | error fault =>
      cases shown' with
      | ok => cases hsurface
      | error fault' =>
        obtain rfl : fault = fault' := Except.error.inj hsurface
        exact .some (.failure ..)
    | ok e =>
      cases shown' with
      | error => cases hsurface
      | ok e' => exact renderElement_alike ih _ n.id n'.id (Except.ok.inj hsurface)

/-- **A copy with new ids is rendered like its original,** in every context and with all settings:
either both give nothing, or both give trees that are the same but for ids and for keys made of
them. So the text that is shown is the same. -/
theorem render_renewIds (n : Node) (pool : IdPool) (context : Json) :
    Option.Rel Output.Alike (r.render n context) (r.render (n.renewIds pool).1 context) ∧
    (r.render n context).map Output.textContent =
      (r.render (n.renewIds pool).1 context).map Output.textContent := by
  have hcopy : n.withoutIds = (n.renewIds pool).1.withoutIds :=
    (Node.withoutIds_mapIds IdPool.renew n pool).symm
  have halike : Option.Rel Output.Alike (r.render n context)
      (r.render (n.renewIds pool).1 context) :=
    r.renderNode_alike r.config.maxDepth { context, sources := [], path := [] } _ _ hcopy
  refine ⟨halike, ?_⟩
  generalize r.render n context = o at halike ⊢
  generalize r.render (n.renewIds pool).1 context = o' at halike ⊢
  cases halike with
  | some h => exact congrArg some h.textContent_eq
  | none => rfl

end Renderer

end SchemaCanvas
