import SchemaCanvas.Proofs.Ids.Kept
import SchemaCanvas.Proofs.Schema.Nesting
import SchemaCanvas.Proofs.Schema.Sorted

/-!
# Saving and loading

What has been loaded can be written and loaded again, and comes back as it is: everything in it is
settled and in order, and its ids are distinct. Only the depth of the text stands against it. A
child that is given without a list is written in one, so the written form can be nested twice as
deeply as the text that was loaded, and may be too deep to be read.

* `Schema.load_sorted_encode` : the written form of a loaded tree means this tree;
* `Schema.nesting_encode_le_of_parse` : how deeply it is nested at most;
* `Schema.parse_pretty` : what it is loaded as.
-/

namespace SchemaCanvas

namespace Schema

variable {next next' : Nat} {text : String} {tree : Node}

theorem parse_written {v : Json} (h : v.Readable) (next : Nat) :
    parse next v.pretty =
      if v.nesting ≤ Json.maxNesting then load next v.sorted
      else .error .notJson := by
  rw [parse, Json.read?_pretty h]
  split_ifs <;> rfl

theorem exists_of_parse (h : parse next text = .ok (tree, next')) :
    ∃ v source, Json.read? text = some v ∧ Node.ofJson v = .ok source ∧
      tree = (source.ensureIds next).1 := by
  rw [parse] at h
  cases hv : Json.read? text with
  | none => rw [hv] at h; cases h
  | some v =>
    rw [hv] at h
    change load next v = _ at h
    cases hsource : Node.ofJson v with
    | error fault => rw [load, hsource] at h; cases h
    | ok source =>
      rw [load, hsource] at h
      cases h
      exact ⟨v, source, rfl, hsource, rfl⟩

/-- A tree is loaded from its own value as it is, and no ids are drawn. -/
theorem load_toJson (hids : tree.HasDistinctIds) (hsettled : ∀ p ∈ tree.pieces, p.Settled)
    (next : Nat) : load next tree.toJson = .ok (tree, next) := by
  obtain ⟨htree, hnext⟩ := Node.ensureIds_eq_self hids next
  rw [load, Node.ofJson_toJson hsettled]
  simp only [htree, hnext]

/-- The written form of a loaded tree means a value from which the tree is loaded as it is. -/
theorem load_sorted_encode (h : parse next text = .ok (tree, next')) (m : Nat) :
    load m (Node.encode Json.obj tree).sorted = .ok (tree, m) := by
  obtain ⟨v, source, hv, hsource, rfl⟩ := exists_of_parse h
  -- the ids that loading has changed are no part of the pieces
  have hordered := readInvariant_ordered.forall_of_ofJson (Json.ordered_of_read? hv) hsource
  have hpieces := Node.pieces_ensureIds next source
  have hids := Node.hasDistinctIds_ensureIds next source
  rw [Node.sorted_encode _ (hpieces ▸ hordered)]
  exact load_toJson hids (hpieces ▸ Node.settled_of_ofJson hsource) m

/-- The written form of a loaded tree is nested at most twice as deeply as the text. -/
theorem nesting_encode_le_of_parse (h : parse next text = .ok (tree, next')) {d : Document}
    (hd : Document.read? text = some d) : (Node.encode Json.obj tree).nesting ≤ 2 * d.nesting := by
  obtain ⟨v, source, hv, hsource, rfl⟩ := exists_of_parse h
  obtain ⟨d', hd', hvalue⟩ := Json.exists_of_read? hv
  obtain rfl := Option.some.inj (hd.symm.trans hd')
  calc (Node.encode Json.obj (source.ensureIds next).1).nesting
      = (Node.encode Json.obj source).nesting := Node.nesting_encode_mapIds _ source _
    _ ≤ 2 * v.nesting := Node.nesting_encode_le hsource
    _ ≤ 2 * d.nesting := Nat.mul_le_mul_left 2 (d.nesting_le_of_value? hvalue)

/-- **A tree that has been loaded from a text can be saved and loaded again, as it is and with the
same ids, if and only if its written form is not nested too deeply.** The written form can be nested
twice as deeply as the text, but not more. The numbers in the tree must be read back as they are
written. -/
theorem parse_pretty (h : parse next text = .ok (tree, next'))
    (hnumbers : (Node.encode Json.obj tree).Readable) (m : Nat) :
    (parse m tree.pretty =
      if (Node.encode Json.obj tree).nesting ≤ Json.maxNesting then .ok (tree, m)
      else .error .notJson) ∧
    ∀ d, Document.read? text = some d → (Node.encode Json.obj tree).nesting ≤ 2 * d.nesting := by
  refine ⟨?_, fun d => nesting_encode_le_of_parse h⟩
  rw [Node.pretty, parse_written hnumbers, load_sorted_encode h]

/-- A page with a paragraph that is not in a list. -/
def sizedPage : Json :=
  .obj [("children", .obj [("id", .str "p"), ("props", .obj [("size", .num (.int 3 (by decide)))]),
    ("type", .str "p")]), ("id", .str "page"), ("type", .str "div")]

/-- The tree of the page. -/
def sizedTree : Node :=
  let size : PropValue := .literal (.num (.int 3 (by decide)))
  let paragraph : Node := { element := { id := "p", type := "p", props := [("size", size)] } }
  { element := { id := "page", type := "div", children := some [.node paragraph] } }

theorem parse_pretty_sizedPage : parse 0 sizedPage.pretty = .ok (sizedTree, 0) ∧
    (Node.encode Json.obj sizedTree).Readable ∧ parse 0 sizedTree.pretty = .ok (sizedTree, 0) ∧
    ∀ d, Document.read? sizedPage.pretty = some d →
      (Node.encode Json.obj sizedTree).nesting ≤ 2 * d.nesting := by
  have hsize : ∀ n ∈ [Number.int 3 (by decide)], n.Readable :=
    List.forall_mem_singleton.2 (Number.readable_int 3 _)
  have hpage : sizedPage.Readable := hsize
  have hparse : parse 0 sizedPage.pretty = .ok (sizedTree, 0) := by
    rw [parse_written hpage, if_pos (by decide)]
    rfl
  obtain ⟨hsaved, hdepth⟩ := parse_pretty hparse hsize 0
  exact ⟨hparse, hsize, hsaved.trans (if_pos (by decide)), hdepth⟩

/-- A chain of `n + 1` nodes, every node the one child of the node before. -/
def chain : Nat → Json
  | 0 => .obj [("type", .str "div")]
  | n + 1 => .obj [("children", chain n), ("type", .str "div")]

/-- The tree of a chain. -/
def chainTree : Nat → Node
  | 0 => { element := { type := "div" } }
  | n + 1 => { element := { type := "div", children := some [.node (chainTree n)] } }

theorem nesting_chain (n : Nat) : (chain n).nesting = n + 1 := by
  induction n with
  | zero => rfl
  | succ n ih =>
    change 1 + max (chain n).nesting (max 0 0) = _
    omega

theorem numbers_chain (n : Nat) : (chain n).numbers = [] := by
  induction n with
  | zero => rfl
  | succ n ih => exact (List.append_nil _).trans ih

theorem ordered_chain (n : Nat) : (chain n).Ordered := by
  induction n with
  | zero => exact .obj (List.pairwise_singleton ..) (List.forall_mem_singleton.2 (.str _))
  | succ n ih =>
    refine .obj (List.pairwise_pair.2 (show "children" < "type" by decide)) ?_
    exact List.forall_mem_cons.2 ⟨ih, List.forall_mem_singleton.2 (.str _)⟩

theorem nesting_encode_chainTree (n : Nat) :
    (Node.encode Json.obj (chainTree n)).nesting = 2 * n + 1 := by
  induction n with
  | zero => rfl
  | succ n ih =>
    let depth := (Node.encode Json.obj (chainTree n)).nesting
    have hdepth : depth = 2 * n + 1 := ih
    change 1 + max 0 (max 0 (max 0 (max (1 + max depth 0) 0))) = _
    omega

theorem numbers_encode_chainTree {σ : Type} (f : IdRole → String → String → StateM σ String)
    (n : Nat) (s : σ) : (Node.encode Json.obj ((chainTree n).mapIds f s).1).numbers = [] := by
  induction n generalizing s with
  | zero => rfl
  | succ n ih =>
    have hbelow := ih (f .node "div" "" s).2
    exact (List.append_nil _).trans ((List.append_nil _).trans hbelow)

theorem ofJson_chain (n : Nat) : Node.ofJson (chain n) = .ok (chainTree n) := by
  suffices h : ∃ fields, chain n = .obj fields ∧ DataRef.ofJson? (.obj fields) = none ∧
      Node.ofFields? fields (Node.parts fields) = some (chainTree n) by
    obtain ⟨fields, heq, -, hn⟩ := h
    exact heq ▸ Node.ofJson_obj_eq_ok_iff.2 hn
  induction n with
  | zero => exact ⟨_, rfl, rfl, rfl⟩
  | succ n ih =>
    obtain ⟨fields, heq, hnone, hn⟩ := ih
    have hchildren : Node.childList (chain n) = some [.node (chainTree n)] := by
      rw [heq, Node.childList, Node.objectItem, hnone, hn]
    have hparts : Node.parts [("children", chain n), ("type", .str "div")] =
        { children := some [.node (chainTree n)] } := by
      rw [← hchildren]
      rfl
    refine ⟨_, rfl, rfl, ?_⟩
    rw [Node.ofFields?_element rfl, hparts]
    rfl

/-- A chain of 65 nodes is loaded from its text, and cannot be loaded again once it is saved. -/
theorem not_parse_pretty_chain :
    ∃ tree next', parse 0 (chain 64).pretty = .ok (tree, next') ∧
      (Node.encode Json.obj tree).Readable ∧ parse 0 tree.pretty = .error .notJson := by
  have hdepth : (chain 64).nesting ≤ Json.maxNesting := by
    rw [nesting_chain]
    decide
  have hdeep : Json.maxNesting < (Node.encode Json.obj ((chainTree 64).ensureIds 0).1).nesting := by
    rw [Node.ensureIds, Node.nesting_encode_mapIds, nesting_encode_chainTree]
    decide
  have hsource : (chain 64).Readable := fun n h => by
    rw [numbers_chain] at h
    cases h
  have hwritten : (Node.encode Json.obj ((chainTree 64).ensureIds 0).1).Readable := fun n h => by
    rw [Node.ensureIds, numbers_encode_chainTree] at h
    cases h
  refine ⟨_, ((chainTree 64).ensureIds 0).2.pool.next, ?_, hwritten, ?_⟩
  · rw [parse_written hsource, if_pos hdepth, (ordered_chain 64).sorted_eq, load, ofJson_chain]
  · rw [Node.pretty, parse_written hwritten, if_neg (Nat.not_le.2 hdeep)]

end Schema

end SchemaCanvas
