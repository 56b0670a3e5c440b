import SchemaCanvas.Proofs.Ids.Edited
import SchemaCanvas.Proofs.Session.Run

/-!
# Distinct ids along a run

A host finds nodes by their ids, so a session must not let two nodes have the same id, whatever is
done with it. The trees that come from outside are loaded ones; all others are edited here.

* `Session.Turn.hasDistinctIds` : every action keeps the ids of the tree distinct;
* `Session.hasDistinctIds_performAll` : so does every run that starts with a loaded tree.
-/

namespace SchemaCanvas

/-- The trees that are loaded from a value or from a JSON text. -/
inductive Schema.Loaded : Node → Prop
  | value {next next' : Nat} {v : Json} {tree : Node} (h : load next v = .ok (tree, next')) :
      Loaded tree
  | text {next next' : Nat} {text : String} {tree : Node}
      (h : parse next text = .ok (tree, next')) : Loaded tree

theorem Schema.Loaded.hasDistinctIds {tree : Node} (h : Loaded tree) : tree.HasDistinctIds := by
  cases h with
  | value h => exact hasDistinctIds_of_load h
  | text h =>
    rw [parse] at h
    split at h
    · exact hasDistinctIds_of_load h
    · cases h

namespace Session

variable {s : Session}

theorem Yields.hasDistinctIds {e : Edit} (h : s.Yields e) (hs : s.tree.HasDistinctIds) :
    e.tree.HasDistinctIds := by
  cases h with
  | cut h => exact Edit.hasDistinctIds_remove hs h
  | paste h => exact Edit.hasDistinctIds_paste hs h
  | delete h => exact Edit.hasDistinctIds_delete hs h
  | duplicate h => exact Edit.hasDistinctIds_duplicate hs h
  | shift h => exact Edit.hasDistinctIds_shift hs h
  | carry h => exact Edit.hasDistinctIds_carry hs h

/-- An action keeps the ids of the tree distinct, if a tree that it brings has distinct ids. -/
theorem Turn.hasDistinctIds {a : Action} {tree : Node} {selection : SelectionState}
    (h : s.Turn a tree selection) (hs : s.tree.HasDistinctIds)
    (hreplace : ∀ t, a = .replace t → t.HasDistinctIds) : tree.HasDistinctIds := by
  cases h with
  | edit _ e _ h => exact h.hasDistinctIds hs
  | content _ e _ h => exact Edit.hasDistinctIds_content hs h
  | replace => exact hreplace tree rfl
  | load _ _ _ h => exact Schema.hasDistinctIds_of_load h
  | move | select | sibling | copy => exact hs

/-- **Along a run from a loaded tree every node has an id, and no id occurs twice,** if the trees
that replace the first one are loaded too. Nothing is asked of the host, of the selection and of the
clipboard. -/
theorem hasDistinctIds_performAll {tree : Node} (htree : Schema.Loaded tree) (next : Nat)
    (config : Config) (transforms : Transforms) (host : Option Host) {actions : List Action}
    (hreplace : ∀ t, .replace t ∈ actions → Schema.Loaded t) :
    ((start tree next config transforms host).performAll actions).tree.HasDistinctIds := by
  refine (trace_steps _ actions).invariant (I := fun s => s.tree.HasDistinctIds)
    htree.hasDistinctIds fun x hx hbefore => ?_
  obtain ⟨hinput, haction⟩ := action_of_mem_steps hx
  refine (turn_perform hinput).hasDistinctIds hbefore fun t ht => ?_
  obtain hmem | ⟨chord, hchord⟩ := haction
  · rw [ht] at hmem
    exact (hreplace t hmem).hasDistinctIds
  · rw [hchord] at ht
    cases ht

/-- A list, a node with an `else` branch and a component, all of them with the same id. -/
def repeatedId : Json :=
  .obj [("id", .str "a"), ("type", .str "ul"), ("children", .arr
    [.obj [("id", .str "a"), ("type", .str "li"),
      ("else", .obj [("id", .str "a"), ("type", .str "li")])],
    .obj [("id", .str "a"), ("name", .str "Item"),
      ("render", .obj [("id", .str "a"), ("type", .str "li")])]])]

theorem hasDistinctIds_performAll_repeatedId :
    ∃ tree next, Schema.load 0 repeatedId = .ok (tree, next) ∧
      ((start tree next {} [] none).performAll [.click .schema [0] true, .copy, .replace tree,
        .click .schema [1] true, .cut, .click .schema [0] true, .paste,
        .duplicate]).tree.HasDistinctIds := by
  obtain ⟨tree, next, hload⟩ : ∃ tree next, Schema.load 0 repeatedId = .ok (tree, next) :=
    ⟨_, _, rfl⟩
  refine ⟨tree, next, hload, hasDistinctIds_performAll (.value hload) _ _ _ _ fun t ht => ?_⟩
  obtain rfl : t = tree := by simpa using ht
  exact .value hload

end Session

end SchemaCanvas
