import Mathlib.Data.List.TakeWhile
import SchemaCanvas.Proofs.Edit.Duplicate
import SchemaCanvas.Proofs.Ids.Edited
import SchemaCanvas.Proofs.Schema.Find

/-!
# Changed content

A change of text leaves one text in a list of children. It stands in the place of the first text
there was, without the others. A list without a text gets it in front, and keeps nothing else if no
node is in it. Whichever of these cases a first change meets, a second one with the same text meets
a list in which that is the only text, and changes nothing.

* `Edit.retexted_replaceText` : what the new list has of the old one;
* `Edit.replaceText_replaceText` and `Edit.applyTo_applyTo` : a change made twice is made once;
* `Edit.content_exact` : what a change of content does to a tree.
-/

namespace SchemaCanvas

theorem Entries.insert_insert {α : Type} (name : String) (value : α) (entries : Entries α) :
    insert name value (insert name value entries) = insert name value entries := by
  have hirrefl : ¬ name < name := String.lt_irrefl name
  induction entries with
  | nil => simp only [insert, if_neg hirrefl, if_true]
  | cons e rest ih =>
    obtain ⟨k, v⟩ := e
    rw [insert]
    split_ifs with hlt heq
    · simp only [insert, if_neg hirrefl, if_true]
    · simp only [insert, if_neg hirrefl, if_true]
    · rw [insert, if_neg hlt, if_neg heq, ih]

namespace Edit

variable {text old : String} {items before after : List ChildItem}

/-! ### Texts in a list -/

theorem textless_or_first (items : List ChildItem) :
    (∀ item ∈ items, isText item = false) ∨
      ∃ before old after, items = before ++ .text old :: after ∧
        ∀ item ∈ before, isText item = false := by
  cases hfirst : items.find? isText with
  | none =>
    refine .inl fun item hitem => ?_
    simpa using List.find?_eq_none.1 hfirst item hitem
  | some first =>
    obtain ⟨htext, before, after, hitems, hbefore⟩ := List.find?_eq_some_iff_append.1 hfirst
    cases first with
    | text old => exact .inr ⟨before, old, after, hitems, by simpa using hbefore⟩
    | node | ref | other => cases htext

theorem replaceText_of_textless (text : String) (h : ∀ item ∈ items, isText item = false) :
    replaceText text items =
      .text text :: if items.any fun item => item.node?.isSome then items else [] := by
  have hdrop : (items.dropWhile fun item => !isText item) = [] :=
    List.dropWhile_eq_nil_iff.2 fun item hitem => by simp [h item hitem]
  rw [replaceText, hdrop]

theorem replaceText_of_first (text old : String) (after : List ChildItem)
    (h : ∀ item ∈ before, isText item = false) :
    replaceText text (before ++ .text old :: after) =
      before ++ .text text :: after.filter fun item => !isText item := by
  have hbefore : ∀ item ∈ before, (!isText item) = true := fun item hitem => by simp [h item hitem]
  have htake : ((before ++ .text old :: after).takeWhile fun item => !isText item) = before := by
    rw [List.takeWhile_append_of_pos hbefore]
    simp [isText]
  have hdrop : ((before ++ .text old :: after).dropWhile fun item => !isText item) =
      .text old :: after := by
    rw [List.dropWhile_append_of_pos hbefore]
    simp [isText]
  rw [replaceText, htake, hdrop]

/-- What a change of text does to a list of children. -/
structure Retexted (text : String) (items new : List ChildItem) : Prop where
  /-- the text is the only one -/
  texts : new.filter isText = [.text text]
  /-- the nodes are those there were, in their order -/
  nodes : new.filterMap ChildItem.node? = items.filterMap ChildItem.node?
  /-- where there was a text, all else is kept, in its order -/
  others : (∃ item ∈ items, isText item = true) →
    (new.filter fun item => !isText item) = items.filter fun item => !isText item
  /-- where there was a text, the new one stands in the place of the first -/
  place : (∃ item ∈ items, isText item = true) → new.findIdx isText = items.findIdx isText

theorem filter_isText_of_textless (h : ∀ item ∈ items, isText item = false) :
    items.filter isText = [] :=
  List.filter_eq_nil_iff.2 fun item hitem => by simp [h item hitem]

theorem filterMap_node?_filter (items : List ChildItem) :
    (items.filter fun item => !isText item).filterMap ChildItem.node? =
      items.filterMap ChildItem.node? := by
  rw [List.filterMap_filter]
  refine List.filterMap_congr fun item _ => ?_
  by_cases htext : isText item = true
  · rw [node?_eq_none_of_isText htext, ite_self]
  · rw [if_pos (by simpa using htext)]

theorem retexted_of_textless (h : ∀ item ∈ items, isText item = false) :
    Retexted text items (replaceText text items) := by
  have hnone : ¬ ∃ item ∈ items, isText item = true := by
    rintro ⟨item, hitem, htext⟩
    rw [h item hitem] at htext
    cases htext
  rw [replaceText_of_textless text h]
  refine ⟨?_, ?_, fun htext => absurd htext hnone, fun htext => absurd htext hnone⟩
  · rw [List.filter_cons_of_pos rfl]
    split_ifs
    · rw [filter_isText_of_textless h]
    · rfl
  · rw [List.filterMap_cons_none rfl]
    split_ifs with hnodes
    · rfl
    · have hnone : ∀ item ∈ items, item.node? = none := by simpa using hnodes
      exact (List.filterMap_eq_nil_iff.2 hnone).symm

theorem retexted_of_first (h : ∀ item ∈ before, isText item = false) :
    Retexted text (before ++ .text old :: after)
      (replaceText text (before ++ .text old :: after)) := by
  rw [replaceText_of_first text old after h]
  refine ⟨?_, ?_, fun _ => ?_, fun _ => ?_⟩
  · have hafter : (after.filter fun item => !isText item).filter isText = [] :=
      filter_isText_of_textless fun item hitem => by simpa using (List.mem_filter.1 hitem).2
    rw [List.filter_append, filter_isText_of_textless h, List.filter_cons_of_pos rfl, hafter,
      List.nil_append]
  · rw [List.filterMap_append, List.filterMap_append, List.filterMap_cons_none rfl,
      List.filterMap_cons_none rfl, filterMap_node?_filter]
  · simp [List.filter_append, isText]
  · have hbefore : ¬ before.findIdx isText < before.length := by
      rw [List.findIdx_eq_length.2 h]
      exact Nat.lt_irrefl _
    rw [List.findIdx_append, List.findIdx_append, if_neg hbefore, if_neg hbefore]
    simp [List.findIdx_cons, isText]

/-- **One text in place of all,** and no other entry is lost, unless there was neither a text nor a
node. -/
theorem retexted_replaceText (text : String) (items : List ChildItem) :
    Retexted text items (replaceText text items) := by
  obtain h | ⟨before, old, after, rfl, h⟩ := textless_or_first items
  · exact retexted_of_textless h
  · exact retexted_of_first h

/-- **A text that is there already changes nothing.** -/
theorem replaceText_replaceText (text : String) (items : List ChildItem) :
    replaceText text (replaceText text items) = replaceText text items := by
  obtain h | ⟨before, old, after, rfl, h⟩ := textless_or_first items
  · rw [replaceText_of_textless text h]
    -- the new text is the first entry now, and the rest is without texts as it was
    generalize hrest : (if items.any fun item => item.node?.isSome then items else []) = rest
    have hkept : (rest.filter fun item => !isText item) = rest := by
      refine List.filter_eq_self.2 fun item hitem => ?_
      split_ifs at hrest
      · simp [h item (hrest ▸ hitem)]
      · rw [← hrest] at hitem
        cases hitem
    have hnone : ∀ item ∈ ([] : List ChildItem), isText item = false := by simp
    have hagain := replaceText_of_first text text rest hnone
    rwa [hkept] at hagain
  · rw [replaceText_of_first text old after h, replaceText_of_first text text _ h,
      List.filter_filter]
    simp only [Bool.and_self]

/-! ### Changes of an element -/

theorem applyTo_applyTo (edit : PendingEdit) (e : Element) :
    applyTo edit (applyTo edit e) = applyTo edit e := by
  obtain ⟨id, text, className⟩ := edit
  cases text <;> cases className <;>
    simp only [applyTo, Element.withItems, Element.withProp, Element.items, Option.getD_some,
      replaceText_replaceText, Entries.insert_insert]

/-- What a change of content does to its node. -/
structure ContentChanged (edit : PendingEdit) (n new : Node) : Prop where
  /-- nothing but the children and the props changes -/
  rest : new = n.withElement fun e =>
    { e with children := new.element.children, props := new.element.props }
  retexted (text : String) : edit.text = some text → Retexted text n.items new.items
  children_eq : edit.text = none → new.element.children = n.element.children
  className (name : String) : edit.className = some name →
    new.element.props.lookup "className" = some (.literal (.str name)) ∧
      ∀ other, other ≠ "className" →
        new.element.props.lookup other = n.element.props.lookup other
  props_eq : edit.className = none → new.element.props = n.element.props

theorem contentChanged_applyTo (edit : PendingEdit) (n : Node) :
    ContentChanged edit n (n.withElement (applyTo edit)) := by
  obtain ⟨id, text, className⟩ := edit
  refine ⟨?_, ?_, ?_, ?_, ?_⟩
  · obtain ⟨component, ⟨⟩⟩ := n
    cases text <;> cases className <;> rfl
  · rintro text rfl
    have hitems := retexted_replaceText text n.items
    cases className <;> exact hitems
  · rintro rfl
    cases className <;> rfl
  · rintro name rfl
    have hprops : (n.withElement (applyTo ⟨id, text, some name⟩)).element.props =
        n.element.props.insert "className" (.literal (.str name)) := by cases text <;> rfl
    rw [hprops]
    exact ⟨Entries.lookup_insert_self _ _ _,
      fun other hother => Entries.lookup_insert_of_ne hother _ _⟩
  · rintro rfl
    cases text <;> rfl

/-! ### Changes of a tree -/

/-- **A change of content is exact, and made once.** If there is anything to change and the id is
found, the change is made to the node that is found, and to no other node. Making it again gives the
same tree. -/
theorem content_exact (next next' : Nat) (tree : Node) (edit : PendingEdit) (path : Path)
    (hchange : edit.isEmpty = false) (hfound : tree.pathOf? edit.id = some path) :
    ∃ node changed new, tree.get? path = some node ∧ node.id = edit.id ∧
      content next tree edit = .ok new ∧ new.selection = some ⟨edit.id, path⟩ ∧
      new.tree.get? path = some changed ∧ changed.id = edit.id ∧
      ContentChanged edit node changed ∧
      (∀ other, new.tree.modify? (fun _ => other) path = tree.modify? (fun _ => other) path) ∧
      content next' new.tree edit = .ok { new with next := next' } := by
  obtain ⟨node, hnode, hid⟩ := Node.exists_get?_of_pathOf? hfound
  obtain ⟨new, hnew⟩ := Node.exists_modify? (Node.withElement (applyTo edit)) hnode
  have hget : new.get? path = some (node.withElement (applyTo edit)) := by
    rw [Node.get?_of_modify? hnew, hnode, Option.map_some]
  have hfoundAgain : new.pathOf? edit.id = some path :=
    Node.pathOf?_of_modify? (id_applyTo edit) hfound hnew
  have hagain : new.modify? (Node.withElement (applyTo edit)) path = some new := by
    refine Node.modify?_self hget ?_
    rw [Node.withElement, Node.withElement, applyTo_applyTo]
  exact ⟨node, node.withElement (applyTo edit), ⟨new, some ⟨edit.id, path⟩, .edit, next⟩, hnode,
    hid, content_eq_ok_iff.2 ⟨path, new, hchange, hfound, hnew, rfl⟩, rfl, hget,
    (id_applyTo edit node).trans hid, contentChanged_applyTo edit node,
    fun other => Node.modify?_modify? hnew,
    content_eq_ok_iff.2 ⟨path, new, hchange, hfoundAgain, hagain, rfl⟩⟩

/-- A heading with two texts, the second behind an expression and a node. -/
def titlePage : Node where
  component := some { id := "page" }
  element := {
    id := "box", type := "div"
    children := some [.other .null, .node {
      element := {
        id := "title", type := "h1"
        children := some [.ref (.expression "user.name"), .text "Hi", .node {
          element := { id := "title", type := "b" } }, .text "!"] } }] }

/-- The outer one of two nodes with the id gets the text. -/
theorem content_exact_titlePage :
    PendingEdit.isEmpty ⟨"title", some "Hello", some "big"⟩ = false ∧
    titlePage.pathOf? "title" = some [1] ∧
    ∃ node changed new, titlePage.get? [1] = some node ∧ node.id = "title" ∧
      content 0 titlePage ⟨"title", some "Hello", some "big"⟩ = .ok new ∧
      new.selection = some ⟨"title", [1]⟩ ∧
      new.tree.get? [1] = some changed ∧ changed.id = "title" ∧
      ContentChanged ⟨"title", some "Hello", some "big"⟩ node changed ∧
      (∀ other, new.tree.modify? (fun _ => other) [1] =
        titlePage.modify? (fun _ => other) [1]) ∧
      content 0 new.tree ⟨"title", some "Hello", some "big"⟩ = .ok { new with next := 0 } :=
  have hchange : PendingEdit.isEmpty ⟨"title", some "Hello", some "big"⟩ = false := by rfl
  have hfound : titlePage.pathOf? "title" = some [1] := by rfl
  ⟨hchange, hfound,
    content_exact 0 0 titlePage ⟨"title", some "Hello", some "big"⟩ [1] hchange hfound⟩

end Edit

end SchemaCanvas
