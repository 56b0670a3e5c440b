import SchemaCanvas.Proofs.Edit.Landing
import SchemaCanvas.Proofs.Ids.Unique
import SchemaCanvas.Proofs.Ids.Unnamed
import SchemaCanvas.Proofs.Session.Dormancy
import SchemaCanvas.Proofs.Session.Identity

/-!
# What is selected after an operation

Every operation says which node is selected afterwards, with a path of its own reckoning, and the
session looks for that node by its id in the new tree. Where ids are distinct the two agree: the
node that is found is the one that was meant.

* `Session.Accepts` : the operations that an action runs, with their results;
* `Session.FollowUp` : the node that should be selected afterwards;
* `SelectionState.follow?_of_get?` : a node is found again by its id;
* `Session.selection_of_applied` : that node is what is selected, unless it is the root.
-/

namespace SchemaCanvas

/-- The actions that run an operation on the tree. -/
inductive Action.Operates : Action → Prop
  | cut : Operates .cut
  | paste : Operates .paste
  | delete : Operates .delete
  | duplicate : Operates .duplicate
  | move (direction : Direction) : Operates (.move direction)
  | moveTo (parent : Path) (gap : Nat) : Operates (.moveTo parent gap)
  | commitEdit : Operates .commitEdit

/-- The answer to an operation that has changed the tree, whether or not the host has taken it. -/
inductive Reply.Applied : Reply → Prop
  | saved (operation : Operation) : Applied (.operation (some operation))
  | unsaved (text : String) : Applied (.failed (.unsaved text))

/-! ### Finding a node again -/

theorem SelectionState.follow?_of_get? {tree n : Node} {path : Path} (htree : tree.HasDistinctIds)
    (hn : tree.get? path = some n) (old : Path) :
    follow? tree ⟨n.id, old⟩ = if path = [] then none else some ⟨n.id, path⟩ := by
  have hfound : tree.pathOf? n.id = some path := htree.pathOf?_eq_some_iff.2 ⟨n, hn, rfl⟩
  simp only [follow?, Lookup.pathOf?, hfound]
  by_cases hroot : path = [] <;> simp [hroot]

namespace Session

variable {s : Session} {a : Action} {e : Edit}

/-! ### Accepted operations -/

/-- An action runs an operation that is accepted, with this result. -/
inductive Accepts (s : Session) : Action → Edit → Prop
  | cut {e : Edit} {n : Node} (h : Edit.cut s.next s.tree s.selection.selected = .ok (e, n)) :
      Accepts s .cut e
  | paste {e : Edit}
      (h : Edit.paste s.next s.tree s.selection.selected s.selection.copied = .ok e) :
      Accepts s .paste e
  | delete {e : Edit} (h : Edit.delete s.next s.tree s.selection.selected = .ok e) :
      Accepts s .delete e
  | duplicate {e : Edit} (h : Edit.duplicate s.next s.tree s.selection.selected = .ok e) :
      Accepts s .duplicate e
  | move {e : Edit} {direction : Direction}
      (h : Edit.shift s.next s.tree s.selection.selected direction = .ok e) :
      Accepts s (.move direction) e
  | moveTo {e : Edit} {parent : Path} {gap : Nat}
      (h : Edit.carry s.next s.tree s.selection.selected parent gap = .ok e) :
      Accepts s (.moveTo parent gap) e
  | commitEdit {e : Edit} {pending : PendingEdit} (hp : s.pending = some pending)
      (h : Edit.content s.next s.tree pending = .ok e) : Accepts s .commitEdit e

theorem Accepts.hasDistinctIds (h : s.Accepts a e) (hs : s.tree.HasDistinctIds) :
    e.tree.HasDistinctIds := by
  cases h with
  | cut h => exact Edit.hasDistinctIds_remove hs h
  | paste h => exact Edit.hasDistinctIds_paste hs h
  | delete h => exact Edit.hasDistinctIds_delete hs h
  | duplicate h => exact Edit.hasDistinctIds_duplicate hs h
  | move h => exact Edit.hasDistinctIds_shift hs h
  | moveTo h => exact Edit.hasDistinctIds_carry hs h
  | commitEdit hp h => exact Edit.hasDistinctIds_content hs h

theorem exists_of_applied_finish {result : Except EditError Edit} {ok : Operation → Reply}
    (h : (reply (s.finish result) ok).2.Applied) :
    ∃ e, result = .ok e ∧ (reply (s.finish result) ok).1.tree = e.tree ∧
      (reply (s.finish result) ok).1.selection = s.selection.afterEdit e := by
  cases result with
  | ok e =>
    refine ⟨e, rfl, ?_, ?_⟩
    · rw [fst_reply, finish, tree_apply]
    · rw [fst_reply, finish, selection_apply]
  | error error => cases h

theorem perform_commitEdit {pending : PendingEdit} (hp : s.pending = some pending) :
    s.perform .commitEdit = reply (s.cancelEdit.finish (Edit.content s.next s.tree pending))
      fun o => .operation (some o) := by
  rw [perform, commitEdit, hp]
  dsimp only
  rcases s.cancelEdit.finish (Edit.content s.next s.tree pending) with ⟨after, error | operation⟩
  · rfl
  · rfl

/-- What an applied operation leaves: the tree of its result, and what that selects. -/
theorem exists_accepts (ha : a.Operates) (h : (s.perform a).2.Applied) :
    ∃ e copied, s.Accepts a e ∧ (s.perform a).1.tree = e.tree ∧
      (s.perform a).1.selection = { s.selection with copied }.afterEdit e := by
  cases ha with
  | cut =>
    rw [perform, cut] at h ⊢
    cases hcut : Edit.cut s.next s.tree s.selection.selected with
    | ok result =>
      refine ⟨result.1, some result.2, .cut hcut, ?_, ?_⟩
      · rw [fst_reply, tree_apply]
      · rw [fst_reply, selection_apply]
        rfl
    | error error =>
      rw [hcut] at h
      cases h
  | paste =>
    obtain ⟨e, he, htree, hselection⟩ := exists_of_applied_finish h
    exact ⟨e, _, .paste he, htree, hselection⟩
  | delete =>
    obtain ⟨e, he, htree, hselection⟩ := exists_of_applied_finish h
    exact ⟨e, _, .delete he, htree, hselection⟩
  | duplicate =>
    obtain ⟨e, he, htree, hselection⟩ := exists_of_applied_finish h
    exact ⟨e, _, .duplicate he, htree, hselection⟩
  | move direction =>
    obtain ⟨e, he, htree, hselection⟩ := exists_of_applied_finish h
    exact ⟨e, _, .move he, htree, hselection⟩
  | moveTo parent gap =>
    obtain ⟨e, he, htree, hselection⟩ := exists_of_applied_finish h
    exact ⟨e, _, .moveTo he, htree, hselection⟩
  | commitEdit =>
    cases hp : s.pending with
    | none =>
      rw [perform, commitEdit, hp] at h
      cases h
    | some pending =>
      rw [perform_commitEdit hp] at h ⊢
      obtain ⟨e, he, htree, hselection⟩ := exists_of_applied_finish h
      exact ⟨e, _, .commitEdit hp he, htree, hselection⟩

/-! ### The node to select -/

/-- The node that is selected in a session, and its path in the tree as it is now. -/
def Selects (s : Session) (path : Path) (n : Node) : Prop :=
  ∃ sel, s.selection.selected = some sel ∧ s.tree.get? path = some n ∧ n.id = sel.id

/-- The node of the new tree that should be selected after an action, and its path there. -/
inductive FollowUp (s : Session) (new : Node) : Action → Option (Path × Node) → Prop
  | cut : FollowUp s new .cut none
  | delete : FollowUp s new .delete none
  /-- the node that has one more child -/
  | paste {path : Path} {n target : Node} (h : s.Selects path n)
      (htarget : new.get? path = some target) (hid : target.id = n.id) :
      FollowUp s new .paste (some (path, target))
  /-- the copy, which stands behind the selected node and whose ids are new -/
  | duplicate {parent : Path} {i : Nat} {n copy : Node} (h : s.Selects (parent ++ [i]) n)
      (hcopy : new.get? (parent ++ [i + 1]) = some copy) (halike : copy.withoutIds = n.withoutIds)
      (hnew : copy.ids.Disjoint s.tree.ids) :
      FollowUp s new .duplicate (some (parent ++ [i + 1], copy))
  /-- the moved node -/
  | move {direction : Direction} {path place : Path} {n : Node} (h : s.Selects path n)
      (hplace : new.get? place = some n) : FollowUp s new (.move direction) (some (place, n))
  | moveTo {parent : Path} {gap : Nat} {path place : Path} {n : Node} (h : s.Selects path n)
      (hplace : new.get? place = some n) : FollowUp s new (.moveTo parent gap) (some (place, n))
  /-- the changed node -/
  | commitEdit {pending : PendingEdit} {path : Path} {n : Node} (hp : s.pending = some pending)
      (hn : s.tree.get? path = some n) (hid : n.id = pending.id)
      (hnew : new.get? path = some (n.withElement (Edit.applyTo pending))) :
      FollowUp s new .commitEdit (some (path, n.withElement (Edit.applyTo pending)))

variable {new n : Node} {path : Path}

theorem FollowUp.get?_eq (h : s.FollowUp new a (some (path, n))) : new.get? path = some n := by
  cases h with
  | paste _ h | duplicate _ h | move _ h | moveTo _ h | commitEdit _ _ _ h => exact h

theorem exists_selects (hs : s.tree.HasDistinctIds)
    (h : (s.selection.selected.bind fun sel => sel.locate? s.tree) = some path) :
    ∃ n, s.Selects path n := by
  obtain ⟨sel, hsel, hlocate⟩ := Option.bind_eq_some_iff.1 h
  obtain ⟨n, hn, hid⟩ := hs.locate?_eq_some_iff.1 hlocate
  exact ⟨n, sel, hsel, hn, hid⟩

theorem idAt?_of_get? (h : new.get? path = some n) : (new.idAt? path).getD "" = n.id := by
  rw [Node.idAt?, h]
  rfl

/-- **An operation selects the node that should be selected,** at its path in the new tree. -/
theorem Accepts.exists_followUp (h : s.Accepts a e) (hs : s.tree.HasDistinctIds) :
    ∃ subject, s.FollowUp e.tree a subject ∧
      e.selection = subject.map fun (path, n) => ⟨n.id, path⟩ := by
  cases h with
  | cut h =>
    obtain ⟨path, rest, -, -, -, -, rfl⟩ := Edit.remove_eq_ok_iff.1 h
    exact ⟨none, .cut, rfl⟩
  | delete h =>
    obtain ⟨removed, h⟩ := Edit.delete_eq_ok_iff.1 h
    obtain ⟨path, rest, -, -, -, -, rfl⟩ := Edit.remove_eq_ok_iff.1 h
    exact ⟨none, .delete, rfl⟩
  | paste h =>
    obtain ⟨copied, path, target, new, -, hpath, htarget, -, hnew, rfl⟩ := Edit.paste_eq_ok_iff.1 h
    obtain ⟨n, sel, hsel, hn, hid⟩ := exists_selects hs hpath
    obtain rfl := Option.some.inj (hn.symm.trans htarget)
    have hget := Node.get?_of_modify? hnew
    rw [hn, Option.map_some] at hget
    refine ⟨_, .paste ⟨sel, hsel, hn, hid⟩ hget rfl, ?_⟩
    rw [hsel, Option.map_some, Option.map_some, ← hid]
    rfl
  | duplicate h =>
    obtain ⟨parent, i, node, new, hpath, hnode, hnew, rfl⟩ := Edit.duplicate_eq_ok_iff.1 h
    obtain ⟨n, sel, hsel, hn, hid⟩ := exists_selects hs hpath
    obtain rfl := Option.some.inj (hn.symm.trans hnode)
    rw [Node.get?_concat] at hnode
    obtain ⟨home, hhome, hchild⟩ := Option.bind_eq_some_iff.1 hnode
    have hcopy := Node.get?_of_insertChild? hnew hhome (Node.lt_length_of_child? hchild)
    have hfresh := (Node.hasDistinctIds_renewIds n { taken := s.tree.ids, next := s.next }).2
    exact ⟨_, .duplicate ⟨sel, hsel, hn, hid⟩ hcopy (Edit.withoutIds_freshCopy ..) hfresh, rfl⟩
  | move h =>
    obtain ⟨parent, own, home, other, hpath, -, -, hpresent, rfl⟩ := Edit.shift_eq_ok_iff.1 h
    obtain ⟨n, sel, hsel, hn, hid⟩ := exists_selects hs hpath
    have hplace := Node.get?_of_swapChildren hn hpresent
    refine ⟨_, .move ⟨sel, hsel, hn, hid⟩ hplace, ?_⟩
    rw [idAt?_of_get? hplace, Option.map_some]
  | moveTo h =>
    obtain ⟨path, target, new, place, hpath, hroot, -, -, hnew, rfl⟩ := Edit.carry_eq_ok_iff.1 h
    obtain ⟨home, own, rfl⟩ := path.eq_nil_or_concat'.resolve_left hroot
    obtain ⟨n, sel, hsel, hn, hid⟩ := exists_selects hs hpath
    obtain ⟨node, hnode, hplace⟩ := Node.get?_of_relocate? hnew
    obtain rfl := Option.some.inj (hn.symm.trans hnode)
    refine ⟨_, .moveTo ⟨sel, hsel, hn, hid⟩ hplace, ?_⟩
    rw [idAt?_of_get? hplace, Option.map_some]
  | @commitEdit e pending hp h =>
    obtain ⟨path, new, -, hpath, hnew, rfl⟩ := Edit.content_eq_ok_iff.1 h
    obtain ⟨n, hn, hid⟩ := hs.pathOf?_eq_some_iff.1 hpath
    have hget := Node.get?_of_modify? hnew
    rw [hn, Option.map_some] at hget
    refine ⟨_, .commitEdit hp hn hid hget, ?_⟩
    dsimp only [Option.map_some]
    rw [Edit.id_applyTo, hid]

/-- **What is selected after an operation.** After an operation that has changed a tree with
distinct ids nothing is hovered. Selected is the node that should be, unless there is none or it is
the root, and a selected node is found at its path in the new tree, at the level of that path. -/
theorem selection_of_applied (hs : s.tree.HasDistinctIds) (ha : a.Operates)
    (h : (s.perform a).2.Applied) :
    (s.perform a).1.selection.hovered = none ∧
      (∃ subject, s.FollowUp (s.perform a).1.tree a subject ∧
        (s.perform a).1.selection.selected = subject.bind fun (path, n) =>
          if path = [] then none else some ⟨n.id, path⟩) ∧
      ∀ sel, (s.perform a).1.selection.selected = some sel →
        sel.path ≠ [] ∧ (s.perform a).1.tree.idAt? sel.path = some sel.id ∧
          (s.perform a).1.selection.level = sel.path.length - 1 := by
  obtain ⟨e, copied, haccepts, htree, hselection⟩ := exists_accepts ha h
  have hdistinct := haccepts.hasDistinctIds hs
  obtain ⟨subject, hfollow, hsubject⟩ := haccepts.exists_followUp hs
  rw [htree, hselection]
  have hselected : ({ s.selection with copied }.afterEdit e).selected = subject.bind
      fun (path, n) => if path = [] then none else some ⟨n.id, path⟩ := by
    show e.selection.bind (SelectionState.follow? e.tree) = _
    rw [hsubject]
    cases subject with
    | none => rfl
    | some target => exact SelectionState.follow?_of_get? hdistinct hfollow.get?_eq target.1
  refine ⟨rfl, ⟨subject, hfollow, hselected⟩, fun sel hsel => ?_⟩
  have hlevel := SelectionState.level_revalidate hsel
  rw [hselected] at hsel
  obtain ⟨⟨path, n⟩, rfl, hchosen⟩ := Option.bind_eq_some_iff.1 hsel
  dsimp only at hchosen
  split_ifs at hchosen with hroot
  obtain rfl := Option.some.inj hchosen
  refine ⟨hroot, ?_, hlevel⟩
  rw [Node.idAt?, hfollow.get?_eq]
  rfl

/-- The section is selected, and the host takes no tree. -/
def refusedSession : Session :=
  (start sectionTree 0 {} [] (some (.refusing "full"))).performAll [.click .schema [0] true]

/-- The copy of the section is selected, although it has not been saved. -/
theorem selection_of_applied_refusedSession :
    (refusedSession.perform .duplicate).2 = .failed (.unsaved "full") ∧
      (refusedSession.perform .duplicate).1.selection.hovered = none ∧
      ∃ sel, (refusedSession.perform .duplicate).1.selection.selected = some sel ∧
        sel.path = [1] ∧
        (refusedSession.perform .duplicate).1.tree.idAt? sel.path = some sel.id ∧
        (refusedSession.perform .duplicate).1.selection.level = 0 := by
  have hplaces : refusedSession.tree.idPlaces = [(.node, "root"), (.node, "a")] := rfl
  have hs : refusedSession.tree.HasDistinctIds :=
    ⟨by simp [NodesNamed, hplaces], by simp [Node.ids, hplaces]⟩
  have hreply : (refusedSession.perform .duplicate).2 = .failed (.unsaved "full") := rfl
  have happlied : (refusedSession.perform .duplicate).2.Applied := hreply ▸ .unsaved "full"
  obtain ⟨hhovered, -, hsel⟩ := selection_of_applied hs .duplicate happlied
  obtain ⟨sel, hselected, hpath⟩ : ∃ sel,
    (refusedSession.perform .duplicate).1.selection.selected = some sel ∧ sel.path = [1] :=
    ⟨_, rfl, rfl⟩
  obtain ⟨-, hid, hlevel⟩ := hsel sel hselected
  rw [hpath] at hlevel
  exact ⟨hreply, hhovered, sel, hselected, hpath, hid, hlevel⟩

end Session

end SchemaCanvas
