import SchemaCanvas.Proofs.Edit.Landing
import SchemaCanvas.Proofs.Edit.Outcome
import SchemaCanvas.Proofs.Ids.Edited
import SchemaCanvas.Proofs.Ids.Unique
import SchemaCanvas.Proofs.Ids.Unnamed

/-!
# Cutting and pasting

A node reaches the end of another list of children in two ways: it is carried there, or it is cut
and pasted. The first way follows paths, which shift when the node is taken out; the second one
looks for the target by its id in what is left. Both are accepted for the same nodes and lead to the
same tree, except that a pasted node has new ids.

* `Edit.Movable` : the nodes for which both ways are accepted;
* `Edit.Movable.exists_edits` : where the ways lead;
* `Edit.cutAndPaste_agrees_with_carry` : the comparison.
-/

namespace SchemaCanvas

namespace Edit

/-- Cut the node `source` and paste it below the node `target`, which is looked for in what is
left. -/
def cutAndPaste (next : Nat) (tree : Node) (source target : Selection) : Except EditError Edit := do
  let (cutting, clipboard) ← cut next tree (some source)
  paste cutting.next cutting.tree (some target) (some clipboard)

/-- A node below the root, and a node outside it that can have children, each with its path. -/
structure Movable (tree n q : Node) (home : Path) (own : Nat) (parent : Path) : Prop where
  node : tree.get? (home ++ [own]) = some n
  target : tree.get? parent = some q
  outside : ¬ home ++ [own] <+: parent
  container : q.type ∉ leafTypes

variable {next next' gap own : Nat} {tree n q : Node} {source target : Selection}
  {home parent : Path}

/-- Both ways are accepted, and lead to the same tree up to the ids of the moved node. -/
theorem Movable.exists_edits (next next' : Nat) (h : Movable tree n q home own parent)
    (htree : tree.HasDistinctIds) (hsource : source.id = n.id) (htarget : target.id = q.id)
    (hgap : q.items.length ≤ gap) :
    ∃ pasted carried place copy, cutAndPaste next tree source target = .ok pasted ∧
      carry next' tree (some source) parent gap = .ok carried ∧
      carried.tree.get? place = some n ∧ copy.withoutIds = n.withoutIds ∧
      carried.tree.modify? (fun _ => copy) place = some pasted.tree := by
  obtain ⟨rest, left, i, new, hrest, hleft, hid, htype, hi, hend, hnew, hrelocate⟩ :=
    Node.exists_relocate? h.node h.target h.outside gap
  generalize Path.afterRemoval (home ++ [own]) parent = place at hleft hnew hrelocate
  have hlocate : source.locate? tree = some (home ++ [own]) :=
    htree.locate?_eq_some_iff.2 ⟨n, h.node, hsource.symm⟩
  have hcut : cut next tree (some source) = .ok (⟨rest, none, .cut, next⟩, n) :=
    remove_eq_ok_iff.2 ⟨home ++ [own], rest, hlocate, by simp, h.node, hrest, rfl⟩
  -- what is left has distinct ids too, so the target is found in it
  have hrest' : rest.HasDistinctIds := hasDistinctIds_remove htree hcut
  have hlocate' : target.locate? rest = some place :=
    hrest'.locate?_eq_some_iff.2 ⟨left, hleft, hid.trans htarget.symm⟩
  have hleaf : left.type ∉ leafTypes := htype ▸ h.container
  -- the copy is put where the carried node is
  let copy := (freshCopy next rest n).1
  obtain ⟨put, hput⟩ := Node.exists_insertChild? copy left.items.length hleft
  have hpaste : paste next rest (some target) (some n) =
      .ok ⟨put, some ⟨target.id, place⟩, .paste, (freshCopy next rest n).2⟩ :=
    paste_eq_ok_iff.2 ⟨n, place, left, put, rfl, hlocate', hleft, hleaf, hput, rfl⟩
  have hcarry : carry next' tree (some source) parent gap =
      .ok ⟨new, some ⟨(new.idAt? (place ++ [i])).getD "", place ++ [i]⟩, .move, next'⟩ :=
    carry_eq_ok_iff.2 ⟨home ++ [own], q, new, place ++ [i], hlocate, by simp, h.target,
      h.container, hrelocate, rfl⟩
  refine ⟨_, _, place ++ [i], copy, bind_eq_ok_iff.2 ⟨_, hcut, hpaste⟩, hcarry,
    Node.get?_of_insertChild? hnew hleft hi, withoutIds_freshCopy next rest n, ?_⟩
  rw [Node.modify?_of_insertChild? hnew hleft hi, hend hgap, hput]

theorem not_prefix_of_not_within {path : Path} (hn : tree.get? path = some n)
    (hq : tree.get? parent = some q) (hout : ¬ q.Within n) : ¬ path <+: parent := by
  rintro ⟨below, rfl⟩
  rw [Node.get?_append, hn, Option.bind_some] at hq
  exact hout (Node.within_of_get? hq)

theorem exists_movable_of_cutAndPaste {pasted : Edit} (htree : tree.HasDistinctIds)
    (hn : n.Within tree) (hq : q.Within tree) (hout : ¬ q.Within n) (hsource : source.id = n.id)
    (htarget : target.id = q.id) (h : cutAndPaste next tree source target = .ok pasted) :
    ∃ home own parent, Movable tree n q home own parent := by
  obtain ⟨⟨cutting, removed⟩, hcut, hpaste⟩ := bind_eq_ok_iff.1 h
  have hrest' : cutting.tree.HasDistinctIds := hasDistinctIds_remove htree hcut
  obtain ⟨path, rest, hlocate, hroot, hnode, hrest, rfl⟩ := remove_eq_ok_iff.1 hcut
  obtain ⟨-, place, left, new, -, hlocate', hleft, hleaf, -⟩ := paste_eq_ok_iff.1 hpaste
  obtain ⟨home, own, rfl⟩ := path.eq_nil_or_concat'.resolve_left hroot
  obtain ⟨m, hm, hmid⟩ := htree.locate?_eq_some_iff.1 hlocate
  have hnode := htree.get?_of_within hn hm (hsource.symm.trans hmid.symm)
  obtain ⟨m', hm', hmid'⟩ := hrest'.locate?_eq_some_iff.1 hlocate'
  obtain rfl := Option.some.inj (hm'.symm.trans hleft)
  -- what is found in the tree that is left is found in the whole tree
  obtain ⟨parent, target', htarget', hid⟩ := Node.exists_of_get?_eraseItem? hrest hleft
  have hq' := htree.get?_of_within hq htarget' (htarget.symm.trans (hmid'.symm.trans hid.symm))
  have hprefix := not_prefix_of_not_within hnode hq' hout
  obtain ⟨left', hleft', hid', htype, -⟩ := Node.exists_of_eraseItem? hrest hnode hq' hprefix
  obtain rfl := hrest'.eq_of_get? hleft hleft' (hmid'.trans (htarget.trans hid'.symm))
  obtain rfl := Option.some.inj (hleft.symm.trans hleft')
  exact ⟨home, own, parent, hnode, hq', hprefix, htype ▸ hleaf⟩

theorem exists_movable_of_carry {carried : Edit} (htree : tree.HasDistinctIds)
    (hn : n.Within tree) (hout : ¬ q.Within n) (hsource : source.id = n.id)
    (hparent : tree.get? parent = some q)
    (h : carry next tree (some source) parent gap = .ok carried) :
    ∃ home own, Movable tree n q home own parent := by
  obtain ⟨path, q', -, -, hlocate, hroot, hq', hleaf, -⟩ := carry_eq_ok_iff.1 h
  obtain rfl := Option.some.inj (hparent.symm.trans hq')
  obtain ⟨home, own, rfl⟩ := path.eq_nil_or_concat'.resolve_left hroot
  obtain ⟨m, hm, hid⟩ := htree.locate?_eq_some_iff.1 hlocate
  have hnode := htree.get?_of_within hn hm (hsource.symm.trans hid.symm)
  exact ⟨home, own, hnode, hparent, not_prefix_of_not_within hnode hparent hout, hleaf⟩

/-- **Cutting and pasting agrees with carrying.** Let `n` and `q` be nodes of a tree with distinct
ids, `q` outside the tree of `n`, so that `n` is not the root. Cutting `n` and pasting it below `q`
is accepted if and only if carrying `n` to a gap of `q` behind all entries is. Then both lead to the
same tree, except that one holds a copy where the other holds `n`, and the copy differs from `n` in
ids alone. -/
theorem cutAndPaste_agrees_with_carry (next next' gap : Nat) (source target : Selection)
    (htree : tree.HasDistinctIds) (hn : n.Within tree) (hq : q.Within tree) (hout : ¬ q.Within n)
    (hsource : source.id = n.id) (htarget : target.id = q.id) (hgap : q.items.length ≤ gap) :
    ((∃ pasted, cutAndPaste next tree source target = .ok pasted) ↔
      ∃ parent carried, tree.get? parent = some q ∧
        carry next' tree (some source) parent gap = .ok carried) ∧
    ∀ pasted parent carried, cutAndPaste next tree source target = .ok pasted →
      tree.get? parent = some q → carry next' tree (some source) parent gap = .ok carried →
        ∃ place copy, carried.tree.get? place = some n ∧ copy.withoutIds = n.withoutIds ∧
          carried.tree.modify? (fun _ => copy) place = some pasted.tree := by
  refine ⟨⟨?_, ?_⟩, ?_⟩
  · rintro ⟨pasted, hpasted⟩
    obtain ⟨home, own, parent, hmove⟩ :=
      exists_movable_of_cutAndPaste htree hn hq hout hsource htarget hpasted
    obtain ⟨-, carried, -, -, -, hcarried, -⟩ :=
      hmove.exists_edits next next' htree hsource htarget hgap
    exact ⟨parent, carried, hmove.target, hcarried⟩
  · rintro ⟨parent, carried, hparent, hcarried⟩
    obtain ⟨home, own, hmove⟩ :=
      exists_movable_of_carry htree hn hout hsource hparent hcarried
    obtain ⟨pasted, -, -, -, hpasted, -⟩ :=
      hmove.exists_edits next next' htree hsource htarget hgap
    exact ⟨pasted, hpasted⟩
  · intro pasted parent carried hpasted hparent hcarried
    obtain ⟨home, own, hmove⟩ := exists_movable_of_carry htree hn hout hsource hparent hcarried
    obtain ⟨pasted', carried', place, copy, hpasted', hcarried', hplace, hcopy, htrees⟩ :=
      hmove.exists_edits next next' htree hsource htarget hgap
    obtain rfl := Except.ok.inj (hpasted.symm.trans hpasted')
    obtain rfl := Except.ok.inj (hcarried.symm.trans hcarried')
    exact ⟨place, copy, hplace, hcopy, htrees⟩

/-- A section with a heading. -/
def headedSection : Node where
  element := { id := "a", type := "section", children := some [.text "A"] }

/-- A section without one. -/
def bareSection : Node where
  element := { id := "b", type := "section", children := some [] }

/-- A page with both sections. -/
def sectionsTree : Node where
  element := {
    id := "root", type := "div", children := some [.node headedSection, .node bareSection] }

/-- The first section goes below the second one, which is the first one by then. -/
theorem cutAndPaste_agrees_with_carry_sections :
    ∃ pasted carried place copy, cutAndPaste 0 sectionsTree ⟨"a", [0]⟩ ⟨"b", [1]⟩ = .ok pasted ∧
      carry 0 sectionsTree (some ⟨"a", [0]⟩) [1] 3 = .ok carried ∧
      carried.tree.get? place = some headedSection ∧
      copy.withoutIds = headedSection.withoutIds ∧
      carried.tree.modify? (fun _ => copy) place = some pasted.tree := by
  have hplaces : sectionsTree.idPlaces = [(.node, "root"), (.node, "a"), (.node, "b")] := rfl
  have htree : sectionsTree.HasDistinctIds :=
    ⟨by simp [NodesNamed, hplaces], by simp [Node.ids, hplaces]⟩
  have hids : ∀ m : Node, m.Within headedSection → m.id = "a" :=
    Node.forall_within_iff.2 ⟨rfl, by simp [headedSection],
      by simp [headedSection, Node.items, Element.items]⟩
  have hout : ¬ bareSection.Within headedSection := fun h => absurd (hids _ h) (by decide)
  obtain ⟨hiff, htrees⟩ := cutAndPaste_agrees_with_carry 0 0 3 ⟨"a", [0]⟩ ⟨"b", [1]⟩ htree
    (.child List.mem_cons_self .self) (.child (List.mem_cons_of_mem _ List.mem_cons_self) .self)
    hout rfl rfl (Nat.zero_le 3)
  obtain ⟨carried, hcarried⟩ :
    ∃ carried, carry 0 sectionsTree (some ⟨"a", [0]⟩) [1] 3 = .ok carried := ⟨_, rfl⟩
  obtain ⟨pasted, hpasted⟩ := hiff.2 ⟨[1], carried, rfl, hcarried⟩
  obtain ⟨place, copy, hplace, hcopy, htree⟩ := htrees pasted [1] carried hpasted rfl hcarried
  exact ⟨pasted, carried, place, copy, hpasted, hcarried, hplace, hcopy, htree⟩

end Edit

end SchemaCanvas
