import SchemaCanvas.Edit.Operation
import SchemaCanvas.Proofs.Edit.Surgery

/-!
# Accepted operations

Every operation on a tree is a sequence of steps, each of which may reject it. This file turns them
into statements: for every operation, exactly when it is accepted and what its result is.

* `Edit.remove_eq_ok_iff` for cutting and deleting, `Edit.paste_eq_ok_iff`,
  `Edit.duplicate_eq_ok_iff`, `Edit.shift_eq_ok_iff`, `Edit.carry_eq_ok_iff` and
  `Edit.content_eq_ok_iff`.
-/

namespace SchemaCanvas

theorem bind_eq_ok_iff {ε α β : Type} {x : Except ε α} {f : α → Except ε β} {b : β} :
    (x >>= f) = .ok b ↔ ∃ a, x = .ok a ∧ f a = .ok b := by
  cases x <;> simp [bind, Except.bind]

theorem map_eq_ok_iff {ε α β : Type} {x : Except ε α} {f : α → β} {b : β} :
    x.map f = .ok b ↔ ∃ a, x = .ok a ∧ f a = b := by
  cases x <;> simp [Except.map]

theorem map_eq_error_iff {ε α β : Type} {x : Except ε α} {f : α → β} {e : ε} :
    x.map f = .error e ↔ x = .error e := by
  cases x <;> simp [Except.map]

theorem toOption_eq_some_iff {ε α : Type} {x : Except ε α} {a : α} :
    x.toOption = some a ↔ x = .ok a := by
  cases x <;> simp [Except.toOption]

namespace Edit

variable {next : Nat} {tree : Node} {selection : Option Selection}

/-! ### Steps -/

theorem present_eq_ok_iff {α : Type} {v : Option α} {error : EditError} {a : α} :
    present v error = .ok a ↔ v = some a := by
  cases v <;> simp [present]

theorem locate_eq_ok_iff {path : Path} :
    locate tree selection = .ok path ↔
      (selection.bind fun sel => sel.locate? tree) = some path := by
  cases selection with
  | none => simp [locate]
  | some sel =>
    rw [locate, Option.bind_some]
    cases sel.locate? tree <;> simp

theorem locateBelowRoot_eq_ok_iff {operation : Operation} {path : Path} :
    locateBelowRoot tree selection operation = .ok path ↔
      (selection.bind fun sel => sel.locate? tree) = some path ∧ path ≠ [] := by
  rw [locateBelowRoot, bind_eq_ok_iff]
  simp only [locate_eq_ok_iff]
  constructor
  · rintro ⟨found, hfound, h⟩
    split_ifs at h with hroot
    cases h
    exact ⟨hfound, by simpa using hroot⟩
  · rintro ⟨hpath, hroot⟩
    exact ⟨path, hpath, by simp [hroot]⟩

theorem found_eq_ok_iff {path : Path} {n : Node} :
    found tree selection path = .ok n ↔ tree.get? path = some n := by
  rw [found.eq_def]
  cases tree.get? path <;> simp

theorem container_eq_ok_iff {n : Node} {u : Unit} : container n = .ok u ↔ n.type ∉ leafTypes := by
  rw [container]
  split_ifs with h <;> simpa using h

/-! ### Operations -/

theorem remove_eq_ok_iff {operation : Operation} {e : Edit} {removed : Node} :
    remove next tree selection operation = .ok (e, removed) ↔
      ∃ path rest, (selection.bind fun sel => sel.locate? tree) = some path ∧ path ≠ [] ∧
        tree.get? path = some removed ∧ tree.eraseItem? path = some rest ∧
        e = ⟨rest, none, operation, next⟩ := by
  simp only [remove, bind_eq_ok_iff, locateBelowRoot_eq_ok_iff, found_eq_ok_iff, present_eq_ok_iff,
    Except.ok.injEq, Prod.mk.injEq]
  constructor
  · rintro ⟨path, ⟨hpath, hroot⟩, node, hnode, rest, hrest, rfl, rfl⟩
    exact ⟨path, rest, hpath, hroot, hnode, hrest, rfl⟩
  · rintro ⟨path, rest, hpath, hroot, hnode, hrest, rfl⟩
    exact ⟨path, ⟨hpath, hroot⟩, removed, hnode, rest, hrest, rfl, rfl⟩

theorem delete_eq_ok_iff {e : Edit} :
    delete next tree selection = .ok e ↔
      ∃ removed, remove next tree selection .delete = .ok (e, removed) := by
  rw [delete, map_eq_ok_iff]
  constructor
  · rintro ⟨⟨_, removed⟩, h, rfl⟩
    exact ⟨removed, h⟩
  · rintro ⟨removed, h⟩
    exact ⟨(e, removed), h, rfl⟩

/-- A copy of the clipboard is put behind the children of the selected node, if that can have
children. -/
theorem paste_eq_ok_iff {clipboard : Option Node} {e : Edit} :
    paste next tree selection clipboard = .ok e ↔
      ∃ copied path target new, clipboard = some copied ∧
        (selection.bind fun sel => sel.locate? tree) = some path ∧
        tree.get? path = some target ∧ target.type ∉ leafTypes ∧
        tree.insertChild? path target.items.length (freshCopy next tree copied).1 = some new ∧
        e = ⟨new, selection.map fun sel => { sel with path }, .paste,
          (freshCopy next tree copied).2⟩ := by
  simp only [paste, bind_eq_ok_iff, locate_eq_ok_iff, container_eq_ok_iff, present_eq_ok_iff,
    Except.ok.injEq]
  constructor
  · rintro ⟨copied, hcopied, path, hpath, target, htarget, -, hleaf, new, hnew, rfl⟩
    exact ⟨copied, path, target, new, hcopied, hpath, htarget, hleaf, hnew, rfl⟩
  · rintro ⟨copied, path, target, new, hcopied, hpath, htarget, hleaf, hnew, rfl⟩
    exact ⟨copied, hcopied, path, hpath, target, htarget, (), hleaf, new, hnew, rfl⟩

theorem duplicate_eq_ok_iff {e : Edit} :
    duplicate next tree selection = .ok e ↔
      ∃ parent i node new,
        (selection.bind fun sel => sel.locate? tree) = some (parent ++ [i]) ∧
        tree.get? (parent ++ [i]) = some node ∧
        tree.insertChild? parent (i + 1) (freshCopy next tree node).1 = some new ∧
        e = ⟨new, some ⟨(freshCopy next tree node).1.id, parent ++ [i + 1]⟩, .duplicate,
          (freshCopy next tree node).2⟩ := by
  simp only [duplicate, bind_eq_ok_iff, locateBelowRoot_eq_ok_iff, present_eq_ok_iff,
    Except.ok.injEq]
  constructor
  · rintro ⟨path, ⟨hpath, -⟩, node, hnode, ⟨parent, i⟩, hsplit, new, hnew, rfl⟩
    obtain rfl := Path.split?_eq_some_iff.1 hsplit
    exact ⟨parent, i, node, new, hpath, hnode, hnew, rfl⟩
  · rintro ⟨parent, i, node, new, hpath, hnode, hnew, rfl⟩
    exact ⟨parent ++ [i], ⟨hpath, by simp⟩, node, hnode, (parent, i),
      Path.split?_eq_some_iff.2 rfl, new, hnew, rfl⟩

/-- The selected node is exchanged with its neighbour among the siblings that are nodes, if it is
found below the root and has one in the direction. -/
theorem shift_eq_ok_iff {direction : Direction} {e : Edit} :
    shift next tree selection direction = .ok e ↔
      ∃ parent own home other,
        (selection.bind fun sel => sel.locate? tree) = some (parent ++ [own]) ∧
        tree.get? parent = some home ∧
        neighbour home.childPositions own direction = .ok other ∧
        (tree.swapChildren parent own other).2 = true ∧
        e = ⟨(tree.swapChildren parent own other).1,
          some ⟨((tree.swapChildren parent own other).1.idAt? (parent ++ [other])).getD "",
            parent ++ [other]⟩, .move, next⟩ := by
  simp only [shift, bind_eq_ok_iff, locateBelowRoot_eq_ok_iff, present_eq_ok_iff]
  constructor
  · rintro ⟨path, ⟨hpath, -⟩, ⟨parent, own⟩, hsplit, home, hhome, other, hother, h⟩
    obtain rfl := Path.split?_eq_some_iff.1 hsplit
    split_ifs at h with hpresent
    exact ⟨parent, own, home, other, hpath, hhome, hother, hpresent, (Except.ok.inj h).symm⟩
  · rintro ⟨parent, own, home, other, hpath, hhome, hother, hpresent, rfl⟩
    refine ⟨parent ++ [own], ⟨hpath, by simp⟩, (parent, own), Path.split?_eq_some_iff.2 rfl, home,
      hhome, other, hother, ?_⟩
    rw [if_pos hpresent]

/-- The selected node is carried if it is found below the root, the node it goes to can have
children, and the tree allows it. -/
theorem carry_eq_ok_iff {parent : Path} {gap : Nat} {e : Edit} :
    carry next tree selection parent gap = .ok e ↔
      ∃ path target new place, (selection.bind fun sel => sel.locate? tree) = some path ∧
        path ≠ [] ∧ tree.get? parent = some target ∧ target.type ∉ leafTypes ∧
        tree.relocate? path parent gap = some (new, place) ∧
        e = ⟨new, some ⟨(new.idAt? place).getD "", place⟩, .move, next⟩ := by
  simp only [carry, bind_eq_ok_iff, locateBelowRoot_eq_ok_iff, container_eq_ok_iff,
    present_eq_ok_iff, Except.ok.injEq]
  constructor
  · rintro ⟨path, ⟨hpath, hroot⟩, target, htarget, -, hleaf, ⟨new, place⟩, hnew, rfl⟩
    exact ⟨path, target, new, place, hpath, hroot, htarget, hleaf, hnew, rfl⟩
  · rintro ⟨path, target, new, place, hpath, hroot, htarget, hleaf, hnew, rfl⟩
    exact ⟨path, ⟨hpath, hroot⟩, target, htarget, (), hleaf, (new, place), hnew, rfl⟩

theorem id_applyTo (edit : PendingEdit) (n : Node) : (n.withElement (applyTo edit)).id = n.id := by
  have helement : (applyTo edit n.element).id = n.element.id := by
    obtain ⟨_, text, className⟩ := edit
    cases text <;> cases className <;> rfl
  rw [Node.id, Node.id, Node.withElement, helement]

theorem content_eq_ok_iff {edit : PendingEdit} {e : Edit} :
    content next tree edit = .ok e ↔
      ∃ path new, edit.isEmpty = false ∧ tree.pathOf? edit.id = some path ∧
        tree.modify? (Node.withElement (applyTo edit)) path = some new ∧
        e = ⟨new, some ⟨edit.id, path⟩, .edit, next⟩ := by
  rw [content]
  split_ifs with hempty
  · simp [hempty]
  · simp only [bind_eq_ok_iff, present_eq_ok_iff, Except.ok.injEq]
    constructor
    · rintro ⟨path, hpath, new, hnew, rfl⟩
      exact ⟨path, new, by simpa using hempty, hpath, hnew, rfl⟩
    · rintro ⟨path, new, -, hpath, hnew, rfl⟩
      exact ⟨path, hpath, new, hnew, rfl⟩

end Edit

end SchemaCanvas
