import SchemaCanvas.Proofs.Edit.Landing

/-!
# Carried nodes

What `Node.relocate?` does to a tree, in full. A node is taken out and put into a gap that was
pointed at before, so three places shift: the path to the receiving node, the gap in its list, and
the path of the carried node itself.

* `Node.get?_eraseItem?` : what is left of any node outside the one taken out, and where it is then;
* `Node.eraseItem?_of_insertChild?` : an entry that has been put in is taken out again;
* `Node.exists_putChild_eraseItem?` : the node may be put into the gap first and taken out of
  its old place afterwards, so the gap is one of the old list;
* `Node.relocateInPlace_eq` : a node is never lost on the way: nothing is taken out of a tree unless
  it is put in again;
* `Node.relocate?_exact` : when a node is carried, and what the tree is then.
-/

namespace SchemaCanvas

section

variable {α : Type} {l : List α} {i j own gap : Nat}

theorem eraseIdx_insertIdx_shift (hown : own < l.length) (a : α) :
    (l.insertIdx gap a).eraseIdx (if gap ≤ own then own + 1 else own) =
      (l.eraseIdx own).insertIdx (if own < gap then gap - 1 else gap) a := by
  by_cases h : gap ≤ own
  · rw [if_pos h, if_neg (Nat.not_lt.2 h), List.insertIdx_eraseIdx_of_le hown h]
  · rw [if_neg h, if_pos (Nat.lt_of_not_le h), List.insertIdx_eraseIdx_of_ge hown (by omega),
      Nat.sub_add_cancel (by omega)]

theorem getElem?_insertIdx_shift (a : α) :
    (l.insertIdx gap a)[if gap ≤ i then i + 1 else i]? = l[i]? := by
  by_cases h : gap ≤ i
  · rw [if_pos h, List.getElem?_insertIdx_of_gt (by omega), Nat.add_sub_cancel]
  · rw [if_neg h, List.getElem?_insertIdx_of_lt (by omega)]

theorem set_insertIdx_shift (a b : α) :
    (l.insertIdx gap a).set (if gap ≤ i then i + 1 else i) b = (l.set i b).insertIdx gap a := by
  refine List.ext_getElem? fun k => ?_
  grind

theorem eraseIdx_set_shift (h : own ≠ j) (b : α) :
    (l.set j b).eraseIdx own = (l.eraseIdx own).set (if own < j then j - 1 else j) b := by
  by_cases hlt : own < j
  · rw [if_pos hlt, List.eraseIdx_set_lt hlt]
  · rw [if_neg hlt, List.eraseIdx_set_gt (by omega)]

end

namespace Path

/-- A path as it is after an entry has been put in at `place`. -/
def afterInsertion : (place path : Path) → Path
  | [i], j :: rest => (if i ≤ j then j + 1 else j) :: rest
  | i :: place, j :: rest => if i = j then j :: afterInsertion place rest else j :: rest
  | _, path => path

theorem afterRemoval_nil (removed : Path) : afterRemoval removed [] = [] := by
  match removed with
  | [] => rfl
  | [_] => rfl
  | _ :: _ :: _ => rfl

theorem afterRemoval_eq_iff {home path : Path} (own : Nat) :
    afterRemoval (home ++ [own]) path = home ↔ path = home := by
  induction home generalizing path with
  | nil => cases path <;> simp [afterRemoval]
  | cons k home ih =>
    cases path with
    | nil => simp [afterRemoval_nil]
    | cons j path =>
      rw [List.cons_append, afterRemoval_cons _ _ (by simp)]
      split_ifs with hkj
      · subst hkj
        simp [ih]
      · simp

theorem afterInsertion_cons {place path : Path} (i j : Nat) (h : place ≠ []) :
    afterInsertion (i :: place) (j :: path) =
      if i = j then j :: afterInsertion place path else j :: path := by
  cases place with
  | nil => exact absurd rfl h
  | cons k place => rfl

theorem afterInsertion_ne_nil {path : Path} (place : Path) (h : path ≠ []) :
    afterInsertion place path ≠ [] := by
  obtain ⟨j, rest, rfl⟩ := List.exists_cons_of_ne_nil h
  match place with
  | [] => exact h
  | [i] => simp [afterInsertion]
  | i :: k :: place =>
    rw [afterInsertion_cons i j (List.cons_ne_nil k place)]
    split_ifs <;> simp

/-- Where an entry that was put in at a gap is after another one has been taken out. -/
theorem afterRemoval_afterInsertion {home parent : Path} {own : Nat} (gap : Nat)
    (hout : ¬ home ++ [own] <+: parent) :
    afterRemoval (afterInsertion (parent ++ [gap]) (home ++ [own])) (parent ++ [gap]) =
      afterRemoval (home ++ [own]) parent ++
        [if home = parent ∧ own < gap then gap - 1 else gap] := by
  induction parent generalizing home with
  | nil =>
    rw [afterRemoval_nil]
    cases home with
    | nil =>
      simp only [List.nil_append, afterInsertion, afterRemoval, true_and]
      split_ifs <;> first | rfl | omega
    | cons k home =>
      rw [List.cons_append, List.nil_append, afterInsertion, afterRemoval_cons _ _ (by simp),
        afterRemoval_nil]
      simp
  | cons j parent ih =>
    rw [List.cons_append]
    cases home with
    | nil =>
      have hne : j ≠ own := fun h => hout (by simp [h])
      rw [List.nil_append, afterInsertion_cons _ _ (by simp), if_neg hne, afterRemoval,
        afterRemoval]
      simp
    | cons k home =>
      rw [List.cons_append] at hout ⊢
      rw [afterInsertion_cons _ _ (by simp), afterRemoval_cons _ _ (by simp)]
      by_cases hjk : j = k
      · subst hjk
        have hout : ¬ home ++ [own] <+: parent :=
          fun h => hout (List.cons_prefix_cons.2 ⟨rfl, h⟩)
        rw [if_pos rfl, if_pos rfl,
          afterRemoval_cons _ _ (afterInsertion_ne_nil _ (by simp)), if_pos rfl, ih hout]
        simp
      · rw [if_neg hjk, if_neg (Ne.symm hjk), afterRemoval_cons _ _ (by simp),
          if_neg (Ne.symm hjk)]
        simp [Ne.symm hjk]

end Path

namespace Node

/-- A node with a list of children, which is empty if there was none. -/
def listed (n : Node) : Node := n.withItems fun items => items

/-- A node with another one in its list of children, at a position. -/
def putChild (i : Nat) (c n : Node) : Node := n.withItems fun items => items.insertIdx i (.node c)

/-- What is left of the node at a path when the entry at `removed`, which may lie below it, is taken
out of the tree. -/
def remnant? (n : Node) (path removed : Path) : Option Node :=
  if path <+: removed then n.eraseItem? (removed.drop path.length) else some n

/-- Carry a node in a tree that is changed step by step. A step that fails leaves the tree as the
steps before it have made it; the result is the new path, if there is one, and the tree. -/
def relocateInPlace (tree : Node) (source parent : Path) (gap : Nat) : Option Path × Node :=
  match source.split?, tree.get? parent, tree.get? source with
  | some (home, own), some _, some node =>
    if source.isPrefixOf parent then (none, tree)
    else
      match tree.eraseItem? source with
      | none => (none, tree)
      | some rest =>
        let target := Path.afterRemoval source parent
        let i := if home = target ∧ own < gap then gap - 1 else gap
        -- the tree has lost the node by now
        match rest.get? target, rest.insertChild? target i node with
        | some left, some new => (some (target ++ [min i left.items.length]), new)
        | _, _ => (none, rest)
  | _, _, _ => (none, tree)

variable {tree new rest n m c d node target left : Node} {path parent home source place : Path}
  {i j own gap : Nat}

/-! ### What is left of a node -/

theorem remnant?_of_outside (h : ¬ path <+: source) : n.remnant? path source = some n :=
  if_neg h

theorem remnant?_append (n : Node) (path below : Path) :
    n.remnant? path (path ++ below) = n.eraseItem? below := by
  rw [remnant?, if_pos (List.prefix_append path below), List.drop_left]

/-- **What is left of a node is found at the shifted path.** -/
theorem get?_eraseItem? (hrest : tree.eraseItem? (home ++ [own]) = some rest)
    (hm : tree.get? path = some m) (hout : ¬ home ++ [own] <+: path) :
    rest.get? (Path.afterRemoval (home ++ [own]) path) = m.remnant? path (home ++ [own]) ∧
      ∃ left, m.remnant? path (home ++ [own]) = some left := by
  by_cases habove : path <+: home
  · -- above the node that is taken out
    obtain ⟨below, rfl⟩ := habove
    rw [List.append_assoc, remnant?_append]
    rw [List.append_assoc, ← List.append_assoc, eraseItem?_concat] at hrest
    obtain ⟨left, hleft, hget⟩ := exists_of_modify?_append hrest hm
    rw [Path.afterRemoval_append path (by simp), hget, eraseItem?_concat, hleft]
    exact ⟨rfl, left, rfl⟩
  · have hbeside : ¬ path <+: home ++ [own] := by
      intro h
      rcases List.prefix_concat_iff.1 h with rfl | h
      · exact hout (List.prefix_refl _)
      · exact habove h
    rw [remnant?_of_outside hbeside, get?_of_eraseItem? hrest hm hout hbeside]
    exact ⟨rfl, m, rfl⟩

/-! ### Putting in and taking out -/

/-- **An entry that has been put in is taken out again.** What remains of it is the list, where
there was none. -/
theorem eraseItem?_of_insertChild? (hnew : tree.insertChild? parent i c = some new)
    (hparent : tree.get? parent = some n) (hi : i ≤ n.items.length) :
    new.eraseItem? (parent ++ [i]) = tree.modify? listed parent := by
  have htwice : (n.withItems fun items => items.insertIdx (min i items.length) (.node c)).modify?
      (withItems fun items => items.eraseIdx i) [] = some n.listed := by
    rw [modify?, withItems_withItems]
    refine congrArg some (withItems_congr ?_)
    rw [Nat.min_eq_left hi, List.eraseIdx_insertIdx_self]
  rw [eraseItem?_concat]
  have htrees := modify?_append hnew hparent htwice
  rwa [List.append_nil] at htrees

/-! ### The order of putting in and taking out -/

theorem child?_putChild (h : n.child? j = some d) (i : Nat) (c : Node) :
    (putChild i c n).child? (if i ≤ j then j + 1 else j) = some d := by
  rw [← h, child?, putChild, items_withItems, getElem?_insertIdx_shift, child?]

theorem eraseIdx_putChild (h : own < n.items.length) (c : Node) :
    (putChild gap c n).withItems
        (fun items => items.eraseIdx (if gap ≤ own then own + 1 else own)) =
      putChild (if own < gap then gap - 1 else gap) c
        (n.withItems fun items => items.eraseIdx own) := by
  rw [putChild, putChild, withItems_withItems, withItems_withItems]
  exact withItems_congr (eraseIdx_insertIdx_shift h _)

theorem setItem_putChild (n c : Node) (item : ChildItem) :
    (putChild gap c n).setItem (if gap ≤ i then i + 1 else i) item =
      putChild gap c (n.setItem i item) := by
  rw [putChild, putChild, setItem, setItem, withItems_withItems, withItems_withItems]
  exact withItems_congr (set_insertIdx_shift _ _)

theorem eraseIdx_setItem (h : own ≠ j) (n : Node) (item : ChildItem) :
    (n.setItem j item).withItems (fun items => items.eraseIdx own) =
      (n.withItems fun items => items.eraseIdx own).setItem
        (if own < j then j - 1 else j) item := by
  rw [setItem, setItem, withItems_withItems, withItems_withItems]
  exact withItems_congr (eraseIdx_set_shift h _)

theorem setItem_comm (h : i ≠ j) (n : Node) (a b : ChildItem) :
    (n.setItem i a).setItem j b = (n.setItem j b).setItem i a := by
  rw [setItem, setItem, setItem, setItem, withItems_withItems, withItems_withItems]
  exact withItems_congr (List.set_comm a b h)

theorem eraseItem?_cons_of_ne_nil (h : path ≠ []) : tree.eraseItem? (i :: path) = some rest ↔
    ∃ c changed, tree.child? i = some c ∧ c.eraseItem? path = some changed ∧
      tree.setItem i (.node changed) = rest := by
  obtain ⟨home, own, rfl⟩ := path.eq_nil_or_concat'.resolve_left h
  exact eraseItem?_cons_eq_some_iff

/-- **A node may be put in first and taken out afterwards.** The gap is one of the list as it
was. -/
theorem exists_putChild_eraseItem? (htarget : tree.get? parent = some target)
    (hnode : tree.get? (home ++ [own]) = some c) (hout : ¬ home ++ [own] <+: parent)
    (hrest : tree.eraseItem? (home ++ [own]) = some rest)
    (hnew : rest.modify? (putChild (if home = parent ∧ own < gap then gap - 1 else gap) node)
      (Path.afterRemoval (home ++ [own]) parent) = some new) :
    ∃ both, tree.modify? (putChild gap node) parent = some both ∧
      both.eraseItem? (Path.afterInsertion (parent ++ [gap]) (home ++ [own])) = some new := by
  induction parent generalizing tree home rest new with
  | nil =>
    refine ⟨putChild gap node tree, rfl, ?_⟩
    cases home with
    | nil =>
      -- both in the list of the root
      rw [List.nil_append, eraseItem?_singleton] at hrest
      obtain rfl := Option.some.inj hrest
      obtain rfl := Option.some.inj hnew
      obtain ⟨d, hd, -⟩ := Option.bind_eq_some_iff.1 hnode
      have hown : own < tree.items.length := lt_length_of_child? hd
      simpa [Path.afterInsertion, eraseItem?_singleton] using eraseIdx_putChild hown node
    | cons k home =>
      -- taken out below a child of the root
      obtain ⟨d, changed, hd, hchanged, rfl⟩ := eraseItem?_cons_eq_some_iff.1 hrest
      rw [Path.afterRemoval_nil, if_neg (by simp)] at hnew
      obtain rfl := Option.some.inj hnew
      refine eraseItem?_cons_eq_some_iff.2 ⟨d, changed, child?_putChild hd gap node, hchanged, ?_⟩
      simpa using setItem_putChild tree node (.node changed)
  | cons j parent ih =>
    obtain ⟨d, hd, hbelow⟩ := Option.bind_eq_some_iff.1 htarget
    cases home with
    | nil =>
      -- taken out beside a node on the way
      have hne : own ≠ j := fun h => hout (by simp [h])
      rw [List.nil_append, eraseItem?_singleton] at hrest
      obtain rfl := Option.some.inj hrest
      rw [List.nil_append, Path.afterRemoval] at hnew
      obtain ⟨e, changed, he, hchanged, rfl⟩ := modify?_cons_eq_some_iff.1 hnew
      obtain rfl := Option.some.inj (hd.symm.trans ((child?_eraseIdx hne).symm.trans he))
      refine ⟨tree.setItem j (.node changed),
        modify?_cons_eq_some_iff.2 ⟨d, changed, hd, by simpa using hchanged, rfl⟩, ?_⟩
      rw [List.nil_append, List.cons_append, Path.afterInsertion_cons _ _ (by simp),
        if_neg (Ne.symm hne), eraseItem?_singleton, eraseIdx_setItem hne]
    | cons k home =>
      obtain ⟨e, changed, he, hchanged, rfl⟩ := eraseItem?_cons_eq_some_iff.1 hrest
      rw [List.cons_append, Path.afterRemoval_cons _ _ (by simp)] at hnew
      rw [List.cons_append, List.cons_append, Path.afterInsertion_cons _ _ (by simp)]
      by_cases hkj : k = j
      · -- below the same child
        subst hkj
        obtain rfl := Option.some.inj (hd.symm.trans he)
        rw [if_pos rfl] at hnew ⊢
        obtain ⟨e, put, he, hput, rfl⟩ := modify?_cons_eq_some_iff.1 hnew
        obtain rfl := Option.some.inj ((child?_setItem hd changed).symm.trans he)
        rw [List.cons_append, get?, hd] at hnode
        obtain ⟨both, hboth, herased⟩ := ih hbelow hnode
          (fun h => hout (List.cons_prefix_cons.2 ⟨rfl, h⟩)) hchanged (by simpa using hput)
        refine ⟨tree.setItem k (.node both),
          modify?_cons_eq_some_iff.2 ⟨d, both, hd, hboth, rfl⟩, ?_⟩
        refine (eraseItem?_cons_of_ne_nil (Path.afterInsertion_ne_nil _ (by simp))).2
          ⟨both, put, child?_setItem hd both, herased, ?_⟩
        rw [setItem_setItem, setItem_setItem]
      · -- below two different children
        rw [if_neg hkj] at hnew
        rw [if_neg (Ne.symm hkj)]
        obtain ⟨f, put, hf, hput, rfl⟩ := modify?_cons_eq_some_iff.1 hnew
        rw [child?_setItem_of_ne hkj, hd] at hf
        obtain rfl := Option.some.inj hf
        refine ⟨tree.setItem j (.node put),
          modify?_cons_eq_some_iff.2 ⟨d, put, hd, by simpa [hkj] using hput, rfl⟩, ?_⟩
        refine (eraseItem?_cons_of_ne_nil (by simp)).2 ⟨e, changed, ?_, hchanged, ?_⟩
        · rw [child?_setItem_of_ne (Ne.symm hkj), he]
        · exact setItem_comm (Ne.symm hkj) tree (.node put) (.node changed)

/-! ### Carrying -/

theorem modify?_congr {f g : Node → Node} (hm : tree.get? path = some m) (h : f m = g m) :
    tree.modify? f path = tree.modify? g path := by
  induction path generalizing tree with
  | nil =>
    obtain rfl := Option.some.inj hm
    rw [modify?, modify?, h]
  | cons i path ih =>
    obtain ⟨d, hd, hbelow⟩ := Option.bind_eq_some_iff.1 hm
    rw [modify?, modify?, hd, Option.bind_some, Option.bind_some, ih hbelow]

theorem insertChild?_eq (hparent : tree.get? parent = some n) (i : Nat) (c : Node) :
    tree.insertChild? parent i c = tree.modify? (putChild (min i n.items.length) c) parent :=
  modify?_congr hparent rfl

theorem exists_putChild_of_relocate? (hnode : tree.get? (home ++ [own]) = some node)
    (htarget : tree.get? parent = some target) (hout : ¬ home ++ [own] <+: parent) (gap : Nat) :
    ∃ rest left i new, tree.eraseItem? (home ++ [own]) = some rest ∧
      rest.get? (Path.afterRemoval (home ++ [own]) parent) = some left ∧
      target.remnant? parent (home ++ [own]) = some left ∧
      i = (if home = parent ∧ own < min gap target.items.length
        then min gap target.items.length - 1 else min gap target.items.length) ∧
      i = min (if home = parent ∧ own < gap then gap - 1 else gap) left.items.length ∧
      rest.modify? (putChild i node) (Path.afterRemoval (home ++ [own]) parent) = some new ∧
      tree.relocate? (home ++ [own]) parent gap =
        some (new, Path.afterRemoval (home ++ [own]) parent ++ [i]) := by
  obtain ⟨rest, left, i, new, hrest, hleft, -, -, hi, -, hnew, hrelocate⟩ :=
    exists_relocate? hnode htarget hout gap
  obtain ⟨-, q, -, -, j, hq, -, -, hj, -, hplace⟩ := relocate?_eq_some_iff.1 hrelocate
  obtain rfl := Option.some.inj (htarget.symm.trans hq)
  obtain rfl : i = j := by simpa using hplace
  obtain ⟨left', hleft', -, -, hlength⟩ := exists_of_eraseItem? hrest hnode htarget hout
  obtain rfl := Option.some.inj (hleft.symm.trans hleft')
  have hremnant := (get?_eraseItem? hrest htarget hout).1.symm.trans hleft
  rw [insertChild?_eq hleft, Nat.min_eq_left hi] at hnew
  refine ⟨rest, left, i, new, hrest, hleft, hremnant, hj, ?_, hnew, hrelocate⟩
  by_cases hsame : home = parent
  · -- the list is one shorter by then
    have hown : own < target.items.length := by
      rw [hsame, get?_concat, htarget] at hnode
      exact lt_length_of_child? hnode
    simp only [hsame, true_and, if_true] at hj hlength ⊢
    split_ifs at hj ⊢ <;> omega
  · simp only [hsame, false_and, if_false] at hj hlength ⊢
    omega

theorem relocate?_eq_none_iff :
    tree.relocate? source parent gap = none ↔
      source = [] ∨ source <+: parent ∨ tree.get? source = none ∨ tree.get? parent = none := by
  rcases source.eq_nil_or_concat' with rfl | ⟨home, own, rfl⟩
  · exact ⟨fun _ => .inl rfl, fun _ => rfl⟩
  · constructor
    · intro h
      by_contra hmovable
      push Not at hmovable
      obtain ⟨-, hout, hnode, htarget⟩ := hmovable
      obtain ⟨node, hnode⟩ := Option.ne_none_iff_exists'.1 hnode
      obtain ⟨target, htarget⟩ := Option.ne_none_iff_exists'.1 htarget
      obtain ⟨_, _, _, _, -, -, -, -, -, -, hrelocate⟩ :=
        exists_putChild_of_relocate? hnode htarget hout gap
      rw [h] at hrelocate
      cases hrelocate
    · intro h
      refine Option.eq_none_iff_forall_ne_some.2 fun ⟨new, place⟩ hrelocate => ?_
      obtain ⟨hout, target, node, -, -, htarget, hnode, -⟩ := relocate?_eq_some_iff.1 hrelocate
      simp [hout, htarget, hnode] at h

/-- **A node is never lost on the way.** The steps of carrying a node fail before anything is taken
out, or not at all. -/
theorem relocateInPlace_eq (tree : Node) (source parent : Path) (gap : Nat) :
    tree.relocateInPlace source parent gap =
      match tree.relocate? source parent gap with
      | some (new, place) => (some place, new)
      | none => (none, tree) := by
  rcases source.eq_nil_or_concat' with rfl | ⟨home, own, rfl⟩
  · rfl
  · rw [relocateInPlace, Path.split?_eq_some_iff.2 rfl]
    cases htarget : tree.get? parent with
    | none => rw [relocate?_eq_none_iff.2 (.inr (.inr (.inr htarget)))]
    | some target =>
      cases hnode : tree.get? (home ++ [own]) with
      | none => rw [relocate?_eq_none_iff.2 (.inr (.inr (.inl hnode)))]
      | some node =>
        by_cases hout : home ++ [own] <+: parent
        · simp [relocate?_eq_none_iff.2 (.inr (.inl hout)), hout]
        · obtain ⟨rest, left, i, new, hrest, hleft, -, -, hi, hnew, hrelocate⟩ :=
            exists_putChild_of_relocate? hnode htarget hout gap
          have hsame : home = Path.afterRemoval (home ++ [own]) parent ↔ home = parent := by
            rw [eq_comm, Path.afterRemoval_eq_iff, eq_comm]
          have hput :=
            insertChild?_eq hleft (if home = parent ∧ own < gap then gap - 1 else gap) node
          rw [← hi, hnew] at hput
          simp only [List.isPrefixOf_iff_prefix, hout, if_false, hrest, hrelocate, hleft, hsame,
            hput, ← hi]

/-- What it means that the node at `source` has been carried to a gap in the children of the node at
`parent`. The tree `new` holds it at `place`: the node was `node`, it was given to `target`, of
which the removal leaves `left`, and it stands at position `i` there. -/
structure Relocation (tree : Node) (source parent : Path) (gap : Nat) (new : Node) (place : Path)
    (node target left : Node) (i : Nat) : Prop where
  node_eq : tree.get? source = some node
  target_eq : tree.get? parent = some target
  left_eq : target.remnant? parent source = some left
  place_eq : place = Path.afterRemoval source parent ++ [i]
  /-- the node is at its new place -/
  carried : new.get? place = some node
  /-- taken out there or taken out of its old place, it leaves the same tree, in which the node that
  it was given to has a list -/
  others : ∃ rest, tree.eraseItem? source = some rest ∧
    new.eraseItem? place = rest.modify? listed (Path.afterRemoval source parent)
  /-- it stands in the list of what is left of the node it was given to -/
  list : i ≤ left.items.length ∧
    new.get? (Path.afterRemoval source parent) = some (putChild i node left)
  /-- it stands in the gap of the list as it was, at its end if it was shorter: put in there, and
  taken out of its old place afterwards, it leaves the same tree -/
  gap_eq : ∃ both, tree.modify? (putChild (min gap target.items.length) node) parent = some both ∧
    both.eraseItem? (Path.afterInsertion (parent ++ [min gap target.items.length]) source) =
      some new ∧
    place = Path.afterRemoval
      (Path.afterInsertion (parent ++ [min gap target.items.length]) source)
      (parent ++ [min gap target.items.length])

theorem exists_relocation (hnode : tree.get? (home ++ [own]) = some node)
    (htarget : tree.get? parent = some target) (hout : ¬ home ++ [own] <+: parent) (gap : Nat) :
    ∃ new place left i, tree.relocate? (home ++ [own]) parent gap = some (new, place) ∧
      Relocation tree (home ++ [own]) parent gap new place node target left i := by
  obtain ⟨rest, left, i, new, hrest, hleft, hremnant, hgap, hend, hnew, hrelocate⟩ :=
    exists_putChild_of_relocate? hnode htarget hout gap
  have hi : i ≤ left.items.length := hend ▸ Nat.min_le_right _ _
  have hinsert :
      rest.insertChild? (Path.afterRemoval (home ++ [own]) parent) i node = some new := by
    rw [insertChild?_eq hleft, Nat.min_eq_left hi, hnew]
  refine ⟨new, _, left, i, hrelocate, ?_⟩
  exact {
    node_eq := hnode
    target_eq := htarget
    left_eq := hremnant
    place_eq := rfl
    carried := get?_of_insertChild? hinsert hleft hi
    others := ⟨rest, hrest, eraseItem?_of_insertChild? hinsert hleft hi⟩
    list := by
      refine ⟨hi, ?_⟩
      rw [get?_of_modify? hnew, hleft, Option.map_some]
    gap_eq := by
      rw [hgap] at hnew
      obtain ⟨both, hboth, herased⟩ :=
        exists_putChild_eraseItem? htarget hnode hout hrest hnew
      refine ⟨both, hboth, herased, ?_⟩
      rw [Path.afterRemoval_afterInsertion _ hout, hgap] }

/-- **Carrying a node is exact.** It is refused if and only if the path is that of the root, the
node would go into its own tree, or there is no node at one of the paths; the tree stays as it is
then. Otherwise the node is carried. -/
theorem relocate?_exact (tree : Node) (source parent : Path) (gap : Nat) :
    (tree.relocate? source parent gap = none ↔
      source = [] ∨ source <+: parent ∨ tree.get? source = none ∨ tree.get? parent = none) ∧
    (tree.relocate? source parent gap = none ∧
        tree.relocateInPlace source parent gap = (none, tree) ∨
      ∃ new place node target left i, tree.relocate? source parent gap = some (new, place) ∧
        tree.relocateInPlace source parent gap = (some place, new) ∧
        Relocation tree source parent gap new place node target left i) := by
  refine ⟨relocate?_eq_none_iff, ?_⟩
  rw [relocateInPlace_eq]
  cases hrelocate : tree.relocate? source parent gap with
  | none => exact .inl ⟨rfl, rfl⟩
  | some carried =>
    have hmovable := mt relocate?_eq_none_iff.2 (by rw [hrelocate]; simp)
    push Not at hmovable
    obtain ⟨hroot, hout, hnode, htarget⟩ := hmovable
    obtain ⟨node, hnode⟩ := Option.ne_none_iff_exists'.1 hnode
    obtain ⟨target, htarget⟩ := Option.ne_none_iff_exists'.1 htarget
    obtain ⟨home, own, rfl⟩ := source.eq_nil_or_concat'.resolve_left hroot
    obtain ⟨new, place, left, i, hnew, hrelocation⟩ := exists_relocation hnode htarget hout gap
    obtain rfl := Option.some.inj (hrelocate.symm.trans hnew)
    exact .inr ⟨new, place, node, target, left, i, rfl, rfl, hrelocation⟩

/-- Behind the second of three entries, the first one comes second. -/
example : (Node.relocate?
    { element := {
        type := "ul", children := some [.node { element := { type := "li" } }, .text "b",
          .text "c"] } } [0] [] 2).map Prod.snd = some [1] := rfl

end Node

end SchemaCanvas
