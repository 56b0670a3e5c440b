import SchemaCanvas.Proofs.Edit.Surgery

/-!
# Where nodes land

The paths of an edited tree, in terms of those before: what taking out, putting in, exchanging and
carrying a node does to the node at a path.

* `Node.exists_of_eraseItem?` : a node outside the one taken out is found at the shifted path;
* `Node.exists_of_get?_eraseItem?` : nothing else is found;
* `Node.get?_of_insertChild?` : a node that is put in is found where it was put;
* `Node.get?_of_relocate?` : a carried node is found at the path that is given for it;
* `Node.get?_of_swapChildren` : so are nodes that are exchanged.
-/

namespace SchemaCanvas

theorem set_insertIdx_self {α : Type} (l : List α) (i : Nat) (a b : α) :
    (l.insertIdx i a).set i b = l.insertIdx i b := by
  induction l generalizing i with
  | nil => cases i <;> rfl
  | cons x l ih =>
    cases i with
    | zero => rfl
    | succ i => simp [ih]

namespace Path

theorem afterRemoval_cons {source path : Path} (i j : Nat) (h : source ≠ []) :
    afterRemoval (i :: source) (j :: path) =
      if i = j then j :: afterRemoval source path else j :: path := by
  cases source with
  | nil => exact absurd rfl h
  | cons k source => rfl

theorem afterRemoval_append {below : Path} (path : Path) (h : below ≠ []) :
    afterRemoval (path ++ below) path = path := by
  induction path with
  | nil =>
    obtain ⟨i, rest, rfl⟩ := List.exists_cons_of_ne_nil h
    cases rest <;> rfl
  | cons j path ih => rw [List.cons_append, afterRemoval_cons _ _ (by simp [h]), if_pos rfl, ih]

end Path

namespace Node

variable {tree new rest n m c node target : Node} {f g : Node → Node}
  {path parent home place : Path} {i j own gap : Nat}

/-! ### Changes along a path -/

theorem items_setItem (i : Nat) (item : ChildItem) (n : Node) :
    (n.setItem i item).items = n.items.set i item := rfl

theorem child?_setItem_of_ne (h : i ≠ j) : (n.setItem i (.node c)).child? j = n.child? j := by
  rw [child?, items_setItem, List.getElem?_set_ne h, child?]

theorem withItems_withItems (f g : List ChildItem → List ChildItem) (n : Node) :
    (n.withItems f).withItems g = n.withItems fun items => g (f items) := rfl

theorem withItems_congr {f g : List ChildItem → List ChildItem} (h : f n.items = g n.items) :
    n.withItems f = n.withItems g := by
  unfold withItems withElement Element.withItems
  rw [show f n.element.items = g n.element.items from h]

theorem setItem_setItem (i : Nat) (a b : ChildItem) (n : Node) :
    (n.setItem i a).setItem i b = n.setItem i b := by
  rw [setItem, setItem, withItems_withItems, setItem]
  exact withItems_congr (List.set_set a)

theorem modify?_cons_eq_some_iff : n.modify? f (i :: path) = some new ↔
    ∃ c changed, n.child? i = some c ∧ c.modify? f path = some changed ∧
      n.setItem i (.node changed) = new := by
  rw [modify?]
  constructor
  · intro h
    obtain ⟨c, hc, h⟩ := Option.bind_eq_some_iff.1 h
    obtain ⟨changed, hchanged, hnew⟩ := Option.map_eq_some_iff.1 h
    exact ⟨c, changed, hc, hchanged, hnew⟩
  · rintro ⟨c, changed, hc, hchanged, rfl⟩
    rw [hc, Option.bind_some, hchanged, Option.map_some]

/-- A change at a path is a change of every node above it, at the rest of the path. -/
theorem exists_of_modify?_append {p q : Path} (h : n.modify? f (p ++ q) = some new)
    (hm : n.get? p = some m) : ∃ m', m.modify? f q = some m' ∧ new.get? p = some m' := by
  induction p generalizing n new with
  | nil =>
    obtain rfl := Option.some.inj hm
    exact ⟨new, h, rfl⟩
  | cons i p ih =>
    obtain ⟨c, changed, hc, hchanged, rfl⟩ := modify?_cons_eq_some_iff.1 h
    rw [get?, hc] at hm
    obtain ⟨m', hm', hget⟩ := ih hchanged hm
    refine ⟨m', hm', ?_⟩
    rw [get?, child?_setItem hc]
    exact hget

theorem modify?_append {k : Node → Node} {p q : Path} (hnew : n.modify? f p = some new)
    (hm : n.get? p = some m) (hg : (f m).modify? g q = some (k m)) :
    new.modify? g (p ++ q) = n.modify? k p := by
  induction p generalizing n new with
  | nil =>
    obtain rfl := Option.some.inj hm
    obtain rfl := Option.some.inj hnew
    exact hg
  | cons i p ih =>
    obtain ⟨c, changed, hc, hchanged, rfl⟩ := modify?_cons_eq_some_iff.1 hnew
    rw [get?, hc] at hm
    rw [List.cons_append, modify?, child?_setItem hc, Option.bind_some, ih hchanged hm, modify?, hc,
      Option.bind_some]
    -- the child on the way is replaced twice
    exact congrArg (Option.map · _) (funext fun d => setItem_setItem i _ _ n)

theorem modify?_modify? (hnew : tree.modify? f path = some new) :
    new.modify? g path = tree.modify? (fun n => g (f n)) path := by
  obtain ⟨m, hm⟩ := exists_get?_of_modify? hnew
  have htwice := modify?_append (g := g) (k := fun n => g (f n)) (q := []) hnew hm rfl
  rwa [List.append_nil] at htwice

/-- Outside a change every place has the id it had. -/
theorem exists_of_get?_modify? (hnew : tree.modify? f path = some new)
    (hm : new.get? place = some m) (hout : ¬ path <+: place) :
    ∃ m', tree.get? place = some m' ∧ m'.id = m.id := by
  induction path generalizing tree new place with
  | nil => exact absurd List.nil_prefix hout
  | cons i path ih =>
    obtain ⟨c, changed, hc, hchanged, rfl⟩ := modify?_cons_eq_some_iff.1 hnew
    cases place with
    | nil =>
      obtain rfl := Option.some.inj hm
      exact ⟨tree, rfl, rfl⟩
    | cons j place =>
      obtain ⟨d, hd, hbelow⟩ := Option.bind_eq_some_iff.1 hm
      by_cases hij : i = j
      · -- towards the change
        subst hij
        rw [child?_setItem hc] at hd
        obtain rfl := Option.some.inj hd
        obtain ⟨m', hm', hid⟩ :=
          ih hchanged hbelow fun h => hout (List.cons_prefix_cons.2 ⟨rfl, h⟩)
        refine ⟨m', ?_, hid⟩
        rw [get?, hc]
        exact hm'
      · rw [child?_setItem_of_ne hij] at hd
        refine ⟨m, ?_, rfl⟩
        rw [get?, hd]
        exact hbelow

/-! ### Taking out -/

theorem eraseItem?_concat (tree : Node) (home : Path) (own : Nat) :
    tree.eraseItem? (home ++ [own]) =
      tree.modify? (withItems fun items => items.eraseIdx own) home := by
  rw [eraseItem?, Path.split?_eq_some_iff.2 rfl]
  rfl

theorem eraseItem?_singleton (tree : Node) (i : Nat) :
    tree.eraseItem? [i] = some (tree.withItems fun items => items.eraseIdx i) := rfl

theorem eraseItem?_cons_eq_some_iff : tree.eraseItem? (i :: (home ++ [own])) = some rest ↔
    ∃ c changed, tree.child? i = some c ∧ c.eraseItem? (home ++ [own]) = some changed ∧
      tree.setItem i (.node changed) = rest := by
  rw [← List.cons_append, eraseItem?_concat, modify?_cons_eq_some_iff]
  simp only [eraseItem?_concat]

theorem child?_eraseIdx (h : i ≠ j) :
    (n.withItems fun items => items.eraseIdx i).child? (if i < j then j - 1 else j) =
      n.child? j := by
  have hshift : (n.items.eraseIdx i)[if i < j then j - 1 else j]? = n.items[j]? := by
    rw [List.getElem?_eraseIdx]
    by_cases hlt : i < j
    · rw [if_pos hlt, if_neg (by omega), Nat.sub_add_cancel (by omega)]
    · rw [if_neg hlt, if_pos (by omega)]
  rw [child?, items_withItems, hshift, child?]

theorem get?_of_eraseItem? (hrest : tree.eraseItem? (home ++ [own]) = some rest)
    (hm : tree.get? path = some m) (hout : ¬ home ++ [own] <+: path)
    (hbeside : ¬ path <+: home ++ [own]) :
    rest.get? (Path.afterRemoval (home ++ [own]) path) = some m := by
  induction home generalizing tree rest path with
  | nil =>
    cases path with
    | nil => exact absurd List.nil_prefix hbeside
    | cons j path =>
      have hne : own ≠ j := fun h => hout (by simp [h])
      obtain ⟨c, hc, hbelow⟩ := Option.bind_eq_some_iff.1 hm
      rw [List.nil_append, eraseItem?_singleton] at hrest
      obtain rfl := Option.some.inj hrest
      rw [List.nil_append, Path.afterRemoval, get?, child?_eraseIdx hne, hc]
      exact hbelow
  | cons i home ih =>
    cases path with
    | nil => exact absurd List.nil_prefix hbeside
    | cons j path =>
      obtain ⟨c, hc, hbelow⟩ := Option.bind_eq_some_iff.1 hm
      obtain ⟨d, changed, hd, hchanged, rfl⟩ := eraseItem?_cons_eq_some_iff.1 hrest
      rw [List.cons_append] at hout hbeside ⊢
      rw [Path.afterRemoval_cons _ _ (by simp)]
      by_cases hij : i = j
      · -- the way goes through the child in which the node is taken out
        subst hij
        obtain rfl := Option.some.inj (hc.symm.trans hd)
        rw [if_pos rfl, get?, child?_setItem hc]
        refine ih hchanged hbelow (fun h => hout ?_) fun h => hbeside ?_
        · exact List.cons_prefix_cons.2 ⟨rfl, h⟩
        · exact List.cons_prefix_cons.2 ⟨rfl, h⟩
      · rw [if_neg hij, get?, child?_setItem_of_ne hij, hc]
        exact hbelow

theorem root_of_eraseItem? (hrest : tree.eraseItem? (home ++ [own]) = some rest)
    (hnode : tree.get? (home ++ [own]) = some node) :
    rest.id = tree.id ∧ rest.type = tree.type ∧
      rest.items.length = if home = [] then tree.items.length - 1 else tree.items.length := by
  rw [eraseItem?_concat] at hrest
  cases home with
  | nil =>
    obtain rfl := Option.some.inj hrest
    obtain ⟨c, hc, -⟩ := Option.bind_eq_some_iff.1 hnode
    refine ⟨rfl, rfl, ?_⟩
    rw [items_withItems, if_pos rfl, List.length_eraseIdx_of_lt (lt_length_of_child? hc)]
  | cons i home =>
    obtain ⟨c, changed, -, -, rfl⟩ := modify?_cons_eq_some_iff.1 hrest
    refine ⟨rfl, rfl, ?_⟩
    rw [items_setItem, List.length_set, if_neg (List.cons_ne_nil i home)]

/-- **A node outside the one taken out is still there,** at the shifted path. If the list of
children from which a node is taken is its own, it is one shorter. -/
theorem exists_of_eraseItem? (hrest : tree.eraseItem? (home ++ [own]) = some rest)
    (hnode : tree.get? (home ++ [own]) = some node) (hm : tree.get? path = some m)
    (hout : ¬ home ++ [own] <+: path) :
    ∃ left, rest.get? (Path.afterRemoval (home ++ [own]) path) = some left ∧ left.id = m.id ∧
      left.type = m.type ∧
      left.items.length = if home = path then m.items.length - 1 else m.items.length := by
  by_cases habove : path <+: home
  · -- above the node that is taken out
    obtain ⟨below, rfl⟩ := habove
    rw [List.append_assoc] at hrest hnode ⊢
    rw [get?_append, hm, Option.bind_some] at hnode
    rw [← List.append_assoc, eraseItem?_concat] at hrest
    obtain ⟨left, hleft, hget⟩ := exists_of_modify?_append hrest hm
    rw [← eraseItem?_concat] at hleft
    obtain ⟨hid, htype, hlength⟩ := root_of_eraseItem? hleft hnode
    refine ⟨left, ?_, hid, htype, ?_⟩
    · rw [Path.afterRemoval_append path (by simp), hget]
    · simpa using hlength
  · have hbeside : ¬ path <+: home ++ [own] := by
      intro h
      rcases List.prefix_concat_iff.1 h with rfl | h
      · exact hout (List.prefix_refl _)
      · exact habove h
    refine ⟨m, get?_of_eraseItem? hrest hm hout hbeside, rfl, rfl, ?_⟩
    have hne : home ≠ path := by
      rintro rfl
      exact habove (List.prefix_refl home)
    rw [if_neg hne]

/-- **Nothing new is found where a node has been taken out.** -/
theorem exists_of_get?_eraseItem? (hrest : tree.eraseItem? (home ++ [own]) = some rest)
    (hm : rest.get? path = some m) : ∃ path' m', tree.get? path' = some m' ∧ m'.id = m.id := by
  induction home generalizing tree rest path with
  | nil =>
    rw [List.nil_append, eraseItem?_singleton] at hrest
    obtain rfl := Option.some.inj hrest
    cases path with
    | nil =>
      obtain rfl := Option.some.inj hm
      exact ⟨[], tree, rfl, rfl⟩
    | cons j path =>
      obtain ⟨c, hc, hbelow⟩ := Option.bind_eq_some_iff.1 hm
      have hchild : tree.child? (if j < own then j else j + 1) = some c := by
        rw [child?, ← hc, child?, items_withItems, List.getElem?_eraseIdx]
        congr 1
        split_ifs <;> rfl
      refine ⟨(if j < own then j else j + 1) :: path, m, ?_, rfl⟩
      rw [get?, hchild]
      exact hbelow
  | cons i home ih =>
    obtain ⟨d, changed, hd, hchanged, rfl⟩ := eraseItem?_cons_eq_some_iff.1 hrest
    cases path with
    | nil =>
      obtain rfl := Option.some.inj hm
      exact ⟨[], tree, rfl, rfl⟩
    | cons j path =>
      obtain ⟨c, hc, hbelow⟩ := Option.bind_eq_some_iff.1 hm
      by_cases hij : i = j
      · subst hij
        rw [child?_setItem hd] at hc
        obtain rfl := Option.some.inj hc
        obtain ⟨path', m', hget, hid⟩ := ih hchanged hbelow
        refine ⟨i :: path', m', ?_, hid⟩
        rw [get?, hd]
        exact hget
      · rw [child?_setItem_of_ne hij] at hc
        refine ⟨j :: path, m, ?_, rfl⟩
        rw [get?, hc]
        exact hbelow

theorem exists_eraseItem? (hnode : tree.get? (home ++ [own]) = some node) :
    ∃ rest, tree.eraseItem? (home ++ [own]) = some rest := by
  rw [get?_concat] at hnode
  obtain ⟨parent, hparent, -⟩ := Option.bind_eq_some_iff.1 hnode
  rw [eraseItem?_concat]
  exact exists_modify? _ hparent

/-! ### Putting in -/

theorem exists_insertChild? (c : Node) (i : Nat) (hparent : tree.get? parent = some n) :
    ∃ new, tree.insertChild? parent i c = some new := exists_modify? _ hparent

theorem child?_insertIdx (hi : i ≤ n.items.length) (c : Node) :
    (n.withItems fun items => items.insertIdx (min i items.length) (.node c)).child? i =
      some c := by
  rw [child?, items_withItems, Nat.min_eq_left hi, List.getElem?_insertIdx_self, if_pos hi]
  rfl

theorem get?_of_insertChild? (hnew : tree.insertChild? parent i c = some new)
    (hparent : tree.get? parent = some n) (hi : i ≤ n.items.length) :
    new.get? (parent ++ [i]) = some c := by
  rw [get?_concat, get?_of_modify? hnew, hparent, Option.map_some, Option.bind_some,
    child?_insertIdx hi]

theorem modify?_of_insertChild? (hnew : tree.insertChild? parent i c = some new)
    (hparent : tree.get? parent = some n) (hi : i ≤ n.items.length) (d : Node) :
    new.modify? (fun _ => d) (parent ++ [i]) = tree.insertChild? parent i d := by
  refine modify?_append hnew hparent ?_
  rw [modify?, child?_insertIdx hi, Option.bind_some, modify?, Option.map_some, setItem,
    withItems_withItems]
  refine congrArg some (withItems_congr ?_)
  rw [Nat.min_eq_left hi, set_insertIdx_self]

/-! ### Carrying -/

/-- A node is carried if the place is not in its own tree. It is taken out and put in at the gap,
which is one less if a sibling before it has been taken out. -/
theorem relocate?_eq_some_iff :
    tree.relocate? (home ++ [own]) parent gap = some (new, place) ↔
      ¬ home ++ [own] <+: parent ∧ ∃ target node rest i, tree.get? parent = some target ∧
        tree.get? (home ++ [own]) = some node ∧ tree.eraseItem? (home ++ [own]) = some rest ∧
        i = (if home = parent ∧ own < min gap target.items.length
          then min gap target.items.length - 1 else min gap target.items.length) ∧
        rest.insertChild? (Path.afterRemoval (home ++ [own]) parent) i node = some new ∧
        place = Path.afterRemoval (home ++ [own]) parent ++ [i] := by
  rw [relocate?, Path.split?_eq_some_iff.2 rfl]
  constructor
  · intro h
    obtain ⟨_, hsplit, h⟩ := Option.bind_eq_some_iff.1 h
    obtain rfl := Option.some.inj hsplit
    split_ifs at h with hin
    obtain ⟨target, htarget, h⟩ := Option.bind_eq_some_iff.1 h
    obtain ⟨node, hnode, h⟩ := Option.bind_eq_some_iff.1 h
    obtain ⟨rest, hrest, h⟩ := Option.bind_eq_some_iff.1 h
    obtain ⟨put, hput, h⟩ := Option.bind_eq_some_iff.1 h
    obtain ⟨rfl, rfl⟩ := Prod.mk.inj (Option.some.inj h)
    exact ⟨by simpa using hin, target, node, rest, _, htarget, hnode, hrest, rfl, hput, rfl⟩
  · rintro ⟨hout, target, node, rest, i, htarget, hnode, hrest, rfl, hput, rfl⟩
    have hin : ¬ (home ++ [own]).isPrefixOf parent = true := by simpa using hout
    simp only [Option.bind_eq_bind, Option.bind_some, if_neg hin, htarget, hnode, hrest, hput]

/-- **A node can be carried to every node outside its own tree.** What is left of that node gets it
at a position of its list, and behind all others if that was pointed at. -/
theorem exists_relocate? (hnode : tree.get? (home ++ [own]) = some node)
    (htarget : tree.get? parent = some target) (hout : ¬ home ++ [own] <+: parent) (gap : Nat) :
    ∃ rest left i new, tree.eraseItem? (home ++ [own]) = some rest ∧
      rest.get? (Path.afterRemoval (home ++ [own]) parent) = some left ∧ left.id = target.id ∧
      left.type = target.type ∧ i ≤ left.items.length ∧
      (target.items.length ≤ gap → i = left.items.length) ∧
      rest.insertChild? (Path.afterRemoval (home ++ [own]) parent) i node = some new ∧
      tree.relocate? (home ++ [own]) parent gap =
        some (new, Path.afterRemoval (home ++ [own]) parent ++ [i]) := by
  obtain ⟨rest, hrest⟩ := exists_eraseItem? hnode
  obtain ⟨left, hleft, hid, htype, hlength⟩ := exists_of_eraseItem? hrest hnode htarget hout
  have hown : home = parent → own < target.items.length := by
    rintro rfl
    rw [get?_concat, htarget] at hnode
    exact lt_length_of_child? hnode
  generalize hi : (if home = parent ∧ own < min gap target.items.length
    then min gap target.items.length - 1 else min gap target.items.length) = i
  obtain ⟨new, hnew⟩ := exists_insertChild? node i hleft
  have hrelocate := relocate?_eq_some_iff.2
    ⟨hout, target, node, rest, i, htarget, hnode, hrest, hi.symm, hnew, rfl⟩
  -- the list is one shorter if the node is taken out of it, and so is the gap at its end
  have hplace : i ≤ left.items.length ∧ (target.items.length ≤ gap → i = left.items.length) := by
    by_cases hsame : home = parent
    · have hlt := hown hsame
      simp only [hsame, true_and, if_true] at hi hlength
      split_ifs at hi <;> omega
    · simp only [hsame, false_and, if_false] at hi hlength
      omega
  exact ⟨rest, left, i, new, hrest, hleft, hid, htype, hplace.1, hplace.2, hnew, hrelocate⟩

/-- **A carried node is found at the path that is given for it.** -/
theorem get?_of_relocate? (h : tree.relocate? (home ++ [own]) parent gap = some (new, place)) :
    ∃ node, tree.get? (home ++ [own]) = some node ∧ new.get? place = some node := by
  obtain ⟨hout, target, node, -, -, htarget, hnode, -⟩ := relocate?_eq_some_iff.1 h
  obtain ⟨rest, left, i, new', hrest, hleft, -, -, hi, -, hnew, hrelocate⟩ :=
    exists_relocate? hnode htarget hout gap
  obtain ⟨rfl, rfl⟩ := Prod.mk.inj (Option.some.inj (h.symm.trans hrelocate))
  exact ⟨node, hnode, get?_of_insertChild? hnew hleft hi⟩

/-! ### Exchanging -/

theorem getElem?_swap {items : List ChildItem} (hi : i < items.length) (hj : j < items.length) :
    (ChildItem.swap i j items)[j]? = items[i]? := by
  rw [ChildItem.swap, List.getElem?_eq_getElem hi, List.getElem?_eq_getElem hj]
  simp [hj]

/-- **Exchanged nodes are found in each other's places.** -/
theorem get?_of_swapChildren (hnode : tree.get? (parent ++ [i]) = some node)
    (hpresent : (tree.swapChildren parent i j).2 = true) :
    (tree.swapChildren parent i j).1.get? (parent ++ [j]) = some node := by
  rw [get?_concat] at hnode
  obtain ⟨n, hn, hchild⟩ := Option.bind_eq_some_iff.1 hnode
  simp only [swapChildren, hn] at hpresent ⊢
  obtain ⟨hi, hj⟩ : i < n.items.length ∧ j < n.items.length := by simpa using hpresent
  obtain ⟨new, hnew⟩ := exists_modify? (withItems (ChildItem.swap i j)) hn
  rw [hnew, Option.getD_some, get?_concat, get?_of_modify? hnew, hn, Option.map_some,
    Option.bind_some, child?, items_withItems, getElem?_swap hi hj]
  exact hchild

end Node

end SchemaCanvas
