import Mathlib.Logic.Equiv.Basic
import SchemaCanvas.Proofs.Edit.Duplicate

/-!
# Exchanged siblings

A node moves past the nearest of its siblings that is a node, over whatever stands between them. The
two change places in the list and nothing else does, so the same siblings are nearest to each other
afterwards, and moving the other way exchanges them back. The node is looked up by its id for that:
it is found where it has been put if no other node has the id.

* `Edit.neighbour_childPositions_eq_ok_iff` : the sibling that is found is the nearest node;
* `ChildItem.getElem?_swap_eq` : what stands at a position after the exchange;
* `Edit.shift_eq_ok_iff_nearest` : what moving a node does;
* `Edit.shift_exact` : when a node can be moved, what is changed then, and that moving it back gives
  the tree back.
-/

namespace SchemaCanvas

/-- A direction leads from one position to another. -/
def Direction.Leads (d : Direction) (i j : Nat) : Prop := if d.isBackward then j < i else i < j

/-- The nearest position with a property in a direction. -/
structure Direction.Nearest (d : Direction) (p : Nat → Prop) (own other : Nat) : Prop where
  holds : p other
  leads : d.Leads own other
  between (j : Nat) : p j → d.Leads own j → ¬ d.Leads j other

theorem Direction.leads_opposite {d back : Direction} {i j : Nat}
    (h : back.isBackward = !d.isBackward) : back.Leads i j ↔ d.Leads j i := by
  rw [Leads, Leads, h]
  cases d.isBackward <;> rfl

theorem Direction.Nearest.opposite {d back : Direction} {p : Nat → Prop} {own other : Nat}
    (h : d.Nearest p own other) (hown : p own) (hback : back.isBackward = !d.isBackward) :
    back.Nearest p other own where
  holds := hown
  leads := (leads_opposite hback).2 h.leads
  between j hj hleads hpast :=
    h.between j hj ((leads_opposite hback).1 hpast) ((leads_opposite hback).1 hleads)

/-! ### Neighbours in a list -/

section

variable {l : List Nat} {i j : Nat}

theorem getLast?_eq_some_iff_of_lt (h : l.Pairwise (· < ·)) :
    l.getLast? = some i ↔ i ∈ l ∧ ∀ j ∈ l, ¬ i < j := by
  rcases l.eq_nil_or_concat' with rfl | ⟨front, last, rfl⟩
  · simp
  · have hfront : ∀ j ∈ front, j < last := by simpa using (List.pairwise_append.1 h).2.2
    rw [List.getLast?_concat, Option.some.injEq]
    constructor
    · rintro rfl
      refine ⟨by simp, fun j hj => ?_⟩
      rcases List.mem_append.1 hj with hj | hj
      · exact Nat.lt_asymm (hfront j hj)
      · rw [List.mem_singleton.1 hj]
        exact Nat.lt_irrefl last
    · rintro ⟨hi, hlargest⟩
      rcases List.mem_append.1 hi with hi | hi
      · exact absurd (hfront i hi) (hlargest last (by simp))
      · exact (List.mem_singleton.1 hi).symm

theorem head?_eq_some_iff_of_lt (h : l.Pairwise (· < ·)) :
    l.head? = some i ↔ i ∈ l ∧ ∀ j ∈ l, ¬ j < i := by
  cases l with
  | nil => simp
  | cons first rest =>
    have hrest : ∀ j ∈ rest, first < j := (List.pairwise_cons.1 h).1
    rw [List.head?_cons, Option.some.injEq]
    constructor
    · rintro rfl
      refine ⟨List.mem_cons_self, fun j hj => ?_⟩
      rcases List.mem_cons.1 hj with rfl | hj
      · exact Nat.lt_irrefl j
      · exact Nat.lt_asymm (hrest j hj)
    · rintro ⟨hi, hsmallest⟩
      rcases List.mem_cons.1 hi with rfl | hi
      · rfl
      · exact absurd (hrest i hi) (hsmallest first List.mem_cons_self)

end

namespace Edit

variable {siblings before after : List Nat} {own other : Nat} {direction : Direction}

theorem neighbour_append (h : own ∉ before) :
    neighbour (before ++ own :: after) own direction = .ok other ↔
      (if direction.isBackward then before.getLast? else after.head?) = some other := by
  have hindex : (before ++ own :: after).idxOf? own = some before.length := by
    refine List.idxOf?_eq_some_iff.2 ⟨by simp, by simp, fun j hj heq => h ?_⟩
    rw [List.getElem_append_left hj] at heq
    exact heq ▸ List.getElem_mem hj
  rw [neighbour]
  by_cases halone : (before ++ own :: after).length ≤ 1
  · have hlength : before.length = 0 ∧ after.length = 0 := by
      rw [List.length_append, List.length_cons] at halone
      omega
    obtain rfl := List.length_eq_zero_iff.1 hlength.1
    obtain rfl := List.length_eq_zero_iff.1 hlength.2
    rw [if_pos halone]
    simp
  · rw [if_neg halone, hindex]
    simp only [bind_eq_ok_iff, present_eq_ok_iff, Option.some.injEq, exists_eq_left']
    split_ifs with hback
    · rcases before.eq_nil_or_concat' with rfl | ⟨front, last, rfl⟩
      · simp
      · simp [present_eq_ok_iff]
    · rw [present_eq_ok_iff, List.getElem?_append_right (Nat.le_add_right _ 1),
        Nat.add_sub_cancel_left, List.getElem?_cons_succ, List.head?_eq_getElem?]

theorem mem_and_leads_iff (h : (before ++ own :: after).Pairwise (· < ·)) {j : Nat} :
    j ∈ before ++ own :: after ∧ direction.Leads own j ↔
      j ∈ if direction.isBackward then before else after := by
  obtain ⟨-, hafter, hbefore⟩ := List.pairwise_append.1 h
  have hlow : ∀ i ∈ before, i < own := fun i hi => hbefore i hi own List.mem_cons_self
  have hhigh : ∀ i ∈ after, own < i := (List.pairwise_cons.1 hafter).1
  rw [Direction.Leads, List.mem_append, List.mem_cons]
  constructor
  · rintro ⟨hj, hleads⟩
    split_ifs at hleads ⊢
    · rcases hj with hj | rfl | hj
      · exact hj
      · exact absurd hleads (Nat.lt_irrefl j)
      · exact absurd hleads (Nat.lt_asymm (hhigh j hj))
    · rcases hj with hj | rfl | hj
      · exact absurd hleads (Nat.lt_asymm (hlow j hj))
      · exact absurd hleads (Nat.lt_irrefl j)
      · exact hj
  · intro hj
    split_ifs at hj ⊢
    · exact ⟨.inl hj, hlow j hj⟩
    · exact ⟨.inr (.inr hj), hhigh j hj⟩

theorem exists_split_of_mem (h : siblings.Pairwise (· < ·)) (hown : own ∈ siblings) :
    ∃ before after, siblings = before ++ own :: after ∧ own ∉ before := by
  obtain ⟨before, after, rfl⟩ := List.append_of_mem hown
  have hbefore := (List.pairwise_append.1 h).2.2
  exact ⟨before, after, rfl, fun hmem => Nat.lt_irrefl own (hbefore own hmem own (by simp))⟩

/-- **The sibling that is found is the nearest one.** -/
theorem neighbour_eq_ok_iff (h : siblings.Pairwise (· < ·)) (hown : own ∈ siblings) :
    neighbour siblings own direction = .ok other ↔
      direction.Nearest (· ∈ siblings) own other := by
  obtain ⟨before, after, rfl, hbefore⟩ := exists_split_of_mem h hown
  have hsides := List.pairwise_append.1 h
  have hside : (if direction.isBackward then before.getLast? else after.head?) = some other ↔
      (other ∈ if direction.isBackward then before else after) ∧
        ∀ j ∈ if direction.isBackward then before else after, ¬ direction.Leads j other := by
    simp only [Direction.Leads]
    split_ifs
    · exact getLast?_eq_some_iff_of_lt hsides.1
    · exact head?_eq_some_iff_of_lt (List.pairwise_cons.1 hsides.2.1).2
  rw [neighbour_append hbefore, hside]
  simp only [← mem_and_leads_iff h]
  constructor
  · rintro ⟨⟨hmem, hleads⟩, hbetween⟩
    exact ⟨hmem, hleads, fun j hj hown => hbetween j ⟨hj, hown⟩⟩
  · rintro ⟨hmem, hleads, hbetween⟩
    exact ⟨⟨hmem, hleads⟩, fun j hj => hbetween j hj.1 hj.2⟩

theorem exists_neighbour_iff (h : siblings.Pairwise (· < ·)) (hown : own ∈ siblings) :
    (∃ other, neighbour siblings own direction = .ok other) ↔
      ∃ j, j ∈ siblings ∧ direction.Leads own j := by
  obtain ⟨before, after, rfl, hbefore⟩ := exists_split_of_mem h hown
  simp only [neighbour_append hbefore, mem_and_leads_iff h]
  split_ifs
  · rw [← Option.isSome_iff_exists, List.getLast?_isSome, ← List.length_pos_iff_exists_mem,
      List.length_pos_iff]
  · rw [← Option.isSome_iff_exists, List.isSome_head?, ← List.length_pos_iff_exists_mem,
      List.length_pos_iff]

end Edit

/-! ### Exchanged entries -/

namespace ChildItem

variable {items : List ChildItem} {i j : Nat}

theorem getElem?_swap_eq (hi : i < items.length) (hj : j < items.length) (k : Nat) :
    (swap i j items)[k]? = items[Equiv.swap i j k]? := by
  rw [swap, List.getElem?_eq_getElem hi, List.getElem?_eq_getElem hj, Equiv.swap_apply_def]
  dsimp only
  rw [List.getElem?_set, List.getElem?_set, List.length_set, if_pos hi, if_pos hj]
  by_cases hkj : j = k
  · subst hkj
    by_cases hji : j = i
    · subst hji
      rw [if_pos rfl, if_pos rfl, List.getElem?_eq_getElem hi]
    · rw [if_pos rfl, if_neg hji, if_pos rfl, List.getElem?_eq_getElem hi]
  · by_cases hki : i = k
    · subst hki
      rw [if_neg hkj, if_pos rfl, if_pos rfl, List.getElem?_eq_getElem hj]
    · rw [if_neg hkj, if_neg hki, if_neg (Ne.symm hki), if_neg (Ne.symm hkj)]

theorem swap_swap (hi : i < items.length) (hj : j < items.length) :
    swap j i (swap i j items) = items := by
  have hlength : (swap i j items).length = items.length := (Node.swap_perm i j items).length_eq
  refine List.ext_getElem? fun k => ?_
  rw [getElem?_swap_eq (hlength ▸ hj) (hlength ▸ hi), getElem?_swap_eq hi hj, Equiv.swap_comm j i,
    Equiv.swap_apply_self]

end ChildItem

namespace Node

/-- A node with two entries of its list exchanged. -/
structure Exchanged (i j : Nat) (n new : Node) : Prop where
  /-- nothing but the list changes -/
  rest : new = n.withItems fun _ => new.items
  /-- the two entries stand in each other's places -/
  entries (k : Nat) : new.items[k]? = n.items[Equiv.swap i j k]?
  /-- what is no node keeps its place -/
  others (k : Nat) (item : ChildItem) : item.node? = none →
    (new.items[k]? = some item ↔ n.items[k]? = some item)

/-- Only the node at a path has an id. -/
def OnlyAt (tree : Node) (id : String) (path : Path) : Prop :=
  ∀ place m, tree.get? place = some m → m.id = id → place = path

variable {tree new n m : Node} {f : Node → Node} {path parent : Path} {i j : Nat} {id : String}

/-! ### Two nodes of a list -/

theorem exchanged_swap (hi : (n.child? i).isSome) (hj : (n.child? j).isSome) :
    Exchanged i j n (n.withItems (ChildItem.swap i j)) := by
  obtain ⟨c, hc⟩ := Option.isSome_iff_exists.1 hi
  obtain ⟨d, hd⟩ := Option.isSome_iff_exists.1 hj
  have hentries := ChildItem.getElem?_swap_eq (lt_length_of_child? hc) (lt_length_of_child? hd)
  refine ⟨rfl, hentries, fun k item hitem => ?_⟩
  rw [items_withItems, hentries, Equiv.swap_apply_def]
  have hnode (a : Node) : some (ChildItem.node a) ≠ some item := by
    rintro h
    obtain rfl := Option.some.inj h
    cases hitem
  -- at the two positions there are nodes, before and after
  split_ifs with hki hkj
  · rw [hki, getElem?_of_child? hc, getElem?_of_child? hd]
    exact iff_of_false (hnode d) (hnode c)
  · rw [hkj, getElem?_of_child? hc, getElem?_of_child? hd]
    exact iff_of_false (hnode c) (hnode d)
  · rfl

theorem Exchanged.child? (h : Exchanged i j n m) (k : Nat) :
    m.child? k = n.child? (Equiv.swap i j k) := by
  rw [Node.child?, h.entries, Node.child?]

theorem Exchanged.id_eq (h : Exchanged i j n m) : m.id = n.id := by
  rw [h.rest]
  rfl

theorem Exchanged.isSome_child?_iff (h : Exchanged i j n m) (hi : (n.child? i).isSome)
    (hj : (n.child? j).isSome) (k : Nat) : (m.child? k).isSome ↔ (n.child? k).isSome := by
  rw [h.child?, Equiv.swap_apply_def]
  split_ifs with hki hkj
  · simp only [hki, hi, hj]
  · simp only [hkj, hi, hj]
  · rfl

theorem swapChildren_eq (hn : tree.get? parent = some n) (hi : (n.child? i).isSome)
    (hj : (n.child? j).isSome)
    (hnew : tree.modify? (withItems (ChildItem.swap i j)) parent = some new) :
    tree.swapChildren parent i j = (new, true) := by
  obtain ⟨c, hc⟩ := Option.isSome_iff_exists.1 hi
  obtain ⟨d, hd⟩ := Option.isSome_iff_exists.1 hj
  simp only [swapChildren, hn, hnew, Option.getD_some, lt_length_of_child? hc,
    lt_length_of_child? hd, decide_true, Bool.and_self]

/-! ### A node with an id of its own -/

theorem HasDistinctIds.onlyAt (h : tree.HasDistinctIds) (hm : tree.get? path = some m) :
    tree.OnlyAt m.id path := fun _ _ hn hid => h.eq_of_get? hn hm hid

theorem OnlyAt.pathOf?_eq (h : tree.OnlyAt id path) (hm : tree.get? path = some m)
    (hid : m.id = id) : tree.pathOf? id = some path := by
  obtain ⟨found, hfound⟩ := exists_pathOf?_iff.2 ⟨path, m, hm, hid⟩
  obtain ⟨n, hn, hn'⟩ := exists_get?_of_pathOf? hfound
  rw [hfound, h found n hn hn']

/-- **An id of its own goes with its node.** -/
theorem OnlyAt.of_exchanged (h : tree.OnlyAt id (parent ++ [i])) (hn : tree.get? parent = some n)
    (hnew : tree.modify? f parent = some new) (hexchanged : Exchanged i j n (f n)) :
    new.OnlyAt id (parent ++ [j]) := by
  intro place a ha hid
  by_cases hbelow : parent <+: place
  · obtain ⟨below, rfl⟩ := hbelow
    rw [get?_append, get?_of_modify? hnew, hn, Option.map_some, Option.bind_some] at ha
    cases below with
    | nil =>
      -- the parent has kept its id
      obtain rfl := Option.some.inj ha
      have habsurd := h parent n hn (hexchanged.id_eq ▸ hid)
      simp at habsurd
    | cons k below =>
      rw [get?, hexchanged.child?] at ha
      have hold : tree.get? (parent ++ Equiv.swap i j k :: below) = some a := by
        rw [get?_append, hn]
        exact ha
      obtain ⟨hk, rfl⟩ := List.cons.inj (List.append_cancel_left (h _ a hold hid))
      rw [Equiv.swap_apply_eq_iff, Equiv.swap_apply_left] at hk
      rw [hk]
  · obtain ⟨a', ha', hid'⟩ := exists_of_get?_modify? hnew ha hbelow
    obtain rfl := h place a' ha' (hid'.trans hid)
    exact absurd (List.prefix_append parent [i]) hbelow

end Node

/-! ### Moving a node past a sibling -/

namespace Edit

variable {tree home : Node} {sel : Selection} {parent : Path} {own other next : Nat}
  {direction : Direction} {e : Edit}

/-- The positions of nodes among which a neighbour is looked for. -/
theorem neighbour_childPositions_eq_ok_iff (hown : (home.child? own).isSome) :
    neighbour home.childPositions own direction = .ok other ↔
      direction.Nearest (fun j => (home.child? j).isSome) own other := by
  rw [neighbour_eq_ok_iff home.pairwise_childPositions (Node.mem_childPositions_iff.2 hown)]
  simp only [Node.mem_childPositions_iff]

theorem exists_home_of_locate? (h : sel.locate? tree = some (parent ++ [own])) :
    ∃ home node, tree.get? parent = some home ∧ home.child? own = some node ∧
      node.id = sel.id := by
  rw [sel.locate?_eq_pathOf?] at h
  obtain ⟨node, hnode, hid⟩ := Node.exists_get?_of_pathOf? h
  rw [Node.get?_concat] at hnode
  obtain ⟨home, hhome, hchild⟩ := Option.bind_eq_some_iff.1 hnode
  exact ⟨home, node, hhome, hchild, hid⟩

/-- **What moving a node does.** It is exchanged with the nearest node in the direction. -/
theorem shift_eq_ok_iff_nearest (hlocate : sel.locate? tree = some (parent ++ [own]))
    (hhome : tree.get? parent = some home) :
    shift next tree (some sel) direction = .ok e ↔
      ∃ other new, direction.Nearest (fun j => (home.child? j).isSome) own other ∧
        tree.modify? (Node.withItems (ChildItem.swap own other)) parent = some new ∧
        e = ⟨new, some ⟨sel.id, parent ++ [other]⟩, .move, next⟩ := by
  obtain ⟨home', node, hhome', hnode, hid⟩ := exists_home_of_locate? hlocate
  obtain rfl := Option.some.inj (hhome.symm.trans hhome')
  have hchild : (home.child? own).isSome := Option.isSome_iff_exists.2 ⟨node, hnode⟩
  have hget : tree.get? (parent ++ [own]) = some node := by
    rw [Node.get?_concat, hhome, Option.bind_some, hnode]
  -- the result for whatever neighbour is found
  have hresult (other : Nat) (new : Node) (hother : (home.child? other).isSome)
      (hnew : tree.modify? (Node.withItems (ChildItem.swap own other)) parent = some new) :
      tree.swapChildren parent own other = (new, true) ∧
        (new.idAt? (parent ++ [other])).getD "" = sel.id := by
    have hswap := Node.swapChildren_eq hhome hchild hother hnew
    have hplace := Node.get?_of_swapChildren (j := other) hget (by rw [hswap])
    rw [hswap] at hplace
    refine ⟨hswap, ?_⟩
    rw [Node.idAt?, hplace, Option.map_some, Option.getD_some, hid]
  rw [shift_eq_ok_iff]
  constructor
  · rintro ⟨parent', own', home', other, hfound, hhome', hneighbour, -, rfl⟩
    rw [Option.bind_some, hlocate, Option.some.injEq] at hfound
    obtain ⟨rfl, hown⟩ := List.append_inj' hfound rfl
    obtain rfl := List.singleton_injective hown
    obtain rfl := Option.some.inj (hhome.symm.trans hhome')
    have hnearest := (neighbour_childPositions_eq_ok_iff hchild).1 hneighbour
    obtain ⟨new, hnew⟩ := Node.exists_modify? (Node.withItems (ChildItem.swap own other)) hhome
    obtain ⟨hswap, hname⟩ := hresult other new hnearest.holds hnew
    refine ⟨other, new, hnearest, hnew, ?_⟩
    rw [hswap, hname]
  · rintro ⟨other, new, hnearest, hnew, rfl⟩
    obtain ⟨hswap, hname⟩ := hresult other new hnearest.holds hnew
    refine ⟨parent, own, home, other, hlocate, hhome,
      (neighbour_childPositions_eq_ok_iff hchild).2 hnearest, ?_, ?_⟩
    · rw [hswap]
    · rw [hswap, hname]

/-- **Moving a node back.** The nearest node is the one past which it has been moved. -/
theorem shift_back (next : Nat) {back : Direction} {new node : Node}
    (hhome : tree.get? parent = some home) (hnode : home.child? own = some node)
    (hid : node.id = sel.id) (honly : tree.OnlyAt sel.id (parent ++ [own]))
    (hnearest : direction.Nearest (fun j => (home.child? j).isSome) own other)
    (hnew : tree.modify? (Node.withItems (ChildItem.swap own other)) parent = some new)
    (hback : back.isBackward = !direction.isBackward) :
    shift next new (some ⟨sel.id, parent ++ [other]⟩) back =
      .ok ⟨tree, some ⟨sel.id, parent ++ [own]⟩, .move, next⟩ := by
  have hown : (home.child? own).isSome := Option.isSome_iff_exists.2 ⟨node, hnode⟩
  have hother := hnearest.holds
  have hexchanged := Node.exchanged_swap hown hother
  have hchanged : new.get? parent = some (home.withItems (ChildItem.swap own other)) := by
    rw [Node.get?_of_modify? hnew, hhome, Option.map_some]
  have hplace : new.get? (parent ++ [other]) = some node := by
    rw [Node.get?_concat, hchanged, Option.bind_some, hexchanged.child?, Equiv.swap_apply_right,
      hnode]
  have hlocate : Selection.locate? ⟨sel.id, parent ++ [other]⟩ new = some (parent ++ [other]) := by
    rw [Selection.locate?_eq_pathOf?]
    exact (honly.of_exchanged hhome hnew hexchanged).pathOf?_eq hplace hid
  refine (shift_eq_ok_iff_nearest hlocate hchanged).2 ⟨own, tree, ?_, ?_, rfl⟩
  · simp only [hexchanged.isSome_child?_iff hown hother]
    exact hnearest.opposite hown hback
  · obtain ⟨d, hd⟩ := Option.isSome_iff_exists.1 hother
    have hlength := Node.lt_length_of_child? hnode
    rw [Node.modify?_modify? hnew]
    refine Node.modify?_self hhome ?_
    rw [Node.withItems_withItems]
    exact Node.withItems_self (ChildItem.swap_swap hlength (Node.lt_length_of_child? hd))
      (List.ne_nil_of_length_pos (Nat.zero_lt_of_lt hlength))

/-- **Moving a node is an exchange with its neighbour, and is undone by moving it back.** A node
that is found below the root can be moved if there is another node in the direction in its list. It
changes places with the nearest one, and the rest of the tree stays. Moving it in an opposite
direction then gives the tree and the path back, if no other node has its id. -/
theorem shift_exact (next next' : Nat) (tree : Node) (sel : Selection) (direction : Direction)
    (parent : Path) (own : Nat) (hlocate : sel.locate? tree = some (parent ++ [own])) :
    ∃ home, tree.get? parent = some home ∧
      ((∃ moved, shift next tree (some sel) direction = .ok moved) ↔
        ∃ j, (home.child? j).isSome ∧ direction.Leads own j) ∧
      ∀ moved, shift next tree (some sel) direction = .ok moved →
        ∃ other changed, direction.Nearest (fun j => (home.child? j).isSome) own other ∧
          Node.Exchanged own other home changed ∧ moved.tree.get? parent = some changed ∧
          (∀ x, moved.tree.modify? (fun _ => x) parent = tree.modify? (fun _ => x) parent) ∧
          moved.selection = some ⟨sel.id, parent ++ [other]⟩ ∧
          (tree.OnlyAt sel.id (parent ++ [own]) →
            ∀ back : Direction, back.isBackward = !direction.isBackward →
              ∃ undone, shift next' moved.tree moved.selection back = .ok undone ∧
                undone.tree = tree ∧ undone.selection = some ⟨sel.id, parent ++ [own]⟩) := by
  obtain ⟨home, node, hhome, hchild, hid⟩ := exists_home_of_locate? hlocate
  have hown : (home.child? own).isSome := Option.isSome_iff_exists.2 ⟨node, hchild⟩
  refine ⟨home, hhome, ?_, fun moved hmoved => ?_⟩
  · have hneighbour : (∃ other, neighbour home.childPositions own direction = .ok other) ↔
        ∃ j, j ∈ home.childPositions ∧ direction.Leads own j :=
      exists_neighbour_iff home.pairwise_childPositions (Node.mem_childPositions_iff.2 hown)
    simp only [neighbour_childPositions_eq_ok_iff hown, Node.mem_childPositions_iff] at hneighbour
    rw [← hneighbour]
    simp only [shift_eq_ok_iff_nearest hlocate hhome]
    constructor
    · rintro ⟨moved, other, new, hnearest, -, -⟩
      exact ⟨other, hnearest⟩
    · rintro ⟨other, hnearest⟩
      obtain ⟨new, hnew⟩ := Node.exists_modify? (Node.withItems (ChildItem.swap own other)) hhome
      exact ⟨_, other, new, hnearest, hnew, rfl⟩
  · obtain ⟨other, new, hnearest, hnew, rfl⟩ := (shift_eq_ok_iff_nearest hlocate hhome).1 hmoved
    refine ⟨other, home.withItems (ChildItem.swap own other), hnearest,
      Node.exchanged_swap hown hnearest.holds, ?_, fun x => Node.modify?_modify? hnew, rfl,
      fun honly back hback => ?_⟩
    · rw [Node.get?_of_modify? hnew, hhome, Option.map_some]
    · exact ⟨_, shift_back next' hhome hchild hid honly hnearest hnew hback, rfl, rfl⟩

/-- Two rows with entries of other kinds around them. -/
def mixedRows : Node where
  element := {
    id := "rows", type := "ul"
    children := some [.text "x", .node { element := { id := "a", type := "li" } },
      .ref (.expression "user.name"), .node { element := { id := "b", type := "li" } },
      .other .null] }

/-- A page with the rows. -/
def rowsPage : Node where
  element := { id := "root", type := "div", children := some [.text "y", .node mixedRows] }

/-- The first row is moved past an expression and the second row, and back again. -/
theorem shift_exact_rowsPage :
    rowsPage.HasDistinctIds ∧ Selection.locate? ⟨"a", []⟩ rowsPage = some [1, 1] ∧
    ∃ moved changed undone, shift 0 rowsPage (some ⟨"a", []⟩) .down = .ok moved ∧
      Node.Exchanged 1 3 mixedRows changed ∧ moved.tree.get? [1] = some changed ∧
      moved.selection = some ⟨"a", [1, 3]⟩ ∧
      shift 0 moved.tree moved.selection .up = .ok undone ∧ undone.tree = rowsPage ∧
      undone.selection = some ⟨"a", [1, 1]⟩ := by
  have hplaces : rowsPage.idPlaces =
      [(.node, "root"), (.node, "rows"), (.node, "a"), (.node, "b")] := rfl
  have htree : rowsPage.HasDistinctIds :=
    ⟨by simp [NodesNamed, hplaces], by simp [Node.ids, hplaces]⟩
  have hlocate : Selection.locate? ⟨"a", []⟩ rowsPage = some [1, 1] := by rfl
  obtain ⟨home, hhome, -, hmoves⟩ := shift_exact 0 0 rowsPage ⟨"a", []⟩ .down [1] 1 hlocate
  obtain rfl := Option.some.inj (show some mixedRows = some home from hhome)
  obtain ⟨moved, hmoved, hselection⟩ :
    ∃ moved, shift 0 rowsPage (some ⟨"a", []⟩) .down = .ok moved ∧
      moved.selection = some ⟨"a", [1, 3]⟩ := ⟨_, rfl, rfl⟩
  obtain ⟨other, changed, -, hexchanged, hchanged, -, hother, hback⟩ := hmoves moved hmoved
  obtain rfl : other = 3 := by simpa [hselection, eq_comm] using hother
  have hrow : rowsPage.get? [1, 1] = some { element := { id := "a", type := "li" } } := rfl
  obtain ⟨undone, hundone, htreeBack, hselectionBack⟩ := hback (htree.onlyAt hrow) .up rfl
  exact ⟨htree, hlocate, moved, changed, undone, hmoved, hexchanged, hchanged, hselection, hundone,
    htreeBack, hselectionBack⟩

end Edit

end SchemaCanvas
