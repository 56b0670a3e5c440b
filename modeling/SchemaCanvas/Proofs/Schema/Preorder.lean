import SchemaCanvas.Proofs.Schema.Find
import Mathlib.Data.List.Lex

/-!
# The order of the search

The search for an id goes from a node to its children and takes the children from first to last. In
terms of paths this is the lexicographic order: a path comes before those that go on from it, and of
two paths that part the one with the smaller step comes first. The search finds the first of all
paths with the id in this order.

* `Node.pathOf?_eq_cons` : the search below one node;
* `Node.first_of_pathOf?` : what is found comes before all others;
* `Node.pathOf?_eq_some_iff_first` : so it is the first one.
-/

namespace SchemaCanvas

namespace Node

variable {tree c d n : Node} {id : String} {items : List ChildItem} {i j start : Nat}
  {path rest : Path}

/-! ### One level -/

theorem pathOf?_eq_none_of_lt (h : pathInItems? id start items = some ((start + i) :: rest))
    (hj : j < i) (hd : items[j]? = some (.node d)) : pathOf? id d = none := by
  induction items generalizing start i j with
  | nil => cases h
  | cons item items ih =>
    rw [pathInItems?] at h
    cases hitem : pathInItem? id item with
    | some found =>
      rw [hitem] at h
      obtain ⟨hstart, -⟩ := List.cons.inj (Option.some.inj h)
      omega
    | none =>
      rw [hitem] at h
      cases j with
      | zero =>
        obtain rfl := Option.some.inj hd
        exact hitem
      | succ j =>
        obtain ⟨i, rfl⟩ : ∃ k, i = k + 1 := ⟨i - 1, by omega⟩
        rw [← Nat.add_assoc, Nat.add_right_comm] at h
        exact ih h (Nat.lt_of_succ_lt_succ hj) hd

/-- **The search below a node** finds the id in the first child that leads to it. -/
theorem pathOf?_eq_cons (h : tree.pathOf? id = some (i :: rest)) :
    tree.id ≠ id ∧ ∃ c, tree.child? i = some c ∧ c.pathOf? id = some rest ∧
      ∀ j d, j < i → tree.child? j = some d → d.pathOf? id = none := by
  rw [pathOf?_eq] at h
  split_ifs at h with hid
  · cases h
  refine ⟨hid, ?_⟩
  obtain ⟨k, found, c, hcons, hc, hrest, -⟩ := exists_child_of_pathInItems? h
  obtain ⟨rfl, rfl⟩ := List.cons.inj hcons
  refine ⟨c, ?_, hrest, fun j d hj hd => ?_⟩
  · rw [Nat.zero_add, child?, hc]
    rfl
  · rw [Nat.zero_add] at hj
    exact pathOf?_eq_none_of_lt h hj (getElem?_of_child? hd)

/-! ### The whole tree -/

theorem first_of_pathOf? (h : tree.pathOf? id = some path) {other : Path}
    (hn : tree.get? other = some n) (hid : n.id = id) (hne : other ≠ path) :
    List.Lex (· < ·) path other := by
  induction path generalizing tree other with
  | nil =>
    obtain ⟨j, below, rfl⟩ := List.exists_cons_of_ne_nil hne
    exact .nil
  | cons i path ih =>
    obtain ⟨hroot, c, hc, hpath, hbefore⟩ := pathOf?_eq_cons h
    cases other with
    | nil =>
      obtain rfl := Option.some.inj hn
      exact absurd hid hroot
    | cons j other =>
      obtain ⟨d, hd, hbelow⟩ := Option.bind_eq_some_iff.1 hn
      rcases Nat.lt_trichotomy i j with hlt | rfl | hlt
      · exact .rel hlt
      · obtain rfl := Option.some.inj (hc.symm.trans hd)
        exact .cons (ih hpath hbelow fun heq => hne (heq ▸ rfl))
      · -- the search would have found the id in an earlier child
        obtain ⟨found, hfound⟩ := exists_pathOf?_iff.2 ⟨other, n, hbelow, hid⟩
        rw [hbefore j d hlt hd] at hfound
        cases hfound

/-- **The search finds the first path with the id,** and nothing else. -/
theorem pathOf?_eq_some_iff_first :
    tree.pathOf? id = some path ↔ (∃ n, tree.get? path = some n ∧ n.id = id) ∧
      ∀ other n, tree.get? other = some n → n.id = id → other ≠ path →
        List.Lex (· < ·) path other := by
  constructor
  · intro h
    exact ⟨exists_get?_of_pathOf? h, fun other n hn hid => first_of_pathOf? h hn hid⟩
  · rintro ⟨⟨n, hn, hid⟩, hfirst⟩
    obtain ⟨found, hfound⟩ := exists_pathOf?_iff.2 ⟨path, n, hn, hid⟩
    obtain ⟨m, hm, hmid⟩ := exists_get?_of_pathOf? hfound
    by_cases heq : found = path
    · rw [hfound, heq]
    · -- each of the two would come before the other
      have hbefore := hfirst found m hm hmid heq
      exact absurd hbefore (asymm (first_of_pathOf? hfound hn hid (Ne.symm heq)))

theorem pathOf?_eq_none_iff :
    tree.pathOf? id = none ↔ ∀ path n, tree.get? path = some n → n.id ≠ id := by
  rw [Option.eq_none_iff_forall_ne_some]
  constructor
  · intro h path n hn hid
    obtain ⟨found, hfound⟩ := exists_pathOf?_iff.2 ⟨path, n, hn, hid⟩
    exact h found hfound
  · intro h path hpath
    obtain ⟨n, hn, hid⟩ := exists_get?_of_pathOf? hpath
    exact h path n hn hid

end Node

end SchemaCanvas
