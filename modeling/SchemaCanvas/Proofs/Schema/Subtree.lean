import SchemaCanvas.Proofs.Schema.Find

/-!
# The nodes of a tree

A node leads to other nodes in two ways: to those in its list of children, and to the one in its
`else` branch. `Node.Within` follows both ways. Paths, and so the search for an id, follow the first
way only: they reach exactly the nodes that do not lie in an `else` branch.

* `Node.forall_within_iff` : what holds of all nodes of a tree, one level at a time;
* `Node.exists_path_or_inBranch` : every node of a tree lies at a path or in an `else` branch.
-/

namespace SchemaCanvas

namespace Node

/-- A node lies in the tree of another one. -/
inductive Within (m : Node) : Node → Prop
  | self : Within m m
  | child {n c : Node} (hc : .node c ∈ n.items) (h : Within m c) : Within m n
  | branch {n b : Node} (hb : n.element.otherwise = some (.node b)) (h : Within m b) : Within m n

/-- A node of the tree, in an `else` branch, has the id. -/
def InBranch (tree : Node) (id : String) : Prop :=
  ∃ path n b m, tree.get? path = some n ∧ n.element.otherwise = some (.node b) ∧ Within m b ∧
    m.id = id

theorem mem_items_iff {n c : Node} : .node c ∈ n.items ↔ ∃ i, n.child? i = some c := by
  constructor
  · intro h
    obtain ⟨i, hi⟩ := List.getElem?_of_mem h
    refine ⟨i, ?_⟩
    rw [child?, hi]
    rfl
  · rintro ⟨i, hi⟩
    exact List.mem_of_getElem? (getElem?_of_child? hi)

theorem within_of_get? {n a : Node} {path : Path} (h : n.get? path = some a) : a.Within n := by
  induction path generalizing n with
  | nil =>
    obtain rfl := Option.some.inj h
    exact .self
  | cons i path ih =>
    obtain ⟨c, hc, hrest⟩ := Option.bind_eq_some_iff.1 h
    exact .child (mem_items_iff.2 ⟨i, hc⟩) (ih hrest)

theorem forall_within_iff {P : Node → Prop} {n : Node} :
    (∀ m, Within m n → P m) ↔ P n ∧
      (∀ b, n.element.otherwise = some (.node b) → ∀ m, Within m b → P m) ∧
      ∀ c, .node c ∈ n.items → ∀ m, Within m c → P m := by
  constructor
  · exact fun h => ⟨h n .self, fun b hb m hm => h m (.branch hb hm),
      fun c hc m hm => h m (.child hc hm)⟩
  · rintro ⟨hself, hbranch, hitems⟩ m hm
    cases hm with
    | self => exact hself
    | child hc h => exact hitems _ hc m h
    | branch hb h => exact hbranch _ hb m h

/-- **Every node of a tree lies at a path or in an `else` branch.** -/
theorem exists_path_or_inBranch {tree m : Node} (h : Within m tree) :
    (∃ path, tree.get? path = some m) ∨ tree.InBranch m.id := by
  induction h with
  | self => exact .inl ⟨[], rfl⟩
  | @child n c hc _ ih =>
    obtain ⟨i, hi⟩ := mem_items_iff.1 hc
    have hbelow : ∀ path, n.get? (i :: path) = c.get? path := fun path => by
      rw [get?, hi, Option.bind_some]
    rcases ih with ⟨path, hpath⟩ | ⟨path, a, b, d, hpath, hb, hd, hid⟩
    · exact .inl ⟨i :: path, by rw [hbelow, hpath]⟩
    · exact .inr ⟨i :: path, a, b, d, by rw [hbelow, hpath], hb, hd, hid⟩
  | branch hb hm => exact .inr ⟨[], _, _, m, rfl, hb, hm, rfl⟩

end Node

end SchemaCanvas
