import SchemaCanvas.Render.Output
import Mathlib.Data.List.Nodup
import Mathlib.Data.List.Pairwise

/-!
# Trees whose nodes are in their places

A rendered tree is searched by path without entering the nodes that are not on the way. That finds
everything, as long as every node below another one has a path one position longer, and no two
neighbours the same. `Output.Placed` says so of every node and its children, and everything that is
said of paths in the whole tree follows from it.

* `Output.prefix_of_mem_nodes` : below a node all paths begin with its path;
* `Output.Placed.nodup_paths` : no path occurs twice;
* `Output.Placed.mem_paths_of_prefix` : on the way to a node there is a node everywhere;
* `Output.Placed.findByPath?_eq_some_iff` : what the search finds.
-/

namespace SchemaCanvas

namespace Output

/-! ### One node and those below it -/

theorem nodesOfItems_eq_flatMap (items : List Output) :
    nodesOfItems items = items.flatMap nodes := by
  induction items with
  | nil => rfl
  | cons o rest ih => rw [nodesOfItems, ih, List.flatMap_cons]

theorem nodesOfRepetitions_eq_flatMap (repetitions : List Repetition) :
    nodesOfRepetitions repetitions = (repetitions.filterMap Repetition.body).flatMap nodes := by
  induction repetitions with
  | nil => rfl
  | cons repetition rest ih =>
    obtain ⟨key, index, body⟩ := repetition
    cases body with
    | none => simp only [nodesOfRepetitions, ih, List.filterMap_cons]
    | some o => simp only [nodesOfRepetitions, ih, List.filterMap_cons, List.flatMap_cons]

theorem nodes_eq (o : Output) : o.nodes = o :: o.children.flatMap nodes := by
  cases o with
  | text | failure => simp [nodes, children]
  | element e =>
    cases e
    simp [nodes, children, nodesOfItems_eq_flatMap]
  | loop => simp [nodes, children, nodesOfRepetitions_eq_flatMap]

theorem self_mem_nodes (o : Output) : o ∈ o.nodes := by
  rw [nodes_eq]
  exact List.mem_cons_self

theorem mem_nodes_iff {m o : Output} : m ∈ o.nodes ↔ m = o ∨ ∃ c ∈ o.children, m ∈ c.nodes := by
  rw [nodes_eq, List.mem_cons, List.mem_flatMap]

theorem children_eq_nil_of_path? {o : Output} (h : o.path? = none) : o.children = [] := by
  cases o with
  | text => rfl
  | element | loop | failure => cases h

mutual

/-- What holds of a node as soon as it holds of its children holds of every node. -/
@[elab_as_elim]
theorem induction {motive : Output → Prop}
    (step : ∀ o, (∀ c ∈ o.children, motive c) → motive o) : ∀ o, motive o
  | .text s => step (.text s) (List.forall_mem_nil _)
  | .element ⟨id, type, originalType, key, path, props, children, link⟩ =>
    step (.element ⟨id, type, originalType, key, path, props, children, link⟩)
      (induction_items step children)
  | .loop id path repetitions =>
    step (.loop id path repetitions) (induction_repetitions step repetitions)
  | .failure id type path fault => step (.failure id type path fault) (List.forall_mem_nil _)

theorem induction_items {motive : Output → Prop}
    (step : ∀ o, (∀ c ∈ o.children, motive c) → motive o) : ∀ items : List Output,
    ∀ c ∈ items, motive c
  | [] => List.forall_mem_nil _
  | o :: rest => List.forall_mem_cons.2 ⟨induction step o, induction_items step rest⟩

theorem induction_repetitions {motive : Output → Prop}
    (step : ∀ o, (∀ c ∈ o.children, motive c) → motive o) : ∀ repetitions : List Repetition,
    ∀ c ∈ repetitions.filterMap Repetition.body, motive c
  | [] => List.forall_mem_nil _
  | ⟨_, _, none⟩ :: rest => induction_repetitions step rest
  | ⟨_, _, some o⟩ :: rest =>
    List.forall_mem_cons.2 ⟨induction step o, induction_repetitions step rest⟩

end

/-! ### Paths below a node -/

/-- All paths of a tree. -/
def paths (o : Output) : List Path := o.nodes.filterMap path?

/-- The children with paths lie one position below the node, in the order of their positions. -/
def ChildrenPlaced (o : Output) : Prop :=
  ∀ p, o.path? = some p → ∃ ks : List Nat, ks.Pairwise (· < ·) ∧
    o.children.filterMap path? = ks.map fun k => p ++ [k]

/-- All nodes of a tree have their children in place. -/
def Placed (o : Output) : Prop := ∀ m ∈ o.nodes, m.ChildrenPlaced

theorem mem_paths_iff {o : Output} {p : Path} : p ∈ o.paths ↔ ∃ m ∈ o.nodes, m.path? = some p :=
  List.mem_filterMap

theorem paths_eq (o : Output) : o.paths = o.path?.toList ++ o.children.flatMap paths := by
  rw [paths, nodes_eq, List.filterMap_cons, List.filterMap_flatMap]
  cases o.path? <;> rfl

section

variable {o c m : Output} {p q : Path}

theorem Placed.children (h : o.Placed) (hc : c ∈ o.children) : c.Placed :=
  fun m hm => h m (mem_nodes_iff.2 (.inr ⟨c, hc, hm⟩))

/-- A child with a path lies one position below the node. -/
theorem Placed.exists_path?_of_mem_children (h : o.Placed) (hp : o.path? = some p)
    (hc : c ∈ o.children) (hq : c.path? = some q) : ∃ k, q = p ++ [k] := by
  obtain ⟨ks, -, hpaths⟩ := h o o.self_mem_nodes p hp
  have hmem : q ∈ o.children.filterMap path? := List.mem_filterMap.2 ⟨c, hc, hq⟩
  rw [hpaths] at hmem
  obtain ⟨k, -, rfl⟩ := List.mem_map.1 hmem
  exact ⟨k, rfl⟩

/-- A tree that has a node with a path is no text. -/
theorem exists_path?_of_mem_nodes (hm : m ∈ c.nodes) (hq : m.path? = some q) :
    ∃ p, c.path? = some p := by
  cases hc : c.path? with
  | some p => exact ⟨p, rfl⟩
  | none =>
    -- there is nothing below a text, and it has no path itself
    rw [nodes_eq, children_eq_nil_of_path? hc] at hm
    obtain rfl : m = c := by simpa using hm
    rw [hc] at hq
    cases hq

theorem Placed.prefix_of_mem_nodes (h : o.Placed) (hp : o.path? = some p) (hm : m ∈ o.nodes)
    (hq : m.path? = some q) : p <+: q := by
  induction o using Output.induction generalizing p with
  | step o ih =>
    rcases mem_nodes_iff.1 hm with rfl | ⟨c, hc, hmc⟩
    · rw [hp] at hq
      obtain rfl := Option.some.inj hq
      exact List.prefix_rfl
    · obtain ⟨own, hown⟩ := exists_path?_of_mem_nodes hmc hq
      obtain ⟨k, rfl⟩ := h.exists_path?_of_mem_children hp hc hown
      exact (List.prefix_append p [k]).trans (ih c hc (h.children hc) hown hmc)

theorem Placed.length_lt_of_mem_nodes (h : o.Placed) (hp : o.path? = some p) (hc : c ∈ o.children)
    (hm : m ∈ c.nodes) (hq : m.path? = some q) : p.length < q.length := by
  obtain ⟨own, hown⟩ := exists_path?_of_mem_nodes hm hq
  obtain ⟨k, rfl⟩ := h.exists_path?_of_mem_children hp hc hown
  have hle := ((h.children hc).prefix_of_mem_nodes hown hm hq).length_le
  rw [List.length_append, List.length_singleton] at hle
  omega

theorem Placed.pairwise_disjoint_paths (h : o.Placed) (hp : o.path? = some p) :
    o.children.Pairwise fun c d => c.paths.Disjoint d.paths := by
  obtain ⟨ks, hks, hpaths⟩ := h o o.self_mem_nodes p hp
  have hne : (o.children.filterMap path?).Pairwise (· ≠ ·) := by
    rw [hpaths, List.pairwise_map]
    exact hks.imp fun hlt heq => by simp at heq; omega
  refine (List.pairwise_filterMap.1 hne).imp_of_mem fun {c d} hc hd hne q hqc hqd => ?_
  -- a path below both children would begin with the paths of both, which are equally long
  obtain ⟨m, hm, hq⟩ := mem_paths_iff.1 hqc
  obtain ⟨n, hn, hq'⟩ := mem_paths_iff.1 hqd
  obtain ⟨own, hown⟩ := exists_path?_of_mem_nodes hm hq
  obtain ⟨own', hown'⟩ := exists_path?_of_mem_nodes hn hq'
  obtain ⟨k, rfl⟩ := h.exists_path?_of_mem_children hp hc hown
  obtain ⟨l, rfl⟩ := h.exists_path?_of_mem_children hp hd hown'
  have hk := (h.children hc).prefix_of_mem_nodes hown hm hq
  have hl := (h.children hd).prefix_of_mem_nodes hown' hn hq'
  have heq : p ++ [k] = p ++ [l] :=
    (List.prefix_of_prefix_length_le hk hl (by simp)).eq_of_length (by simp)
  exact hne _ hown _ hown' heq

theorem Placed.nodup_paths (h : o.Placed) : o.paths.Nodup := by
  induction o using Output.induction with
  | step o ih =>
    cases hp : o.path? with
    | none => simp [paths_eq, hp, children_eq_nil_of_path? hp]
    | some p =>
      have hbelow : (o.children.flatMap paths).Nodup :=
        List.nodup_flatMap.2 ⟨fun c hc => ih c hc (h.children hc), h.pairwise_disjoint_paths hp⟩
      rw [paths_eq, hp]
      refine List.nodup_cons.2 ⟨fun hmem => ?_, hbelow⟩
      obtain ⟨c, hc, hpc⟩ := List.mem_flatMap.1 hmem
      obtain ⟨m, hm, hmp⟩ := mem_paths_iff.1 hpc
      exact Nat.lt_irrefl _ (h.length_lt_of_mem_nodes hp hc hm hmp)

/-- **On the way to a node there is a node everywhere.** -/
theorem Placed.mem_paths_of_prefix (h : o.Placed) (hp : o.path? = some p) {r : Path}
    (hr : r ∈ o.paths) (hpq : p <+: q) (hqr : q <+: r) : q ∈ o.paths := by
  induction o using Output.induction generalizing p with
  | step o ih =>
    by_cases heq : q = p
    · subst heq
      exact mem_paths_iff.2 ⟨o, o.self_mem_nodes, hp⟩
    obtain ⟨m, hm, hmr⟩ := mem_paths_iff.1 hr
    rcases mem_nodes_iff.1 hm with rfl | ⟨c, hc, hmc⟩
    · -- the node itself is the last on the way
      rw [hp] at hmr
      obtain rfl := Option.some.inj hmr
      exact absurd (hqr.eq_of_length_le hpq.length_le) heq
    · obtain ⟨own, hown⟩ := exists_path?_of_mem_nodes hmc hmr
      obtain ⟨k, rfl⟩ := h.exists_path?_of_mem_children hp hc hown
      have hkr := (h.children hc).prefix_of_mem_nodes hown hmc hmr
      have hlength : (p ++ [k]).length ≤ q.length := by
        have hle := hpq.length_le
        have hne : p.length ≠ q.length := fun hl => heq (hpq.eq_of_length hl).symm
        rw [List.length_append, List.length_singleton]
        omega
      have hkq := List.prefix_of_prefix_length_le hkr hqr hlength
      have hq := ih c hc (h.children hc) hown (mem_paths_iff.2 ⟨m, hmc, hmr⟩) hkq
      rw [paths_eq]
      exact List.mem_append_right _ (List.mem_flatMap.2 ⟨c, hc, hq⟩)

theorem Placed.eq_of_path? (h : o.Placed) {n : Output} (hm : m ∈ o.nodes) (hn : n ∈ o.nodes)
    (hmq : m.path? = some q) (hnq : n.path? = some q) : m = n := by
  have hsymm : Std.Symm fun a b : Output => a.path? = some q → b.path? = some q → a = b :=
    ⟨fun a b hab hb ha => (hab ha hb).symm⟩
  have hpairwise : o.nodes.Pairwise fun a b => a.path? = some q → b.path? = some q → a = b :=
    (List.pairwise_filterMap.1 h.nodup_paths).imp fun hne ha hb => absurd rfl (hne q ha q hb)
  exact hpairwise.forall_of_forall (fun _ _ _ _ => rfl) hm hn hmq hnq

end

/-! ### Search -/

theorem findInItems?_eq (q : Path) (items : List Output) :
    findInItems? q items = items.findSome? (findByPath? q) := by
  induction items with
  | nil => rfl
  | cons o rest ih =>
    rw [findInItems?, ih, List.findSome?_cons]
    cases findByPath? q o <;> rfl

theorem findInRepetitions?_eq (q : Path) (repetitions : List Repetition) :
    findInRepetitions? q repetitions =
      (repetitions.filterMap Repetition.body).findSome? (findByPath? q) := by
  induction repetitions with
  | nil => rfl
  | cons repetition rest ih =>
    obtain ⟨key, index, body⟩ := repetition
    cases body with
    | none => simp only [findInRepetitions?, ih, List.filterMap_cons]
    | some o =>
      simp only [findInRepetitions?, ih, List.filterMap_cons, List.findSome?_cons]
      cases findByPath? q o <;> rfl

theorem findByPath?_eq (q : Path) (o : Output) :
    findByPath? q o = o.path?.bind fun own =>
      if own = q then some o
      else if own.isPrefixOf q then o.children.findSome? (findByPath? q)
      else none := by
  cases o with
  | text => rfl
  | element e =>
    cases e
    simp only [findByPath?, path?, children, findInItems?_eq, Option.bind_some]
  | loop =>
    simp only [findByPath?, path?, children, findInRepetitions?_eq, Option.bind_some]
  | failure => simp [findByPath?, path?, children]

section

variable {o m : Output} {q : Path}

theorem mem_nodes_of_findByPath? (h : o.findByPath? q = some m) :
    m ∈ o.nodes ∧ m.path? = some q := by
  induction o using Output.induction with
  | step o ih =>
    rw [findByPath?_eq] at h
    obtain ⟨own, hown, h⟩ := Option.bind_eq_some_iff.1 h
    split_ifs at h with heq
    · obtain rfl := Option.some.inj h
      exact ⟨o.self_mem_nodes, heq ▸ hown⟩
    · obtain ⟨c, hc, hfound⟩ := List.exists_of_findSome?_eq_some h
      obtain ⟨hm, hq⟩ := ih c hc hfound
      exact ⟨mem_nodes_iff.2 (.inr ⟨c, hc, hm⟩), hq⟩

/-- Leaving out the nodes that are not on the way loses nothing. -/
theorem Placed.isSome_findByPath? (h : o.Placed) (hm : m ∈ o.nodes) (hq : m.path? = some q) :
    (o.findByPath? q).isSome := by
  induction o using Output.induction with
  | step o ih =>
    obtain ⟨own, hown⟩ := exists_path?_of_mem_nodes hm hq
    have hway := h.prefix_of_mem_nodes hown hm hq
    rw [findByPath?_eq, hown, Option.bind_some]
    split_ifs with heq hprefix
    · rfl
    · rcases mem_nodes_iff.1 hm with rfl | ⟨c, hc, hmc⟩
      · exact absurd (Option.some.inj (hown.symm.trans hq)) heq
      · exact List.findSome?_isSome_iff.2 ⟨c, hc, ih c hc (h.children hc) hmc⟩
    · exact absurd (List.isPrefixOf_iff_prefix.2 hway) hprefix

/-- **The search finds the one node with the path.** -/
theorem Placed.findByPath?_eq_some_iff (h : o.Placed) :
    o.findByPath? q = some m ↔ m ∈ o.nodes ∧ m.path? = some q := by
  constructor
  · exact mem_nodes_of_findByPath?
  · rintro ⟨hm, hq⟩
    obtain ⟨n, hn⟩ := Option.isSome_iff_exists.1 (h.isSome_findByPath? hm hq)
    obtain ⟨hmem, hpath⟩ := mem_nodes_of_findByPath? hn
    rw [hn, h.eq_of_path? hmem hm hpath hq]

end

end Output

end SchemaCanvas
