import SchemaCanvas.Schema.Node

/-!
# Paths into a schema tree

A path is the list of positions that lead from the root to a node, each in the list of children one
level up. The empty path is the root.

* `Path.ofJson?` reads a path and `Path.toJson` writes it (`Path.ofJson?_toJson`);
* `Node.get?` and `Node.modify?` reach the node at a path, the same node for the same path
  (`Node.get?_of_modify?`);
* `Node.pathOf?` finds a node by its id, the first one in the order parent before children.
-/

namespace SchemaCanvas

/-- Positions that lead from the root of a tree to a node. -/
abbrev Path := List Nat

namespace Path

/-- The path one level up. The root has none. -/
def parent? (path : Path) : Option Path := if path.isEmpty then none else some path.dropLast

/-- How many leading steps two paths share. -/
def commonLength : Path → Path → Nat
  | i :: p, j :: q => if i = j then commonLength p q + 1 else 0
  | _, _ => 0

/-- The first path leads to a node strictly above that of the second. -/
def isAbove (p q : Path) : Bool := p.isPrefixOf q && p.length < q.length

/-- A path read from a list of positions. -/
def ofJson? (v : Json) : Option Path := v.items?.bind fun items => items.mapM Json.nat?

/-- A path as the list of its positions. -/
def toJson (path : Path) : Json := .arr (path.map Json.ofNat)

/-- A path whose positions have 64 bits is read back as it was written. -/
theorem ofJson?_toJson {path : Path} (h : ∀ i ∈ path, i ≤ Word.maxUnsigned) :
    ofJson? (toJson path) = some path := by
  change (path.map Json.ofNat).mapM Json.nat? = some path
  induction path with
  | nil => rfl
  | cons i path ih =>
    rw [List.map_cons, List.mapM_cons, Json.nat?_ofNat (h i List.mem_cons_self),
      ih fun j hj => h j (List.mem_cons_of_mem i hj)]
    rfl

end Path

/-- Trees in which nodes are found by id and by path. -/
class Lookup (T : Type) where
  /-- the path of the first node with an id -/
  pathOf? : T → String → Option Path
  /-- the id of the node at a path -/
  idAt? : T → Path → Option String

namespace Node

/-- The node at a path. -/
def get? (n : Node) : Path → Option Node
  | [] => some n
  | i :: rest => (n.child? i).bind fun c => c.get? rest

/-- Replace the entry at a position of the list of children. -/
def setItem (i : Nat) (item : ChildItem) (n : Node) : Node :=
  n.withItems fun items => items.set i item

/-- Change the node at a path, if there is one. -/
def modify? (f : Node → Node) (n : Node) : Path → Option Node
  | [] => some (f n)
  | i :: rest =>
    (n.child? i).bind fun c => (c.modify? f rest).map fun c => n.setItem i (.node c)

theorem get?_append (n : Node) (p q : Path) :
    n.get? (p ++ q) = (n.get? p).bind fun m => m.get? q := by
  induction p generalizing n with
  | nil => rfl
  | cons i p ih =>
    rw [List.cons_append, get?, get?]
    cases n.child? i with
    | none => rfl
    | some c => exact ih c

theorem child?_setItem {n c : Node} {i : Nat} (h : n.child? i = some c) (d : Node) :
    (n.setItem i (.node d)).child? i = some d := by
  have hi : i < n.items.length := by
    rw [child?] at h
    cases hc : n.items[i]? with
    | none => simp [hc] at h
    | some item => exact (List.getElem?_eq_some_iff.1 hc).1
  have hitems : (n.setItem i (.node d)).items = n.items.set i (.node d) := rfl
  rw [child?, hitems, List.getElem?_set_self hi]
  rfl

theorem isSome_modify? (f : Node → Node) (n : Node) (p : Path) :
    (n.modify? f p).isSome = (n.get? p).isSome := by
  induction p generalizing n with
  | nil => rfl
  | cons i p ih =>
    rw [modify?, get?]
    cases n.child? i with
    | none => rfl
    | some c => simp [ih c]

theorem get?_of_modify? {f : Node → Node} {n m : Node} {p : Path} (h : n.modify? f p = some m) :
    m.get? p = (n.get? p).map f := by
  induction p generalizing n m with
  | nil => cases h; rfl
  | cons i p ih =>
    rw [modify?] at h
    rw [get?, get?]
    cases hc : n.child? i with
    | none => simp [hc] at h
    | some c =>
      obtain ⟨d, hd, rfl⟩ : ∃ d, c.modify? f p = some d ∧ n.setItem i (.node d) = m := by
        simpa [hc] using h
      rw [child?_setItem hc]
      exact ih hd

mutual

/-- The path of the first node with an id. -/
def pathOf? (id : String) : Node → Option Path
  | ⟨component, element⟩ =>
    if Node.id ⟨component, element⟩ = id then some [] else pathInElement? id element

/-- The path of the first node with an id below an element. -/
def pathInElement? (id : String) : Element → Option Path
  | { children := some items, .. } => pathInItems? id 0 items
  | { children := none, .. } => none

/-- The path of the first node with an id in the entries from a position on. -/
def pathInItems? (id : String) (i : Nat) : List ChildItem → Option Path
  | [] => none
  | item :: rest =>
    match pathInItem? id item with
    | some path => some (i :: path)
    | none => pathInItems? id (i + 1) rest

/-- The path of the first node with an id in an entry. -/
def pathInItem? (id : String) : ChildItem → Option Path
  | .node n => pathOf? id n
  | _ => none

end

/-- The id of the node at a path. -/
def idAt? (n : Node) (path : Path) : Option String := (n.get? path).map Node.id

instance : Lookup Node := ⟨fun n id => n.pathOf? id, idAt?⟩

end Node

end SchemaCanvas
