import SchemaCanvas.Schema.Load
import Mathlib.Data.List.Nodup

/-!
# Changed ids

A traversal that changes the ids of a tree meets them in the order in which `Node.idPlaces` lists
them. `Redraw f` is the relation between the list before and the list after, with the state of the
traversal at both ends; it knows nothing of trees.

* `Node.redraw_mapIds` : changing the ids of a tree is such a course through its list;
* `Node.hasDistinctIds_ensureIds` : after a repair every node has an id, and no id occurs twice;
* `Node.hasDistinctIds_renewIds` : new ids for a copy are all different, and none was in use.
-/

namespace SchemaCanvas

/-- The ids in a list that are in use. -/
def usedIds (places : List (IdRole × String)) : List String :=
  (places.map Prod.snd).filter fun id => !id.isEmpty

@[simp]
theorem usedIds_append (as bs : List (IdRole × String)) :
    usedIds (as ++ bs) = usedIds as ++ usedIds bs := by
  simp [usedIds]

theorem usedIds_cons_of_ne {id : String} (h : id ≠ "") (role : IdRole)
    (places : List (IdRole × String)) : usedIds ((role, id) :: places) = id :: usedIds places := by
  simp [usedIds, h]

theorem usedIds_cons_empty (role : IdRole) (places : List (IdRole × String)) :
    usedIds ((role, "") :: places) = usedIds places := by
  simp [usedIds]

theorem usedIds_subset_cons (place : IdRole × String) (places : List (IdRole × String)) :
    usedIds places ⊆ usedIds (place :: places) := by
  rw [← List.singleton_append, usedIds_append]
  exact List.subset_append_right _ _

/-- Every node in a list has an id. -/
def NodesNamed (places : List (IdRole × String)) : Prop :=
  ∀ id, (IdRole.node, id) ∈ places → id ≠ ""

theorem nodesNamed_cons {role : IdRole} {id : String} {places : List (IdRole × String)} :
    NodesNamed ((role, id) :: places) ↔ (role = .node → id ≠ "") ∧ NodesNamed places := by
  constructor
  · intro h
    refine ⟨?_, fun other hmem => h other (List.mem_cons_of_mem _ hmem)⟩
    rintro rfl
    exact h id List.mem_cons_self
  · rintro ⟨hid, h⟩ other hmem
    rcases List.mem_cons.1 hmem with heq | hmem
    · obtain ⟨rfl, rfl⟩ := Prod.mk.inj heq
      exact hid rfl
    · exact h other hmem

theorem nodesNamed_append {as bs : List (IdRole × String)} :
    NodesNamed (as ++ bs) ↔ NodesNamed as ∧ NodesNamed bs := by
  simp only [NodesNamed, List.mem_append]
  exact ⟨fun h => ⟨fun id hid => h id (.inl hid), fun id hid => h id (.inr hid)⟩,
    fun h id hid => hid.elim (h.1 id) (h.2 id)⟩

/-! ### The course of a traversal -/

section Redraw

variable {σ : Type} (f : IdRole → String → String → StateM σ String)

/-- The ids of a list changed one after the other, each with the type of its node. -/
inductive Redraw : σ → List (IdRole × String) → σ → List (IdRole × String) → Prop
  | nil (s : σ) : Redraw s [] s []
  | cons {role : IdRole} (type : String) {id : String} {s t : σ}
      {olds news : List (IdRole × String)} :
      Redraw (f role type id s).2 olds t news →
        Redraw s ((role, id) :: olds) t ((role, (f role type id s).1) :: news)

variable {f}

theorem Redraw.append {s t u : σ} {as bs cs ds : List (IdRole × String)} (h : Redraw f s as t bs)
    (h' : Redraw f t cs u ds) : Redraw f s (as ++ cs) u (bs ++ ds) := by
  induction h with
  | nil => exact h'
  | cons type _ ih => exact .cons type (ih h')

namespace Node

theorem idPlacesBelow_withId (e : Element) (id : String) :
    idPlacesBelow { e with id } = idPlacesBelow e := by
  cases e
  rfl

mutual

/-- **Changing the ids of a tree is a course through the list of its ids.** -/
theorem redraw_mapIds : ∀ (n : Node) (s : σ),
    Redraw f s n.idPlaces (n.mapIds f s).2 (n.mapIds f s).1.idPlaces
  | ⟨none, element⟩, s => by
    refine Redraw.cons element.type ?_
    rw [idPlacesBelow_withId]
    exact redraw_mapIdsBelow element _
  | ⟨some component, element⟩, s => by
    refine Redraw.cons element.type (Redraw.cons element.type ?_)
    rw [idPlacesBelow_withId]
    exact redraw_mapIdsBelow element _

theorem redraw_mapIdsBelow : ∀ (e : Element) (s : σ),
    Redraw f s (idPlacesBelow e) (mapIdsBelow f e s).2 (idPlacesBelow (mapIdsBelow f e s).1)
  | ⟨_, _, _, none, _, _, none, _, _, _, _⟩, s => .nil s
  | ⟨_, _, _, some items, _, _, none, _, _, _, _⟩, s => redraw_mapIdsOfItems items s
  | ⟨_, _, _, none, _, _, some branch, _, _, _, _⟩, s =>
    (redraw_mapIdsOfBranch branch s).append (.nil _)
  | ⟨_, _, _, some items, _, _, some branch, _, _, _, _⟩, s =>
    (redraw_mapIdsOfBranch branch s).append (redraw_mapIdsOfItems items _)

theorem redraw_mapIdsOfBranch : ∀ (b : ElseBranch) (s : σ),
    Redraw f s (idPlacesOfBranch b) (mapIdsOfBranch f b s).2
      (idPlacesOfBranch (mapIdsOfBranch f b s).1)
  | .node n, s => redraw_mapIds n s
  | .flag _, s => .nil s

theorem redraw_mapIdsOfItems : ∀ (items : List ChildItem) (s : σ),
    Redraw f s (idPlacesOfItems items) (mapIdsOfItems f items s).2
      (idPlacesOfItems (mapIdsOfItems f items s).1)
  | [], s => .nil s
  | item :: rest, s => (redraw_mapIdsOfItem item s).append (redraw_mapIdsOfItems rest _)

theorem redraw_mapIdsOfItem : ∀ (item : ChildItem) (s : σ),
    Redraw f s (idPlacesOfItem item) (mapIdsOfItem f item s).2
      (idPlacesOfItem (mapIdsOfItem f item s).1)
  | .node n, s => redraw_mapIds n s
  | .text _, s => .nil s
  | .ref _, s => .nil s
  | .other _, s => .nil s

end

end Node

end Redraw

/-! ### New ids for a copy -/

namespace IdPool

theorem candidate_ne_empty (type : String) (draw : Nat) : candidate type draw ≠ "" := by
  intro h
  have hlist := congrArg String.toList h
  simp [candidate] at hlist

theorem fst_fresh_ne_empty (type : String) (pool : IdPool) : (fresh type pool).1 ≠ "" :=
  candidate_ne_empty type _

/-- What becomes of one id: an inner element without an id stays without, everything else gets a
new id. -/
theorem renew_cases (role : IdRole) (type id : String) (pool : IdPool) :
    (role = .render ∧ id = "" ∧ renew role type id pool = (id, pool)) ∨
      renew role type id pool = fresh type pool := by
  cases role with
  | node => exact .inr rfl
  | render =>
    by_cases h : id = ""
    · subst h
      exact .inl ⟨rfl, rfl, rfl⟩
    · right
      simp [renew, h]

end IdPool

/-- **A course of new ids.** The new ids are all different and none of them was in use, they are in
use afterwards, and every node has one. -/
theorem Redraw.of_renew {pool pool' : IdPool} {olds news : List (IdRole × String)}
    (h : Redraw IdPool.renew pool olds pool' news) :
    pool'.taken = (usedIds news).reverse ++ pool.taken ∧ (usedIds news).Nodup ∧
      (usedIds news).Disjoint pool.taken ∧ NodesNamed news := by
  induction h with
  | nil pool => simp [usedIds, NodesNamed]
  | @cons role type id pool pool' olds news h ih =>
    obtain ⟨rfl, rfl, heq⟩ | heq := IdPool.renew_cases role type id pool
    · -- an inner element without an id
      rw [heq] at ih ⊢
      rw [usedIds_cons_empty, nodesNamed_cons]
      obtain ⟨htaken, hnodup, hnew, hnode⟩ := ih
      exact ⟨htaken, hnodup, hnew, nofun, hnode⟩
    · rw [heq] at ih ⊢
      obtain ⟨htaken, hnodup, hnew, hnode⟩ := ih
      have hne := IdPool.fst_fresh_ne_empty type pool
      rw [IdPool.taken_snd_fresh] at htaken hnew
      obtain ⟨hfirst, hrest⟩ := List.disjoint_cons_right.1 hnew
      rw [usedIds_cons_of_ne hne, nodesNamed_cons]
      refine ⟨by simp [htaken], List.nodup_cons.2 ⟨hfirst, hnodup⟩, ?_, fun _ => hne, hnode⟩
      exact List.disjoint_cons_left.2 ⟨IdPool.fst_fresh_not_mem type pool, hrest⟩

/-! ### Repaired ids -/

namespace IdRepair

/-- The ids met so far are different, and all of them count as taken. -/
structure Sound (r : IdRepair) : Prop where
  nodup : r.seen.Nodup
  taken : r.seen ⊆ r.pool.taken

/-- What becomes of one id: it stays if it has not occurred before, an inner element may be without
one, and everything else gets a new id. -/
theorem repair_cases (role : IdRole) (type id : String) (r : IdRepair) :
    (role = .render ∧ id = "" ∧ repair role type id r = (id, r)) ∨
      (id ≠ "" ∧ id ∉ r.seen ∧ repair role type id r = keep id r) ∨
      ((role = .node ∧ id = "" ∨ id ∈ r.seen) ∧ repair role type id r = replace type r) := by
  by_cases hid : id = ""
  · subst hid
    cases role with
    | node => exact .inr (.inr ⟨.inl ⟨rfl, rfl⟩, rfl⟩)
    | render => exact .inl ⟨rfl, rfl, rfl⟩
  · have heq : repair role type id r =
        if r.seen.contains id then replace type r else keep id r := by
      simp only [repair, String.isEmpty_iff, hid, if_false]
      show (if r.seen.contains id = true then replace type else keep id) r = _
      split <;> rfl
    by_cases hseen : id ∈ r.seen
    · exact .inr (.inr ⟨.inr hseen, by rw [heq, if_pos (List.contains_iff_mem.2 hseen)]⟩)
    · exact .inr (.inl ⟨hid, hseen, by rw [heq, if_neg (mt List.contains_iff_mem.1 hseen)]⟩)

theorem fst_replace (type : String) (r : IdRepair) :
    (replace type r).1 = (IdPool.fresh type r.pool).1 := rfl

theorem seen_replace (type : String) (r : IdRepair) :
    (replace type r).2.seen = (IdPool.fresh type r.pool).1 :: r.seen := rfl

theorem Sound.keep {r : IdRepair} (hr : r.Sound) {id : String} (hseen : id ∉ r.seen)
    (htaken : id ∈ r.pool.taken) : (keep id r).2.Sound :=
  ⟨List.nodup_cons.2 ⟨hseen, hr.nodup⟩, List.cons_subset.2 ⟨htaken, hr.taken⟩⟩

theorem Sound.replace {r : IdRepair} (hr : r.Sound) (type : String) : (replace type r).2.Sound := by
  refine ⟨List.nodup_cons.2 ⟨fun h => ?_, hr.nodup⟩, ?_⟩
  · exact IdPool.fst_fresh_not_mem type r.pool (hr.taken h)
  · exact List.cons_subset.2 ⟨List.mem_cons_self, fun id h => List.mem_cons_of_mem _ (hr.taken h)⟩

end IdRepair

/-- **A course of repairs.** The ids are met one after the other, each of them for the first time,
and every node has one afterwards. -/
theorem Redraw.of_repair {r r' : IdRepair} {olds news : List (IdRole × String)}
    (h : Redraw IdRepair.repair r olds r' news) (hr : r.Sound)
    (holds : usedIds olds ⊆ r.pool.taken) :
    r'.Sound ∧ r'.seen = (usedIds news).reverse ++ r.seen ∧ NodesNamed news := by
  induction h with
  | nil r => exact ⟨hr, by simp [usedIds], by simp [NodesNamed]⟩
  | @cons role type id r r' olds news h ih =>
    rw [nodesNamed_cons]
    obtain ⟨rfl, rfl, heq⟩ | ⟨hid, hseen, heq⟩ | ⟨-, heq⟩ := IdRepair.repair_cases role type id r
    · -- an inner element without an id
      rw [heq] at ih ⊢
      rw [usedIds_cons_empty] at holds ⊢
      obtain ⟨hsound, hmet, hnode⟩ := ih hr holds
      exact ⟨hsound, hmet, nofun, hnode⟩
    · -- an id that is met for the first time
      rw [heq] at ih ⊢
      rw [usedIds_cons_of_ne hid] at holds
      obtain ⟨hid', hrest⟩ := List.cons_subset.1 holds
      obtain ⟨hsound, hmet, hnode⟩ := ih (hr.keep hseen hid') hrest
      refine ⟨hsound, ?_, fun _ => hid, hnode⟩
      rw [hmet]
      simp [IdRepair.keep, usedIds_cons_of_ne hid]
    · -- a new id, which cannot stand further on in the list: all ids of the list are taken
      rw [heq] at ih ⊢
      have hne := IdPool.fst_fresh_ne_empty type r.pool
      have hrest : usedIds olds ⊆ (IdRepair.replace type r).2.pool.taken := fun other hmem =>
        List.mem_cons_of_mem _ (holds (usedIds_subset_cons _ olds hmem))
      obtain ⟨hsound, hmet, hnode⟩ := ih (hr.replace type) hrest
      rw [IdRepair.seen_replace] at hmet
      rw [IdRepair.fst_replace, usedIds_cons_of_ne hne]
      exact ⟨hsound, by simp [hmet], fun _ => hne, hnode⟩

/-! ### Trees with distinct ids -/

namespace Node

/-- Every node of a tree has an id, and no id occurs twice in it, be it the id of a node or that of
the element inside a component. -/
structure HasDistinctIds (tree : Node) : Prop where
  named : NodesNamed tree.idPlaces
  nodup : tree.ids.Nodup

theorem hasDistinctIds_ensureIds (next : Nat) (n : Node) : (n.ensureIds next).1.HasDistinctIds := by
  have hstart : ({ pool := { taken := n.ids, next } } : IdRepair).Sound := ⟨.nil, nofun⟩
  obtain ⟨hsound, hmet, hnamed⟩ := (redraw_mapIds n _).of_repair hstart (List.Subset.refl n.ids)
  refine ⟨hnamed, List.nodup_reverse.1 ?_⟩
  have hnodup := hsound.nodup
  rwa [hmet, List.append_nil] at hnodup

/-- **A copy with new ids has distinct ids,** and none of them was in use. -/
theorem hasDistinctIds_renewIds (n : Node) (pool : IdPool) :
    (n.renewIds pool).1.HasDistinctIds ∧ (n.renewIds pool).1.ids.Disjoint pool.taken := by
  obtain ⟨-, hnodup, hnew, hnamed⟩ := (redraw_mapIds n pool).of_renew
  exact ⟨⟨hnamed, hnodup⟩, hnew⟩

end Node

theorem Schema.hasDistinctIds_of_load {next next' : Nat} {v : Json} {tree : Node}
    (h : load next v = .ok (tree, next')) : tree.HasDistinctIds := by
  rw [load] at h
  split at h
  · rename_i read _
    obtain ⟨rfl, -⟩ := Prod.mk.inj (Except.ok.inj h)
    exact Node.hasDistinctIds_ensureIds next read
  · cases h

end SchemaCanvas
