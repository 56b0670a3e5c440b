import SchemaCanvas.Proofs.Ids.Fresh
import SchemaCanvas.Proofs.Ids.Unnamed

/-!
# New ids for a copy

A copy of a tree gets a new id in every place that has one. The ids are drawn one after the other,
and a draw whose id is taken is passed over. Different draws give different ids, so among as many
draws as there are ids taken and one more there is one that is not passed over.

* `IdPool.Search` : one draw after the other, until an id is found that is not taken;
* `IdPool.search_fresh` : the search ends, with the draw of `IdPool.fresh`;
* `Redraw.renewed` : what becomes of each id of a list;
* `Node.renewIds_exact` : new ids for a tree.
-/

namespace SchemaCanvas

namespace IdPool

/-- The search for an id that is not taken, from a draw on: a draw whose id is taken is passed over.
The second number is the draw with which the search ends. -/
inductive Search (type : String) (taken : List String) : Nat → Nat → Prop
  | found {draw : Nat} (h : candidate type draw ∉ taken) : Search type taken draw draw
  | passOver {draw last : Nat} (h : candidate type draw ∈ taken)
      (rest : Search type taken (draw + 1) last) : Search type taken draw last

theorem search_of_forall_lt {type : String} {taken : List String} {draw k : Nat}
    (hused : ∀ j < k, candidate type (draw + j) ∈ taken)
    (hfound : candidate type (draw + k) ∉ taken) : Search type taken draw (draw + k) := by
  induction k generalizing draw with
  | zero => exact .found hfound
  | succ k ih =>
    refine .passOver (hused 0 (Nat.succ_pos k)) ?_
    rw [Nat.add_comm k, ← Nat.add_assoc] at hfound ⊢
    refine ih (fun j hj => ?_) hfound
    rw [Nat.add_assoc, Nat.add_comm 1]
    exact hused (j + 1) (Nat.succ_lt_succ hj)

theorem passedOver_spec (pool : IdPool) (type : String) :
    pool.passedOver type ≤ pool.taken.length ∧
      ∀ j < pool.passedOver type, candidate type (pool.next + j) ∈ pool.taken := by
  rw [passedOver]
  cases hfind : (List.range (pool.taken.length + 1)).find? fun k =>
      !pool.taken.contains (candidate type (pool.next + k)) with
  | none => exact ⟨Nat.zero_le _, fun j hj => absurd hj (Nat.not_lt_zero j)⟩
  | some k =>
    obtain ⟨-, hk, hbefore⟩ := List.find?_range_eq_some.1 hfind
    refine ⟨Nat.le_of_lt_succ (List.mem_range.1 hk), fun j hj => ?_⟩
    simpa using hbefore j hj

/-- **The search ends** after at most as many draws as there are ids taken, with the new id. -/
theorem search_fresh (pool : IdPool) (type : String) :
    ∃ draw, Search type pool.taken pool.next draw ∧ draw ≤ pool.next + pool.taken.length ∧
      fresh type pool =
        (candidate type draw, ⟨candidate type draw :: pool.taken, draw + 1⟩) := by
  obtain ⟨hle, hused⟩ := passedOver_spec pool type
  have hfound := candidate_passedOver pool type
  exact ⟨_, search_of_forall_lt hused hfound, Nat.add_le_add_left hle _, rfl⟩

end IdPool

theorem Redraw.renewed {pool pool' : IdPool} {olds news : List (IdRole × String)}
    (h : Redraw IdPool.renew pool olds pool' news) {taken : List String}
    (htaken : taken ⊆ pool.taken) :
    List.Forall₂ (fun old new => if old = (.render, "") then new = old
      else new.1 = old.1 ∧ new.2 ≠ "" ∧ new.2 ∉ taken) olds news := by
  induction h with
  | nil => exact .nil
  | @cons role type id pool pool' olds news h ih =>
    obtain ⟨rfl, rfl, heq⟩ | heq := IdPool.renew_cases role type id pool
    · -- an inner element without an id
      rw [heq] at ih ⊢
      exact .cons (by simp) (ih htaken)
    · have hne := IdPool.fst_fresh_ne_empty type pool
      have hnew : (IdPool.fresh type pool).1 ∉ taken := fun hmem =>
        IdPool.fst_fresh_not_mem type pool (htaken hmem)
      have hplace : (role, id) ≠ (.render, "") := by
        rintro ⟨⟩
        exact hne (congrArg Prod.fst heq).symm
      rw [heq] at ih ⊢
      refine .cons ?_ (ih fun other hmem => List.mem_cons_of_mem _ (htaken hmem))
      rw [if_neg hplace]
      exact ⟨rfl, hne, hnew⟩

namespace Node

/-- **New ids change ids and nothing else.** Every node and every inner element with an id gets a
new one that was not taken, the new ones are all different, and they are what is taken afterwards
besides the ids that were taken before. Each of them is found after finitely many draws. -/
theorem renewIds_exact (n : Node) (pool : IdPool) :
    (n.renewIds pool).1.withoutIds = n.withoutIds ∧
    List.Forall₂ (fun old new => if old = (.render, "") then new = old
      else new.1 = old.1 ∧ new.2 ≠ "" ∧ new.2 ∉ pool.taken)
      n.idPlaces (n.renewIds pool).1.idPlaces ∧
    (n.renewIds pool).1.ids.Nodup ∧
    (∀ id, id ∈ (n.renewIds pool).2.taken ↔ id ∈ pool.taken ∨ id ∈ (n.renewIds pool).1.ids) ∧
    ∀ (type : String) (start : IdPool), ∃ draw, IdPool.Search type start.taken start.next draw ∧
      draw ≤ start.next + start.taken.length ∧
      IdPool.fresh type start = (IdPool.candidate type draw,
        ⟨IdPool.candidate type draw :: start.taken, draw + 1⟩) := by
  have hcourse : Redraw IdPool.renew pool n.idPlaces (n.renewIds pool).2
      (n.renewIds pool).1.idPlaces := redraw_mapIds n pool
  obtain ⟨htaken, hnodup, -, -⟩ := hcourse.of_renew
  refine ⟨withoutIds_mapIds _ n pool, hcourse.renewed (List.Subset.refl _), hnodup, fun id => ?_,
    fun type start => IdPool.search_fresh start type⟩
  rw [htaken, List.mem_append, List.mem_reverse, or_comm]
  rfl

end Node

end SchemaCanvas
