import SchemaCanvas.Proofs.Ids.Kept
import SchemaCanvas.Proofs.Ids.Unnamed

/-!
# What a repair changes

A repair goes through the ids of a tree in the order of `Node.idPlaces` and keeps two lists: the ids
that are taken, which are all those of the tree and the new ones, and the ids that have been met. An
id is replaced if and only if it is broken, which is said here of the tree before the repair.

* `Broken` : the ids that need a repair;
* `IdRepair.Met.step` : one id, and what is known of the course before and behind it;
* `Redraw.repaired` : which ids of a list are replaced, and how many;
* `Node.ensureIds_exact` : a repair of a tree.
-/

namespace SchemaCanvas

/-- The id at a position needs a repair: a node has none, or the id has occurred before. -/
def Broken (places : List (IdRole × String)) (i : Nat) : Prop :=
  ∃ role id, places[i]? = some (role, id) ∧
    (role = .node ∧ id = "" ∨ id ∈ usedIds (places.take i))

theorem ne_empty_of_mem_usedIds {places : List (IdRole × String)} {id : String}
    (h : id ∈ usedIds places) : id ≠ "" := by
  rintro rfl
  simp [usedIds] at h

theorem mem_usedIds_concat {before : List (IdRole × String)} {role : IdRole} {id other : String} :
    other ∈ usedIds (before ++ [(role, id)]) ↔ other ∈ usedIds before ∨ other = id ∧ id ≠ "" := by
  rw [usedIds_append, List.mem_append]
  by_cases hid : id = ""
  · subst hid
    simp [usedIds]
  · simp [usedIds, hid]

namespace IdRepair

/-- A repair on its way through a list of ids, with those in `before` behind it and those in `after`
to come. Of the ids to come, it knows which have occurred. -/
structure Met (r : IdRepair) (before after : List (IdRole × String)) : Prop where
  sound : r.Sound
  named : "" ∉ r.seen
  taken : usedIds after ⊆ r.pool.taken
  seen : ∀ id ∈ usedIds after, id ∈ r.seen ↔ id ∈ usedIds before

variable {r : IdRepair} {before after : List (IdRole × String)} {role : IdRole} {id : String}

theorem Met.mem_seen_iff (h : r.Met before ((role, id) :: after)) :
    id ∈ r.seen ↔ id ∈ usedIds before := by
  by_cases hid : id = ""
  · subst hid
    exact iff_of_false h.named fun hmem => ne_empty_of_mem_usedIds hmem rfl
  · refine h.seen id ?_
    rw [usedIds_cons_of_ne hid]
    exact List.mem_cons_self

theorem Met.pass (h : r.Met before ((.render, "") :: after)) :
    r.Met (before ++ [(.render, "")]) after where
  sound := h.sound
  named := h.named
  taken := fun other hmem => h.taken (usedIds_subset_cons _ after hmem)
  seen := fun other hmem => by
    rw [h.seen other (usedIds_subset_cons _ after hmem), mem_usedIds_concat]
    simp

theorem Met.keep (h : r.Met before ((role, id) :: after)) (hid : id ≠ "") (hunseen : id ∉ r.seen) :
    (keep id r).2.Met (before ++ [(role, id)]) after where
  sound := by
    refine h.sound.keep hunseen (h.taken ?_)
    rw [usedIds_cons_of_ne hid]
    exact List.mem_cons_self
  named := List.not_mem_cons_of_ne_of_not_mem (Ne.symm hid) h.named
  taken := fun other hmem => h.taken (usedIds_subset_cons _ after hmem)
  seen := fun other hmem => by
    rw [mem_usedIds_concat, ← h.seen other (usedIds_subset_cons _ after hmem), IdRepair.keep,
      List.mem_cons, or_comm]
    simp [hid]

/-- The new id is none of those to come, and the old one has occurred before if there was one. -/
theorem Met.replace (h : r.Met before ((role, id) :: after)) (hbroken : id = "" ∨ id ∈ r.seen)
    (type : String) : (replace type r).2.Met (before ++ [(role, id)]) after where
  sound := h.sound.replace type
  named := by
    rw [seen_replace]
    exact List.not_mem_cons_of_ne_of_not_mem (Ne.symm (IdPool.fst_fresh_ne_empty type r.pool))
      h.named
  taken := fun other hmem => List.mem_cons_of_mem _ (h.taken (usedIds_subset_cons _ after hmem))
  seen := fun other hmem => by
    have hmem := usedIds_subset_cons (role, id) after hmem
    have hother : other ≠ (IdPool.fresh type r.pool).1 := fun heq =>
      IdPool.fst_fresh_not_mem type r.pool (heq ▸ h.taken hmem)
    rw [mem_usedIds_concat, ← h.seen other hmem, seen_replace, List.mem_cons]
    constructor
    · exact fun hseen => .inl (hseen.resolve_left hother)
    · rintro (hseen | ⟨rfl, hid⟩)
      · exact .inr hseen
      · exact .inr (hbroken.resolve_left hid)

/-- A new id is another one: ids that have been met are taken. -/
theorem Met.fst_replace_ne (h : r.Met before after) (hbroken : id = "" ∨ id ∈ r.seen)
    (type : String) : (IdRepair.replace type r).1 ≠ id := by
  rintro rfl
  rcases hbroken with hempty | hseen
  · exact IdPool.fst_fresh_ne_empty type r.pool hempty
  · exact IdPool.fst_fresh_not_mem type r.pool (h.sound.taken hseen)

/-- **One id.** It is replaced if it is missing from a node or has occurred before, and counted
then. -/
theorem Met.step (h : r.Met before ((role, id) :: after)) (type : String) :
    (repair role type id r).2.Met (before ++ [(role, id)]) after ∧
      ((repair role type id r).1 ≠ id ↔ role = .node ∧ id = "" ∨ id ∈ usedIds before) ∧
      (repair role type id r).2.changed =
        r.changed + if (repair role type id r).1 = id then 0 else 1 := by
  rw [← h.mem_seen_iff]
  obtain ⟨rfl, rfl, heq⟩ | ⟨hid, hunseen, heq⟩ | ⟨hbroken, heq⟩ := repair_cases role type id r
  · -- an inner element without an id
    rw [heq]
    exact ⟨h.pass, by simp [h.named], by simp⟩
  · -- an id that is met for the first time
    rw [heq]
    exact ⟨h.keep hid hunseen, by simp [IdRepair.keep, hid, hunseen], by simp [IdRepair.keep]⟩
  · -- an id that is replaced
    have hcause : id = "" ∨ id ∈ r.seen := hbroken.imp_left And.right
    have hne := h.fst_replace_ne hcause type
    rw [heq]
    exact ⟨h.replace hcause type, iff_of_true hne hbroken, by rw [if_neg hne]; rfl⟩

end IdRepair

/-- **A course of repairs** replaces exactly the broken ids, and counts them. -/
theorem Redraw.repaired {r r' : IdRepair} {before olds news : List (IdRole × String)}
    (h : Redraw IdRepair.repair r olds r' news) (hr : r.Met before olds) :
    (∀ i, news[i]? ≠ olds[i]? ↔ Broken (before ++ olds) (before.length + i)) ∧
      r'.changed = r.changed + (olds.zip news).countP fun p => p.1 ≠ p.2 := by
  induction h generalizing before with
  | nil r => exact ⟨fun i => by simp [Broken], by simp⟩
  | @cons role type id r r' olds news h ih =>
    obtain ⟨hmet, hchanged, hcount⟩ := hr.step type
    obtain ⟨hbroken, hrest⟩ := ih hmet
    refine ⟨fun i => ?_, ?_⟩
    · cases i with
      | zero => simp [Broken, hchanged]
      | succ i =>
        rw [List.getElem?_cons_succ, List.getElem?_cons_succ, hbroken, List.append_assoc,
          List.length_append, Nat.add_assoc, Nat.add_comm _ i]
        rfl
    · rw [hrest, hcount, List.zip_cons_cons, List.countP_cons, Nat.add_assoc,
        Nat.add_comm (ite _ _ _)]
      by_cases hkept : (IdRepair.repair role type id r).1 = id
      · simp [hkept]
      · simp [hkept, Ne.symm hkept]

theorem Redraw.roles {σ : Type} {f : IdRole → String → String → StateM σ String} {s t : σ}
    {olds news : List (IdRole × String)} (h : Redraw f s olds t news) :
    news.map Prod.fst = olds.map Prod.fst := by
  induction h with
  | nil => rfl
  | cons type _ ih => rw [List.map_cons, List.map_cons, ih]

namespace Node

theorem redraw_ensureIds (next : Nat) (tree : Node) :
    Redraw IdRepair.repair { pool := { taken := tree.ids, next } } tree.idPlaces
      (tree.ensureIds next).2 (tree.ensureIds next).1.idPlaces := redraw_mapIds tree _

theorem repaired_ensureIds (next : Nat) (tree : Node) :
    (∀ i, (tree.ensureIds next).1.idPlaces[i]? ≠ tree.idPlaces[i]? ↔ Broken tree.idPlaces i) ∧
    (tree.ensureIds next).2.changed =
      (tree.idPlaces.zip (tree.ensureIds next).1.idPlaces).countP fun p => p.1 ≠ p.2 := by
  have hstart : ({ pool := { taken := tree.ids, next } } : IdRepair).Met [] tree.idPlaces :=
    ⟨⟨.nil, nofun⟩, List.not_mem_nil, List.Subset.refl _, fun _ _ => by simp [usedIds]⟩
  obtain ⟨hbroken, hcount⟩ := (redraw_ensureIds next tree).repaired hstart
  refine ⟨fun i => ?_, ?_⟩
  · rw [hbroken, List.nil_append, List.length_nil, Nat.zero_add]
  · rw [hcount, Nat.zero_add]

/-- **A repair changes exactly what is broken.** Every node has an id afterwards and no id occurs
twice; an id has changed if and only if it was missing from a node or had occurred before; nothing
but ids has changed; the count is that of the changed ids; and a repaired tree stays as it is. -/
theorem ensureIds_exact (next : Nat) (tree : Node) :
    (tree.ensureIds next).1.HasDistinctIds ∧
    (tree.ensureIds next).1.withoutIds = tree.withoutIds ∧
    (tree.ensureIds next).1.idPlaces.map Prod.fst = tree.idPlaces.map Prod.fst ∧
    (∀ i, (tree.ensureIds next).1.idPlaces[i]? ≠ tree.idPlaces[i]? ↔ Broken tree.idPlaces i) ∧
    (tree.ensureIds next).2.changed =
      (tree.idPlaces.zip (tree.ensureIds next).1.idPlaces).countP (fun p => p.1 ≠ p.2) ∧
    ∀ again, ((tree.ensureIds next).1.ensureIds again).1 = (tree.ensureIds next).1 ∧
      ((tree.ensureIds next).1.ensureIds again).2.changed = 0 := by
  obtain ⟨hbroken, hcount⟩ := repaired_ensureIds next tree
  have hdistinct := hasDistinctIds_ensureIds next tree
  refine ⟨hdistinct, withoutIds_mapIds _ tree _, (redraw_ensureIds next tree).roles, hbroken,
    hcount, fun again => ?_⟩
  obtain ⟨hsame, -⟩ := ensureIds_eq_self hdistinct again
  refine ⟨hsame, ?_⟩
  -- the ids before and after are the same, so none of them has changed
  rw [(repaired_ensureIds again _).2, hsame]
  rw [List.zip_eq_zipWith, List.zipWith_self, List.countP_map]
  exact List.countP_eq_zero.2 fun place _ => by simp

end Node

end SchemaCanvas
