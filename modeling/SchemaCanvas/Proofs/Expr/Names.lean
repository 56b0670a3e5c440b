import SchemaCanvas.Expr.Scope
import SchemaCanvas.Proofs.Json.Order
import Mathlib.Data.List.Shortlex
import Mathlib.Data.String.Basic

/-!
# Where the names of a scope come from

The table of names of a context lists the entries of all objects that can be reached by keys, level
by level, and within a level in the order of the keys. So a name has the value that it has in the
first of these objects that has it: the one that is reached by the fewest keys, and of several the
one whose keys come first.

* `Json.entryAt?` : the value of a name in the object to which keys lead;
* `Json.FirstEntry` : there is no object before that has the name;
* `Scope.lookup_ofContext_eq_some_iff` : a scope has the first entry of every name.
-/

namespace SchemaCanvas

/-! ### Lists in order -/

theorem Entries.Ordered.lookup_eq_some_iff {α : Type} {entries : Entries α} (h : entries.Ordered)
    {name : String} {v : α} : entries.lookup name = some v ↔ (name, v) ∈ entries := by
  induction entries with
  | nil => simp
  | cons e rest ih =>
    obtain ⟨k, w⟩ := e
    obtain ⟨hfirst, hrest⟩ := List.pairwise_cons.1 h
    rw [List.lookup_cons, List.mem_cons]
    by_cases heq : name = k
    · subst heq
      have hnot : (name, v) ∉ rest := fun hmem => String.lt_irrefl name (hfirst (name, v) hmem)
      simp [hnot, eq_comm]
    · rw [beq_eq_false_iff_ne.2 heq]
      simp [ih hrest, heq]

theorem Entries.lookup_flatMap {α β : Type} (l : List α) (f : α → List (String × β))
    (name : String) :
    (l.flatMap f).lookup name = l.findSome? fun a => (f a).lookup name := by
  induction l with
  | nil => rfl
  | cons a rest ih =>
    rw [List.flatMap_cons, List.lookup_append, ih, List.findSome?_cons]
    cases (f a).lookup name <;> rfl

/-- In a list in order, the first that is found comes before all others that could be. -/
theorem findSome?_eq_some_iff_of_pairwise {α β : Type} {r : α → α → Prop} [Std.Asymm r] {l : List α}
    (hl : l.Pairwise r) {f : α → Option β} {b : β} :
    l.findSome? f = some b ↔ ∃ a ∈ l, f a = some b ∧ ∀ a' ∈ l, r a' a → f a' = none := by
  induction l with
  | nil => simp
  | cons a rest ih =>
    obtain ⟨hfirst, hrest⟩ := List.pairwise_cons.1 hl
    rw [List.findSome?_cons]
    cases ha : f a with
    | some c =>
      constructor
      · rintro ⟨⟩
        refine ⟨a, List.mem_cons_self, ha, List.forall_mem_cons.2 ⟨?_, fun a' ha' hbefore => ?_⟩⟩
        · exact fun hself => absurd hself (Std.Asymm.asymm a a hself)
        · exact absurd (hfirst a' ha') (Std.Asymm.asymm a' a hbefore)
      · rintro ⟨a', hmem, ha', hnone⟩
        rcases List.mem_cons.1 hmem with rfl | hmem
        · exact ha.symm.trans ha'
        · have := hnone a List.mem_cons_self (hfirst a' hmem)
          rw [ha] at this
          cases this
    | none =>
      rw [ih hrest]
      constructor
      · rintro ⟨a', hmem, ha', hnone⟩
        exact ⟨a', List.mem_cons_of_mem _ hmem, ha',
          List.forall_mem_cons.2 ⟨fun _ => ha, hnone⟩⟩
      · rintro ⟨a', hmem, ha', hnone⟩
        rcases List.mem_cons.1 hmem with rfl | hmem
        · rw [ha] at ha'
          cases ha'
        · exact ⟨a', hmem, ha', (List.forall_mem_cons.1 hnone).2⟩

namespace Json

theorem Ordered.entries {fields : Entries Json} (h : (Json.obj fields).Ordered) :
    fields.Ordered ∧ ∀ field ∈ fields, field.2.Ordered := by
  cases h with
  | obj hfields heach => exact ⟨hfields, heach⟩

/-! ### Objects in a value -/

/-- The object to which keys lead, from object to object. -/
def objectAt? (v : Json) : List String → Option (Entries Json)
  | [] => v.fields?
  | key :: keys =>
    (v.fields?.bind fun fields => fields.lookup key).bind fun inner => inner.objectAt? keys

/-- The value of a name in the object to which keys lead. -/
def entryAt? (v : Json) (keys : List String) (name : String) : Option Json :=
  (v.objectAt? keys).bind fun fields => fields.lookup name

theorem entryAt?_nil (v : Json) (name : String) :
    v.entryAt? [] name = (v.fields?.getD []).lookup name := by
  rw [entryAt?, objectAt?]
  cases v.fields? <;> rfl

theorem entryAt?_cons (v : Json) (key : String) (keys : List String) (name : String) :
    v.entryAt? (key :: keys) name =
      ((v.fields?.getD []).lookup key).bind fun inner => inner.entryAt? keys name := by
  rw [entryAt?, objectAt?, Option.bind_assoc]
  cases v.fields? <;> rfl

/-- Keys come before others if they are fewer, or if they come first in the order of names. -/
abbrev Before : List String → List String → Prop := List.Shortlex (· < ·)

/-- The entry of a name in the first object that has one. -/
structure FirstEntry (v : Json) (keys : List String) (name : String) (value : Json) : Prop where
  entry : v.entryAt? keys name = some value
  first : ∀ earlier, Before earlier keys → v.entryAt? earlier name = none

theorem objectAt?_cons {fields : Entries Json} (h : fields.Ordered) {field : String × Json}
    (hfield : field ∈ fields) (keys : List String) :
    (obj fields).objectAt? (field.1 :: keys) = field.2.objectAt? keys := by
  rw [objectAt?, fields?, Option.bind_some, h.lookup_eq_some_iff.2 hfield, Option.bind_some]

theorem isSome_objectAt? {v value : Json} {keys : List String} {name : String}
    (h : v.entryAt? keys name = some value) : (v.objectAt? keys).isSome := by
  obtain ⟨fields, hfields, -⟩ := Option.bind_eq_some_iff.1 h
  rw [hfields]
  rfl

end Json

namespace Scope

/-- The keys of the objects at a depth, in the order in which the objects are listed. -/
def placesAt (v : Json) : Nat → List (List String)
  | 0 => v.fields?.toList.map fun _ => []
  | depth + 1 =>
    (v.fields?.getD []).flatMap fun field => (placesAt field.2 depth).map (field.1 :: ·)

/-- The keys of all objects whose names are in the table. -/
def places (v : Json) : List (List String) := (List.range levels).flatMap (placesAt v)

theorem objectsAt_succ (v : Json) (depth : Nat) :
    objectsAt v (depth + 1) =
      (v.fields?.getD []).flatMap fun field => objectsAt field.2 depth := by
  induction depth with
  | zero =>
    rw [objectsAt, objectsAt]
    cases v.fields? with
    | none => rfl
    | some fields =>
      rw [Option.toList_some, List.flatMap_singleton, List.filterMap_eq_flatMap_toList]
      rfl
  | succ depth ih =>
    rw [objectsAt, ih, List.flatMap_assoc]
    rfl

variable {v : Json}

/-- The fields of the objects at a depth, by the keys of the objects. -/
theorem flatten_objectsAt (h : v.Ordered) (depth : Nat) :
    (objectsAt v depth).flatten =
      (placesAt v depth).flatMap fun keys => (v.objectAt? keys).getD [] := by
  induction depth generalizing v with
  | zero =>
    cases hfields : v.fields? with
    | none => simp [objectsAt, placesAt, hfields]
    | some fields => simp [objectsAt, placesAt, Json.objectAt?, hfields]
  | succ depth ih =>
    rw [objectsAt_succ, placesAt]
    cases v with
    | obj fields =>
      obtain ⟨hfields, heach⟩ := h.entries
      rw [List.flatten_eq_flatMap, List.flatMap_assoc, List.flatMap_assoc]
      refine List.flatMap_congr fun field hfield => ?_
      rw [← List.flatten_eq_flatMap, ih (heach field hfield), List.flatMap_map]
      exact congrArg (List.flatMap · _) (funext fun keys => by
        rw [Json.objectAt?_cons hfields hfield])
    | null | bool | num | str | arr => rfl

theorem mem_placesAt_iff (h : v.Ordered) {depth : Nat} {keys : List String} :
    keys ∈ placesAt v depth ↔ keys.length = depth ∧ (v.objectAt? keys).isSome := by
  induction depth generalizing v keys with
  | zero =>
    rw [placesAt, List.length_eq_zero_iff]
    cases hfields : v.fields? with
    | none =>
      simp only [Option.toList_none, List.map_nil, List.not_mem_nil, false_iff, not_and]
      rintro rfl
      simp [Json.objectAt?, hfields]
    | some fields =>
      simp only [Option.toList_some, List.map_cons, List.map_nil, List.mem_singleton]
      refine (and_iff_left_of_imp ?_).symm
      rintro rfl
      simp [Json.objectAt?, hfields]
  | succ depth ih =>
    rw [placesAt]
    cases v with
    | obj fields =>
      obtain ⟨hfields, heach⟩ := h.entries
      simp only [Json.fields?, Option.getD_some, List.mem_flatMap, List.mem_map]
      constructor
      · rintro ⟨field, hfield, keys, hkeys, rfl⟩
        obtain ⟨hlength, hobject⟩ := (ih (heach field hfield)).1 hkeys
        rw [Json.objectAt?_cons hfields hfield]
        exact ⟨congrArg (· + 1) hlength, hobject⟩
      · rintro ⟨hlength, hobject⟩
        obtain ⟨key, keys, rfl⟩ := List.exists_cons_of_length_eq_add_one hlength
        obtain ⟨found, hfound⟩ := Option.isSome_iff_exists.1 hobject
        obtain ⟨inner, hinner, hfound⟩ := Option.bind_eq_some_iff.1 hfound
        have hfield : (key, inner) ∈ fields := hfields.lookup_eq_some_iff.1 hinner
        have hbelow : (inner.objectAt? keys).isSome := hfound ▸ rfl
        exact ⟨_, hfield, keys, (ih (heach _ hfield)).2 ⟨Nat.succ.inj hlength, hbelow⟩, rfl⟩
    | null | bool | num | str | arr => cases keys <;> simp [Json.fields?, Json.objectAt?]

theorem pairwise_placesAt (h : v.Ordered) (depth : Nat) :
    (placesAt v depth).Pairwise (List.Lex (· < ·)) := by
  induction depth generalizing v with
  | zero =>
    rw [placesAt]
    cases v.fields? <;> simp
  | succ depth ih =>
    rw [placesAt]
    cases v with
    | obj fields =>
      obtain ⟨hfields, heach⟩ := h.entries
      refine List.pairwise_flatMap.2 ⟨fun field hfield => ?_, ?_⟩
      · exact List.pairwise_map.2 ((ih (heach field hfield)).imp List.Lex.cons)
      · refine hfields.imp fun hlt => ?_
        intro keys hkeys keys' hkeys'
        obtain ⟨_, -, rfl⟩ := List.mem_map.1 hkeys
        obtain ⟨_, -, rfl⟩ := List.mem_map.1 hkeys'
        exact .rel hlt
    | null | bool | num | str | arr => exact .nil

theorem pairwise_places (h : v.Ordered) : (places v).Pairwise Json.Before := by
  refine List.pairwise_flatMap.2 ⟨fun depth _ => ?_, ?_⟩
  · refine (pairwise_placesAt h depth).imp_of_mem fun hkeys hkeys' hlex => ?_
    obtain ⟨hlength, -⟩ := (mem_placesAt_iff h).1 hkeys
    obtain ⟨hlength', -⟩ := (mem_placesAt_iff h).1 hkeys'
    exact .of_lex (hlength.trans hlength'.symm) hlex
  · refine List.pairwise_lt_range.imp fun hlt keys hkeys keys' hkeys' => ?_
    obtain ⟨rfl, -⟩ := (mem_placesAt_iff h).1 hkeys
    obtain ⟨rfl, -⟩ := (mem_placesAt_iff h).1 hkeys'
    exact .of_length_lt hlt

theorem mem_places_iff (h : v.Ordered) {keys : List String} :
    keys ∈ places v ↔ keys.length < levels ∧ (v.objectAt? keys).isSome := by
  simp [places, mem_placesAt_iff h]

/-- A name is looked up in all objects, place by place. -/
theorem lookup_ofContext_eq (h : v.Ordered) (name : String) :
    (ofContext v).lookup name = (places v).findSome? fun keys => v.entryAt? keys name := by
  have hobjects : ofContext v = (places v).flatMap fun keys => (v.objectAt? keys).getD [] := by
    rw [ofContext, places, List.flatMap_assoc]
    exact congrArg (List.flatMap · _) (funext (flatten_objectsAt h))
  rw [hobjects, Entries.lookup_flatMap]
  refine congrArg (List.findSome? · _) (funext fun keys => ?_)
  rw [Json.entryAt?]
  cases v.objectAt? keys <;> rfl

/-- **A scope has the first entry of every name,** among the objects above its last level. -/
theorem lookup_ofContext_eq_some_iff (h : v.Ordered) {name : String} {value : Json} :
    (ofContext v).lookup name = some value ↔
      ∃ keys, keys.length < levels ∧ v.FirstEntry keys name value := by
  rw [lookup_ofContext_eq h, findSome?_eq_some_iff_of_pairwise (pairwise_places h)]
  constructor
  · rintro ⟨keys, hkeys, hentry, hfirst⟩
    obtain ⟨hlength, -⟩ := (mem_places_iff h).1 hkeys
    refine ⟨keys, hlength, hentry, fun earlier hearlier => ?_⟩
    -- an object with the name would have been looked at
    by_contra hne
    obtain ⟨other, hother⟩ := Option.ne_none_iff_exists'.1 hne
    have hle : earlier.length ≤ keys.length := by
      rcases List.shortlex_def.1 hearlier with hlt | ⟨heq, -⟩
      · exact Nat.le_of_lt hlt
      · exact heq.le
    exact hne (hfirst earlier ((mem_places_iff h).2
      ⟨Nat.lt_of_le_of_lt hle hlength, Json.isSome_objectAt? hother⟩) hearlier)
  · rintro ⟨keys, hlength, hentry, hfirst⟩
    exact ⟨keys, (mem_places_iff h).2 ⟨hlength, Json.isSome_objectAt? hentry⟩, hentry,
      fun earlier _ hearlier => hfirst earlier hearlier⟩

theorem exists_lookup_ofContext (h : v.Ordered) {keys : List String} {name : String} {value : Json}
    (hlength : keys.length < levels) (hentry : v.entryAt? keys name = some value) :
    ∃ first, (ofContext v).lookup name = some first := by
  rw [lookup_ofContext_eq h]
  refine Option.isSome_iff_exists.1 (List.findSome?_isSome_iff.2 ⟨keys, ?_, ?_⟩)
  · exact (mem_places_iff h).2 ⟨hlength, Json.isSome_objectAt? hentry⟩
  · rw [hentry]
    rfl

end Scope

end SchemaCanvas
