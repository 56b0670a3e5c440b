import SchemaCanvas.Proofs.Json.Order

/-!
# The depth of a value

Text is read only if it is not nested too deeply, so how deeply a value is nested decides whether it
can be read once it has been written.

* `Json.nesting_arr_le_iff`, `Json.nesting_obj_le_iff` : a value is one level deeper than the values
  in it;
* `Document.nesting_le_of_value?` : a value is nested at most as deeply as the text that it is read
  from.
-/

namespace SchemaCanvas

namespace Json

variable {n : Nat}

theorem nestingOfItems_le_iff {items : List Json} :
    Document.nestingOfItems (Document.ofItems items) ≤ n ↔ ∀ v ∈ items, v.nesting ≤ n := by
  induction items with
  | nil => simp [Document.ofItems, Document.nestingOfItems]
  | cons v rest ih =>
    rw [Document.ofItems, Document.nestingOfItems, Nat.max_le, ih, List.forall_mem_cons, nesting]

theorem nestingOfFields_le_iff {fields : List (String × Json)} :
    Document.nestingOfFields (Document.ofFields fields) ≤ n ↔
      ∀ field ∈ fields, field.2.nesting ≤ n := by
  induction fields with
  | nil => simp [Document.ofFields, Document.nestingOfFields]
  | cons field rest ih =>
    rw [Document.ofFields, Document.nestingOfFields, Nat.max_le, ih, List.forall_mem_cons, nesting]

/-- A list is one level deeper than its items. -/
theorem nesting_arr_le_iff {items : List Json} :
    (arr items).nesting ≤ n + 1 ↔ ∀ v ∈ items, v.nesting ≤ n := by
  rw [← nestingOfItems_le_iff, nesting, Document.ofJson, Document.nesting, Nat.add_comm,
    Nat.add_le_add_iff_right]

theorem nesting_obj_le_iff {fields : List (String × Json)} :
    (obj fields).nesting ≤ n + 1 ↔ ∀ field ∈ fields, field.2.nesting ≤ n := by
  rw [← nestingOfFields_le_iff, nesting, Document.ofJson, Document.nesting, Nat.add_comm,
    Nat.add_le_add_iff_right]

theorem nesting_arr_cons (v : Json) (rest : List Json) :
    (arr (v :: rest)).nesting = max (1 + v.nesting) (arr rest).nesting :=
  (Nat.add_max_add_left ..).symm

theorem nesting_arr_pos (items : List Json) : 0 < (arr items).nesting := by
  rw [nesting, Document.ofJson, Document.nesting]
  omega

theorem nesting_obj_pos (fields : List (String × Json)) : 0 < (obj fields).nesting := by
  rw [nesting, Document.ofJson, Document.nesting]
  omega

theorem nesting_lt_of_mem_items {items : List Json} {v : Json} (h : v ∈ items) :
    v.nesting < (arr items).nesting := by
  obtain ⟨n, hn⟩ := Nat.exists_eq_add_one.2 (nesting_arr_pos items)
  have hv := nesting_arr_le_iff.1 (Nat.le_of_eq hn) v h
  omega

theorem nesting_lt_of_mem_fields {fields : List (String × Json)} {field : String × Json}
    (h : field ∈ fields) : field.2.nesting < (obj fields).nesting := by
  obtain ⟨n, hn⟩ := Nat.exists_eq_add_one.2 (nesting_obj_pos fields)
  have hfield := nesting_obj_le_iff.1 (Nat.le_of_eq hn) field h
  omega

theorem nesting_lt_of_lookup {fields : Entries Json} {name : String} {v : Json}
    (h : fields.lookup name = some v) : v.nesting < (obj fields).nesting := by
  obtain ⟨before, after, rfl, -⟩ := List.lookup_eq_some_iff.1 h
  have hmem : (name, v) ∈ before ++ (name, v) :: after :=
    List.mem_append_right before List.mem_cons_self
  exact nesting_lt_of_mem_fields hmem

end Json

namespace Document

mutual

/-- **A value is nested at most as deeply as the text that it is read from.** -/
theorem nesting_le_of_value? : ∀ (d : Document) {v : Json}, d.value? = some v →
    v.nesting ≤ d.nesting
  | null, _, h | bool _, _, h => by
    cases h
    exact Nat.zero_le _
  | num _, _, h | str _, _, h => by
    obtain ⟨_, -, rfl⟩ := Option.map_eq_some_iff.1 h
    exact Nat.zero_le _
  | arr items, _, h => by
    obtain ⟨vs, hvs, rfl⟩ := Option.map_eq_some_iff.1 h
    rw [nesting, Nat.add_comm]
    exact Json.nesting_arr_le_iff.2 (nesting_le_of_itemValues? items hvs)
  | obj fields, _, h => by
    obtain ⟨pairs, hpairs, rfl⟩ := Option.map_eq_some_iff.1 h
    rw [nesting, Nat.add_comm]
    refine Json.nesting_obj_le_iff.2 fun field hfield => ?_
    exact nesting_le_of_fieldValues? fields hpairs field (Entries.mem_ofList hfield)

theorem nesting_le_of_itemValues? : ∀ (items : List Document) {vs : List Json},
    itemValues? items = some vs → ∀ v ∈ vs, v.nesting ≤ nestingOfItems items
  | [], _, h => by
    cases h
    exact List.forall_mem_nil _
  | d :: rest, _, h => by
    simp only [itemValues?, Option.bind_eq_bind, Option.bind_eq_some_iff] at h
    obtain ⟨v, hv, vs, hvs, heq⟩ := h
    obtain rfl := Option.some.inj heq
    refine List.forall_mem_cons.2 ⟨(nesting_le_of_value? d hv).trans (Nat.le_max_left ..), ?_⟩
    intro v hmem
    exact (nesting_le_of_itemValues? rest hvs v hmem).trans (Nat.le_max_right ..)

theorem nesting_le_of_fieldValues? : ∀ (fields : List (Option String × Document))
    {pairs : List (String × Json)}, fieldValues? fields = some pairs →
      ∀ e ∈ pairs, e.2.nesting ≤ nestingOfFields fields
  | [], _, h => by
    cases h
    exact List.forall_mem_nil _
  | (name, d) :: rest, _, h => by
    simp only [fieldValues?, Option.bind_eq_bind, Option.bind_eq_some_iff] at h
    obtain ⟨name, -, v, hv, pairs, hpairs, heq⟩ := h
    obtain rfl := Option.some.inj heq
    refine List.forall_mem_cons.2 ⟨(nesting_le_of_value? d hv).trans (Nat.le_max_left ..), ?_⟩
    intro e hmem
    exact (nesting_le_of_fieldValues? rest hpairs e hmem).trans (Nat.le_max_right ..)

end

end Document

end SchemaCanvas
