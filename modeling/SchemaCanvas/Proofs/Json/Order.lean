import SchemaCanvas.Proofs.Json.Reading

/-!
# The order of fields

Written text lists the fields of an object as the value holds them, and reading brings them into the
order of their names, at every depth. A value that has been read is in order already.

* `Json.sorted` brings all fields of a value into order, `Json.Ordered` says that they are;
* `Json.read?_pretty` : written text is read as the value with all fields in order, unless it is
  nested too deeply;
* `Json.ordered_of_read?` : what is read is in order.
-/

namespace SchemaCanvas

namespace Entries

variable {α : Type} {entries : Entries α}

theorem mem_insert {name : String} {value : α} {e : String × α}
    (h : e ∈ insert name value entries) : e = (name, value) ∨ e ∈ entries := by
  induction entries with
  | nil => exact .inl (List.mem_singleton.1 h)
  | cons a rest ih =>
    obtain ⟨k, v⟩ := a
    rw [insert] at h
    split at h
    · exact List.mem_cons.1 h
    · split at h
      · exact (List.mem_cons.1 h).imp_right (List.mem_cons_of_mem _)
      · rcases List.mem_cons.1 h with rfl | h
        · exact .inr List.mem_cons_self
        · exact (ih h).imp_right (List.mem_cons_of_mem _)

theorem mem_ofList {pairs : List (String × α)} {e : String × α} (h : e ∈ ofList pairs) :
    e ∈ pairs := by
  have step (pairs : List (String × α)) (entries : Entries α)
      (h : e ∈ pairs.foldl (fun entries e => insert e.1 e.2 entries) entries) :
      e ∈ pairs ∨ e ∈ entries := by
    induction pairs generalizing entries with
    | nil => exact .inr h
    | cons a rest ih =>
      rcases ih _ h with hrest | hentries
      · exact .inl (List.mem_cons_of_mem _ hrest)
      · rcases mem_insert hentries with rfl | hentries
        · exact .inl List.mem_cons_self
        · exact .inr hentries
  exact (step pairs [] h).resolve_right List.not_mem_nil

/-- An entry whose name comes last is put at the end. -/
theorem insert_eq_append {name : String} (value : α) (h : ∀ e ∈ entries, e.1 < name) :
    insert name value entries = entries ++ [(name, value)] := by
  induction entries with
  | nil => rfl
  | cons a rest ih =>
    obtain ⟨k, v⟩ := a
    obtain ⟨hk, hrest⟩ := List.forall_mem_cons.1 h
    have hlt : ¬ name < k := String.lt_asymm hk
    have hne : name ≠ k := fun heq => String.lt_irrefl _ (heq ▸ hk)
    rw [insert, if_neg hlt, if_neg hne, ih hrest, List.cons_append]

theorem Ordered.ofList_eq (h : Ordered entries) : ofList entries = entries := by
  have step (rest before : Entries α) (h : Ordered (before ++ rest)) :
      rest.foldl (fun entries e => Entries.insert e.1 e.2 entries) before = before ++ rest := by
    induction rest generalizing before with
    | nil => rw [List.foldl_nil, List.append_nil]
    | cons e rest ih =>
      have hlast : ∀ a ∈ before, a.1 < e.1 := fun a ha =>
        (List.pairwise_append.1 h).2.2 a ha e List.mem_cons_self
      have hassoc : before ++ [(e.1, e.2)] ++ rest = before ++ e :: rest := by
        rw [List.append_assoc, List.singleton_append]
      rw [List.foldl_cons, insert_eq_append e.2 hlast, ih _ (hassoc ▸ h), hassoc]
  exact step entries [] h

end Entries

namespace Json

/-! ### Values in order -/

/-- All objects in a value have their fields in the order of their names. -/
inductive Ordered : Json → Prop
  | null : Ordered null
  | bool (b : Bool) : Ordered (bool b)
  | num (n : Number) : Ordered (num n)
  | str (s : String) : Ordered (str s)
  | arr {items : List Json} : (∀ v ∈ items, Ordered v) → Ordered (arr items)
  | obj {fields : List (String × Json)} :
      Entries.Ordered fields → (∀ field ∈ fields, Ordered field.2) → Ordered (obj fields)

mutual

/-- A value with the fields of all its objects in order. -/
def sorted : Json → Json
  | arr items => arr (sortedItems items)
  | obj fields => object (sortedFields fields)
  | v => v

/-- Items, each with all fields in order. -/
def sortedItems : List Json → List Json
  | [] => []
  | v :: rest => sorted v :: sortedItems rest

/-- Fields, each with all fields of its value in order. -/
def sortedFields : List (String × Json) → List (String × Json)
  | [] => []
  | (name, v) :: rest => (name, sorted v) :: sortedFields rest

end

theorem sortedItems_eq_map (items : List Json) : sortedItems items = items.map sorted := by
  induction items with
  | nil => rfl
  | cons v rest ih => rw [sortedItems, ih, List.map_cons]

theorem sortedFields_eq_map (fields : List (String × Json)) :
    sortedFields fields = fields.map fun field => (field.1, field.2.sorted) := by
  induction fields with
  | nil => rfl
  | cons field rest ih => rw [sortedFields, ih, List.map_cons]

theorem Ordered.sorted_eq {v : Json} (h : v.Ordered) : v.sorted = v := by
  induction h with
  | null | bool | num | str => rfl
  | @arr items _ ih =>
    rw [sorted, sortedItems_eq_map, List.map_congr_left ih, List.map_id']
  | @obj fields hfields _ ih =>
    have hfield : ∀ field ∈ fields, (field.1, field.2.sorted) = field := fun field h =>
      Prod.ext rfl (ih field h)
    have heq : sortedFields fields = fields := by
      rw [sortedFields_eq_map, List.map_congr_left hfield, List.map_id']
    rw [sorted, heq, object, hfields.ofList_eq]

end Json

/-! ### Reading -/

namespace Document

mutual

/-- A document made of a value means this value with all fields in order. -/
theorem value?_ofJson : ∀ v : Json, (ofJson v).value? = some v.sorted
  | .null | .bool _ | .num _ | .str _ => rfl
  | .arr items => by rw [ofJson, value?, itemValues?_ofItems items]; rfl
  | .obj fields => by rw [ofJson, value?, fieldValues?_ofFields fields]; rfl

theorem itemValues?_ofItems : ∀ items : List Json,
    itemValues? (ofItems items) = some (Json.sortedItems items)
  | [] => rfl
  | v :: rest => by
    rw [ofItems, itemValues?, value?_ofJson v, itemValues?_ofItems rest]
    rfl

theorem fieldValues?_ofFields : ∀ fields : List (String × Json),
    fieldValues? (ofFields fields) = some (Json.sortedFields fields)
  | [] => rfl
  | (name, v) :: rest => by
    rw [ofFields, fieldValues?, value?_ofJson v, fieldValues?_ofFields rest]
    rfl

end

mutual

theorem ordered_of_value? : ∀ (d : Document) {v : Json}, d.value? = some v → v.Ordered
  | null, _, h => by
    cases h
    exact .null
  | bool b, _, h => by
    cases h
    exact .bool b
  | num n, _, h => by
    obtain ⟨n, -, rfl⟩ := Option.map_eq_some_iff.1 h
    exact .num n
  | str s, _, h => by
    obtain ⟨s, -, rfl⟩ := Option.map_eq_some_iff.1 h
    exact .str s
  | arr items, _, h => by
    obtain ⟨vs, hvs, rfl⟩ := Option.map_eq_some_iff.1 h
    exact .arr (ordered_of_itemValues? items hvs)
  | obj fields, _, h => by
    obtain ⟨pairs, hpairs, rfl⟩ := Option.map_eq_some_iff.1 h
    have hvalues := ordered_of_fieldValues? fields hpairs
    exact .obj (Entries.ordered_ofList pairs) fun field hfield =>
      hvalues field (Entries.mem_ofList hfield)

theorem ordered_of_itemValues? : ∀ (items : List Document) {vs : List Json},
    itemValues? items = some vs → ∀ v ∈ vs, v.Ordered
  | [], _, h => by
    cases h
    exact List.forall_mem_nil _
  | d :: rest, _, h => by
    simp only [itemValues?, Option.bind_eq_bind, Option.bind_eq_some_iff] at h
    obtain ⟨v, hv, vs, hvs, heq⟩ := h
    obtain rfl := Option.some.inj heq
    exact List.forall_mem_cons.2 ⟨ordered_of_value? d hv, ordered_of_itemValues? rest hvs⟩

theorem ordered_of_fieldValues? : ∀ (fields : List (Option String × Document))
    {pairs : List (String × Json)}, fieldValues? fields = some pairs → ∀ e ∈ pairs, e.2.Ordered
  | [], _, h => by
    cases h
    exact List.forall_mem_nil _
  | (name, d) :: rest, _, h => by
    simp only [fieldValues?, Option.bind_eq_bind, Option.bind_eq_some_iff] at h
    obtain ⟨name, -, v, hv, pairs, hpairs, heq⟩ := h
    obtain rfl := Option.some.inj heq
    exact List.forall_mem_cons.2 ⟨ordered_of_value? d hv, ordered_of_fieldValues? rest hpairs⟩

end

end Document

namespace Json

/-- **Written text is read as the value with all fields in order,** unless it is nested too
deeply. -/
theorem read?_pretty {v : Json} (h : v.Readable) :
    read? v.pretty = if v.nesting ≤ maxNesting then some v.sorted else none := by
  rw [read?, Document.read?_pretty h, ← Document.value?_ofJson]
  rfl

theorem exists_of_read? {text : String} {v : Json} (h : read? text = some v) :
    ∃ d, Document.read? text = some d ∧ d.value? = some v := by
  rw [read?] at h
  split at h
  · next d hd =>
    split at h
    · exact ⟨d, hd, h⟩
    · cases h
  · cases h

theorem ordered_of_read? {text : String} {v : Json} (h : read? text = some v) : v.Ordered := by
  obtain ⟨d, -, hv⟩ := exists_of_read? h
  exact d.ordered_of_value? hv

end Json

end SchemaCanvas
