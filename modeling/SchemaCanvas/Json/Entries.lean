/-!
# Named entries

`Entries` are names with values, as objects and other records of names hold them. They stand in the
order of their names (`Entries.Ordered`), which is the order in which they are listed and written.

* `Entries.lookup_insert_self`, `Entries.lookup_insert_of_ne` and their like say what every
  operation does to the value of a name;
* `Entries.ordered_ofList` says that entries given in any order are brought into order.
-/

namespace SchemaCanvas

/-- Named entries, in the order of their names. -/
abbrev Entries (α : Type) := List (String × α)

namespace Entries

variable {α : Type}

/-- Put an entry in its place, over an entry of that name. -/
def insert (name : String) (value : α) : Entries α → Entries α
  | [] => [(name, value)]
  | (k, v) :: rest =>
    if name < k then (name, value) :: (k, v) :: rest
    else if name = k then (name, value) :: rest
    else (k, v) :: insert name value rest

/-- Remove the entry of a name. -/
def erase (name : String) (entries : Entries α) : Entries α :=
  entries.filter fun e => e.1 != name

/-- Entries in any order; the last of a name counts. -/
def ofList (pairs : List (String × α)) : Entries α :=
  pairs.foldl (fun entries e => insert e.1 e.2 entries) []

/-- The entries of `own`, and those of `base` that `own` does not name. -/
def orElse (own base : Entries α) : Entries α :=
  base.foldl
    (fun entries e => if (entries.lookup e.1).isSome then entries else insert e.1 e.2 entries) own

/-! ### Values of names -/

@[simp]
theorem lookup_insert_self (name : String) (value : α) (entries : Entries α) :
    (insert name value entries).lookup name = some value := by
  induction entries with
  | nil => simp [insert]
  | cons e rest ih =>
    obtain ⟨k, v⟩ := e
    rw [insert]
    split
    · simp
    · split
      · simp
      · next h => rw [List.lookup_cons, beq_eq_false_iff_ne.2 h, ih]

theorem lookup_insert_of_ne {k name : String} (h : k ≠ name) (value : α) (entries : Entries α) :
    (insert name value entries).lookup k = entries.lookup k := by
  have hb : (k == name) = false := beq_eq_false_iff_ne.2 h
  induction entries with
  | nil => simp [insert, List.lookup_cons, hb]
  | cons e rest ih =>
    obtain ⟨l, v⟩ := e
    rw [insert]
    split
    · rw [List.lookup_cons, hb]
    · split
      · next hl => subst hl; rw [List.lookup_cons, hb, List.lookup_cons, hb]
      · rw [List.lookup_cons, List.lookup_cons, ih]

@[simp]
theorem lookup_erase_self (name : String) (entries : Entries α) :
    (erase name entries).lookup name = none := by
  induction entries with
  | nil => rfl
  | cons e rest ih =>
    obtain ⟨k, v⟩ := e
    by_cases h : k = name
    · simpa [erase, h] using ih
    · have hb : (name == k) = false := beq_eq_false_iff_ne.2 (Ne.symm h)
      simpa [erase, h, List.lookup_cons, hb] using ih

theorem lookup_erase_of_ne {k name : String} (h : k ≠ name) (entries : Entries α) :
    (erase name entries).lookup k = entries.lookup k := by
  induction entries with
  | nil => rfl
  | cons e rest ih =>
    obtain ⟨l, v⟩ := e
    by_cases hl : l = name
    · have hb : (k == l) = false := beq_eq_false_iff_ne.2 (hl ▸ h)
      rw [List.lookup_cons, hb]
      simpa [erase, hl] using ih
    · rw [List.lookup_cons, ← ih]
      simp [erase, hl, List.lookup_cons]

/-- Entries that are put in one after the other count before those that were there, and of several
of a name the last counts. -/
theorem lookup_foldl_insert (pairs : List (String × α)) (entries : Entries α) (name : String) :
    (pairs.foldl (fun entries e => insert e.1 e.2 entries) entries).lookup name =
      (pairs.reverse.lookup name).or (entries.lookup name) := by
  induction pairs generalizing entries with
  | nil => simp
  | cons e rest ih =>
    obtain ⟨k, v⟩ := e
    rw [List.foldl_cons, ih, List.reverse_cons, List.lookup_append, Option.or_assoc]
    by_cases h : name = k
    · subst h; simp
    · rw [lookup_insert_of_ne h, List.lookup_cons, beq_eq_false_iff_ne.2 h]; simp

theorem lookup_ofList (pairs : List (String × α)) (name : String) :
    (ofList pairs).lookup name = pairs.reverse.lookup name := by
  rw [ofList, lookup_foldl_insert, List.lookup_nil, Option.or_none]

/-- An entry of `own` counts before an entry of `base`. -/
theorem lookup_orElse (own base : Entries α) (name : String) :
    (orElse own base).lookup name = (own.lookup name).or (base.lookup name) := by
  induction base generalizing own with
  | nil => simp [orElse]
  | cons e rest ih =>
    obtain ⟨k, v⟩ := e
    rw [orElse, List.foldl_cons]
    change (orElse _ rest).lookup name = _
    rw [ih]
    by_cases h : name = k
    · subst h
      cases ho : own.lookup name <;> simp [ho]
    · rw [List.lookup_cons, beq_eq_false_iff_ne.2 h]
      split
      · rfl
      · rw [lookup_insert_of_ne h]

/-! ### Order -/

/-- The entries stand in the order of their names, every name once. -/
def Ordered (entries : Entries α) : Prop := entries.Pairwise fun a b => a.1 < b.1

theorem fst_of_mem_insert {name : String} {value : α} {entries : Entries α} {e : String × α}
    (h : e ∈ insert name value entries) : e.1 = name ∨ e ∈ entries := by
  induction entries with
  | nil => simp_all [insert]
  | cons a rest ih =>
    obtain ⟨k, v⟩ := a
    rw [insert] at h
    split at h
    · rcases List.mem_cons.1 h with rfl | h
      · exact .inl rfl
      · exact .inr h
    · split at h
      · rcases List.mem_cons.1 h with rfl | h
        · exact .inl rfl
        · exact .inr (List.mem_cons_of_mem _ h)
      · rcases List.mem_cons.1 h with rfl | h
        · exact .inr (List.mem_cons_self ..)
        · exact (ih h).imp_right (List.mem_cons_of_mem _)

theorem Ordered.insert {entries : Entries α} (h : Ordered entries) (name : String) (value : α) :
    Ordered (insert name value entries) := by
  induction entries with
  | nil => simp [Ordered, Entries.insert]
  | cons a rest ih =>
    obtain ⟨k, v⟩ := a
    obtain ⟨hk, hrest⟩ := List.pairwise_cons.1 h
    rw [Entries.insert]
    split
    · next hlt =>
      refine List.pairwise_cons.2 ⟨fun e he => ?_, h⟩
      rcases List.mem_cons.1 he with rfl | he
      · exact hlt
      · exact String.lt_trans hlt (hk e he)
    · split
      · next heq => exact List.pairwise_cons.2 ⟨heq ▸ hk, hrest⟩
      · next hlt hne =>
        refine List.pairwise_cons.2 ⟨fun e he => ?_, ih hrest⟩
        rcases fst_of_mem_insert he with heq | he
        · have : ¬ name ≤ k := fun hle => hne (String.le_antisymm hle (String.not_lt.1 hlt))
          rw [heq]
          exact Classical.not_not.1 fun hn => this (String.not_lt.1 hn)
        · exact hk e he

theorem ordered_ofList (pairs : List (String × α)) : Ordered (ofList pairs) := by
  have step (pairs : List (String × α)) (entries : Entries α) (h : Ordered entries) :
      Ordered (pairs.foldl (fun entries e => Entries.insert e.1 e.2 entries) entries) := by
    induction pairs generalizing entries with
    | nil => exact h
    | cons e rest ih => exact ih _ (h.insert e.1 e.2)
  exact step pairs [] .nil

end Entries

end SchemaCanvas
