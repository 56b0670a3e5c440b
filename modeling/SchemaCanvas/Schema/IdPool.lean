/-!
# Draws of ids

An id is made of the type of a node and a draw. Draws are numbered, and a draw that would give an id
in use is passed over.

* `IdPool.fresh` gives a new id, one that was not in use (`IdPool.fst_fresh_not_mem`);
* `IdPool.candidate_injective`: different draws give different ids, so a draw is found after at most
  as many as there are ids in use.
-/

namespace SchemaCanvas

/-- The ids in use and the number of the next draw. -/
structure IdPool where
  taken : List String
  next : Nat

namespace IdPool

/-- The text of a draw: at least eight hexadecimal digits. -/
def drawText (n : Nat) : String :=
  let digits := Nat.toDigits 16 n
  String.ofList (List.replicate (8 - digits.length) '0' ++ digits)

/-- The part of an id that names a type: its ASCII letters, digits, hyphens and underscores. -/
def stem (type : String) : String :=
  let kept := type.toList.filter fun c => c.isAlphanum || c = '-' || c = '_'
  if kept.isEmpty then "node" else String.ofList kept

/-- The id that a draw gives to a node of a type. -/
def candidate (type : String) (draw : Nat) : String := stem type ++ "-" ++ drawText draw

/-- How many draws are passed over, as they give ids in use. Different draws give different ids, so
one more draw than there are ids in use is enough. -/
def passedOver (pool : IdPool) (type : String) : Nat :=
  ((List.range (pool.taken.length + 1)).find? fun k =>
    !pool.taken.contains (candidate type (pool.next + k))).getD 0

/-- A new id for a node of a type, which is in use from now on. -/
def fresh (type : String) : StateM IdPool String := fun pool =>
  let draw := pool.next + pool.passedOver type
  let id := candidate type draw
  (id, { taken := id :: pool.taken, next := draw + 1 })

/-! ### New ids are new -/

/-- The value of a hexadecimal digit. -/
def hexValue (c : Char) : Nat := if c.toNat < 0x40 then c.toNat - 0x30 else c.toNat - 0x57

theorem hexValue_digitChar {n : Nat} (h : n < 16) : hexValue n.digitChar = n := by
  have : ∀ n : Fin 16, hexValue (Nat.digitChar n) = n := by decide
  exact this ⟨n, h⟩

theorem foldl_toDigits (n : Nat) :
    (Nat.toDigits 16 n).foldl (fun v c => 16 * v + hexValue c) 0 = n := by
  induction n using Nat.strongRecOn with
  | ind n ih =>
    by_cases h : n < 16
    · rw [Nat.toDigits_of_lt_base h]
      simp [hexValue_digitChar h]
    · rw [Nat.toDigits_of_base_le (by decide) (Nat.le_of_not_lt h), List.foldl_append,
        ih (n / 16) (by omega)]
      simp only [List.foldl_cons, List.foldl_nil, hexValue_digitChar (Nat.mod_lt n (by decide))]
      omega

theorem drawText_injective {m n : Nat} (h : drawText m = drawText n) : m = n := by
  have value (k : Nat) :
      (drawText k).toList.foldl (fun v c => 16 * v + hexValue c) 0 = k := by
    have zeros (j : Nat) :
        (List.replicate j '0').foldl (fun v c => 16 * v + hexValue c) 0 = 0 := by
      induction j with
      | zero => rfl
      | succ j ih => exact ih
    rw [drawText, String.toList_ofList, List.foldl_append, zeros, foldl_toDigits]
  rw [← value m, h, value n]

theorem candidate_injective {type : String} {m n : Nat} (h : candidate type m = candidate type n) :
    m = n := by
  refine drawText_injective (String.toList_inj.1 ?_)
  have := congrArg String.toList h
  simpa [candidate] using this

/-- The draw that is taken gives an id that is not in use. -/
theorem candidate_passedOver (pool : IdPool) (type : String) :
    candidate type (pool.next + pool.passedOver type) ∉ pool.taken := by
  rw [passedOver]
  cases hfind : (List.range (pool.taken.length + 1)).find? fun k =>
      !pool.taken.contains (candidate type (pool.next + k)) with
  | some k =>
    have := List.find?_some hfind
    simpa using this
  | none =>
    have used : ∀ k < pool.taken.length + 1, candidate type (pool.next + k) ∈ pool.taken := by
      simpa using hfind
    have hnodup : ((List.range (pool.taken.length + 1)).map fun k =>
        candidate type (pool.next + k)).Nodup := by
      refine List.pairwise_map.2 (List.nodup_range.imp fun hne h => hne ?_)
      have := candidate_injective h
      omega
    have hsub : ((List.range (pool.taken.length + 1)).map fun k =>
        candidate type (pool.next + k)) ⊆ pool.taken := by
      intro id h
      obtain ⟨k, hk, rfl⟩ := List.mem_map.1 h
      exact used k (List.mem_range.1 hk)
    have := hnodup.length_le_of_subset hsub
    simp only [List.length_map, List.length_range] at this
    omega

theorem fst_fresh_not_mem (type : String) (pool : IdPool) : (fresh type pool).1 ∉ pool.taken :=
  candidate_passedOver pool type

/-- A new id is in use afterwards, and nothing else has changed. -/
theorem taken_snd_fresh (type : String) (pool : IdPool) :
    (fresh type pool).2.taken = (fresh type pool).1 :: pool.taken := rfl

end IdPool

end SchemaCanvas
