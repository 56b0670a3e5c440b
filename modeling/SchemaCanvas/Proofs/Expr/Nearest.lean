import SchemaCanvas.Proofs.Expr.Names
import SchemaCanvas.Proofs.Text.Bytes

/-!
# The nearest entry of a name

A name of an expression stands for the entry in the nearest object that has one: the object with the
fewest keys before it, and of several the one whose keys come first, key by key, in the order of
their bytes. Objects are reached from object to object, and lists are not entered.

The objects can also be gathered one by one with a queue: an object that is taken from the front
enters its fields into the table, where a name that is there already keeps its value, and sends the
objects among its fields to the end. The queue holds at most two levels at a time, so it lists the
objects level by level.

* `Json.Contains` : the objects that keys lead to;
* `Scope.gather` : the queue, and `Scope.lookup_gatherAll` : it finds the names of a scope;
* `Scope.lookup_ofContext_nearest` : the value of a name.
-/

namespace SchemaCanvas

namespace Json

/-! ### Objects in objects -/

/-- Keys lead from a value to an object, from object to object. -/
inductive Contains : Json → List String → Entries Json → Prop
  | here (fields : Entries Json) : Contains (.obj fields) [] fields
  | there {fields : Entries Json} {key : String} {inner : Json} (h : fields.lookup key = some inner)
      {keys : List String} {found : Entries Json} (hinner : Contains inner keys found) :
      Contains (.obj fields) (key :: keys) found

theorem contains_iff {v : Json} {keys : List String} {found : Entries Json} :
    v.Contains keys found ↔ v.objectAt? keys = some found := by
  constructor
  · intro h
    induction h with
    | here fields => rfl
    | there h _ ih => rw [objectAt?, fields?, Option.bind_some, h, Option.bind_some, ih]
  · intro h
    induction keys generalizing v with
    | nil =>
      cases v with
      | obj fields =>
        obtain rfl := Option.some.inj h
        exact .here fields
      | _ => cases h
    | cons key keys ih =>
      cases v with
      | obj fields =>
        obtain ⟨inner, hinner, hfound⟩ := Option.bind_eq_some_iff.1 h
        exact .there hinner (ih hfound)
      | _ => cases h

/-- Keys are nearer than others if they are fewer, or as many and the first that differs comes
before in the order of bytes. -/
def Nearer (keys keys' : List String) : Prop :=
  keys.length < keys'.length ∨
    keys.length = keys'.length ∧
      List.Lex (fun k k' => List.Lex (· < ·) (Text.bytes k) (Text.bytes k')) keys keys'

theorem nearer_iff_before {keys keys' : List String} : Nearer keys keys' ↔ Before keys keys' := by
  rw [Nearer, Before, List.shortlex_def]
  simp only [Text.lt_iff_bytes]

theorem entryAt?_eq_some_iff {v value : Json} {keys : List String} {name : String} :
    v.entryAt? keys name = some value ↔
      ∃ fields, v.Contains keys fields ∧ fields.lookup name = some value := by
  simp only [entryAt?, Option.bind_eq_some_iff, contains_iff]

theorem entryAt?_eq_none_iff {v : Json} {keys : List String} {name : String} :
    v.entryAt? keys name = none ↔
      ∀ fields, v.Contains keys fields → fields.lookup name = none := by
  simp only [entryAt?, Option.bind_eq_none_iff, contains_iff]

end Json

namespace Scope

/-! ### Objects in a queue -/

/-- The objects among the fields of an object. -/
def inner (fields : Entries Json) : List (Entries Json) := fields.filterMap fun e => e.2.fields?

/-- Enter a field into a table, unless its name has an entry. -/
def enter (table : Scope) (field : String × Json) : Scope :=
  if (table.lookup field.1).isSome then table else table ++ [field]

theorem sizeOf_inner_lt (fields : Entries Json) :
    ((inner fields).map fun found => sizeOf found).sum < sizeOf fields := by
  induction fields with
  | nil => simp [inner]
  | cons e rest ih =>
    obtain ⟨k, v⟩ := e
    cases v with
    | obj fields =>
      have hcons : inner ((k, .obj fields) :: rest) = fields :: inner rest := rfl
      simp only [hcons, List.map_cons, List.sum_cons, List.cons.sizeOf_spec, Prod.mk.sizeOf_spec,
        Json.obj.sizeOf_spec]
      omega
    | null | bool | num | str | arr =>
      refine Nat.lt_trans ih ?_
      simp only [List.cons.sizeOf_spec]
      omega

/-- Gather names from a queue of objects, each with its depth. The objects inside one that is taken
from the queue join at its end, unless they are too deep. -/
def gather (table : Scope) : List (Entries Json × Nat) → Scope
  | [] => table
  | (fields, depth) :: rest =>
    if levels ≤ depth + 1 then gather (fields.foldl enter table) rest
    else
      gather (fields.foldl enter table) (rest ++ (inner fields).map fun found => (found, depth + 1))
termination_by queue => (queue.map fun q => sizeOf q.1).sum
decreasing_by
  · have hpos : 0 < sizeOf fields := by cases fields <;> simp
    simp only [List.map_cons, List.sum_cons]
    omega
  · have := sizeOf_inner_lt fields
    simp only [List.map_cons, List.sum_cons, List.map_append, List.sum_append, List.map_map]
    simp only [Function.comp_def]
    omega

/-- All names of a context, gathered from a queue that holds the context. -/
def gatherAll (context : Json) : Scope :=
  gather [] (context.fields?.toList.map fun fields => (fields, 0))

theorem lookup_foldl_enter (table : Scope) (fields : Entries Json) (name : String) :
    (fields.foldl enter table).lookup name = (table ++ fields).lookup name := by
  induction fields generalizing table with
  | nil => simp
  | cons field rest ih =>
    rw [List.foldl_cons, ih, enter]
    split
    · next hsome =>
      obtain ⟨k, v⟩ := field
      rw [List.lookup_append, List.lookup_append, List.lookup_cons]
      split
      · next heq =>
        -- the name has an entry in the table, and the field is passed over
        rw [eq_of_beq heq]
        obtain ⟨w, hw⟩ := Option.isSome_iff_exists.1 hsome
        rw [hw]
        rfl
      · rfl
    · rw [List.append_assoc]
      rfl

theorem gather_last {depth : Nat} (hdepth : levels ≤ depth + 1) (objects : List (Entries Json))
    (table : Scope) :
    gather table (objects.map fun fields => (fields, depth)) =
      objects.flatten.foldl enter table := by
  induction objects generalizing table with
  | nil => simp [gather]
  | cons fields rest ih =>
    rw [List.map_cons, gather, if_pos hdepth, ih, List.flatten_cons, List.foldl_append]

/-- **A level is taken from the queue before the next one,** which has grown behind it. -/
theorem gather_level {depth : Nat} (hdepth : depth + 1 < levels)
    (objects behind : List (Entries Json)) (table : Scope) :
    gather table (objects.map (fun fields => (fields, depth)) ++
        behind.map fun fields => (fields, depth + 1)) =
      gather (objects.flatten.foldl enter table)
        ((behind ++ objects.flatMap inner).map fun fields => (fields, depth + 1)) := by
  induction objects generalizing behind table with
  | nil => simp
  | cons fields rest ih =>
    have hle : ¬ levels ≤ depth + 1 := by omega
    rw [List.map_cons, List.cons_append, gather, if_neg hle, List.append_assoc, ← List.map_append,
      ih, List.flatten_cons, List.foldl_append, List.flatMap_cons, List.append_assoc]

/-- From one level on, the queue lists the levels. -/
theorem gather_objectsAt (context : Json) {count depth : Nat} (h : depth + count = levels)
    (hcount : 0 < count) (table : Scope) :
    gather table ((objectsAt context depth).map fun fields => (fields, depth)) =
      ((List.range' depth count).flatMap fun depth => (objectsAt context depth).flatten).foldl enter
        table := by
  induction count generalizing depth table with
  | zero => exact absurd hcount (Nat.lt_irrefl 0)
  | succ count ih =>
    rw [List.range'_succ, List.flatMap_cons, List.foldl_append]
    by_cases hlast : count = 0
    · subst hlast
      rw [gather_last (by omega)]
      rfl
    · have hlevel := gather_level (by omega : depth + 1 < levels) (objectsAt context depth) [] table
      rw [List.map_nil, List.append_nil, List.nil_append] at hlevel
      rw [hlevel]
      exact ih (by omega) (by omega) _

/-- **The queue finds the names of a scope.** -/
theorem lookup_gatherAll (context : Json) (name : String) :
    (gatherAll context).lookup name = (ofContext context).lookup name := by
  have hall := gather_objectsAt context (Nat.zero_add levels) (by decide) []
  rw [gatherAll]
  change (gather [] ((objectsAt context 0).map _)).lookup name = _
  rw [hall, lookup_foldl_enter, List.nil_append, ofContext, List.range_eq_range']

/-! ### The value of a name -/

/-- **A name has the entry of the nearest object that has one,** among the objects with less than
eight keys before them, and no value if none of these has an entry. It makes no difference whether
the objects are listed by levels or gathered from a queue. -/
theorem lookup_ofContext_nearest {context : Json} (h : context.Ordered) (name : String) :
    (∀ value, (ofContext context).lookup name = some value ↔
      ∃ keys fields, keys.length < 8 ∧ context.Contains keys fields ∧
        fields.lookup name = some value ∧
        ∀ keys' fields', Json.Nearer keys' keys → context.Contains keys' fields' →
          fields'.lookup name = none) ∧
    ((ofContext context).lookup name = none ↔
      ∀ keys fields, keys.length < 8 → context.Contains keys fields → fields.lookup name = none) ∧
    (gatherAll context).lookup name = (ofContext context).lookup name := by
  refine ⟨fun value => ?_, ?_, lookup_gatherAll context name⟩
  · rw [lookup_ofContext_eq_some_iff h]
    constructor
    · rintro ⟨keys, hlength, hentry, hfirst⟩
      obtain ⟨fields, hfields, hlookup⟩ := Json.entryAt?_eq_some_iff.1 hentry
      refine ⟨keys, fields, hlength, hfields, hlookup, fun keys' fields' hnearer => ?_⟩
      exact Json.entryAt?_eq_none_iff.1 (hfirst keys' (Json.nearer_iff_before.1 hnearer)) fields'
    · rintro ⟨keys, fields, hlength, hfields, hlookup, hfirst⟩
      refine ⟨keys, hlength, Json.entryAt?_eq_some_iff.2 ⟨fields, hfields, hlookup⟩, ?_⟩
      intro keys' hbefore
      exact Json.entryAt?_eq_none_iff.2 fun fields' =>
        hfirst keys' fields' (Json.nearer_iff_before.2 hbefore)
  · constructor
    · intro hnone keys fields hlength hfields
      refine Json.entryAt?_eq_none_iff.1 ?_ fields hfields
      by_contra hne
      obtain ⟨value, hvalue⟩ := Option.ne_none_iff_exists'.1 hne
      obtain ⟨first, hfirst⟩ := exists_lookup_ofContext h hlength hvalue
      exact absurd (hnone.symm.trans hfirst) (by simp)
    · intro hnone
      refine Option.eq_none_iff_forall_ne_some.2 fun value hvalue => ?_
      obtain ⟨keys, hlength, hentry, -⟩ := (lookup_ofContext_eq_some_iff h).1 hvalue
      obtain ⟨fields, hfields, hlookup⟩ := Json.entryAt?_eq_some_iff.1 hentry
      exact absurd ((hnone keys fields hlength hfields).symm.trans hlookup) (by simp)

/-- A context with `name` in two objects of one depth and in one below, and `title` in a list. -/
def roomContext : Json :=
  .obj [("floor", .obj [("room", .obj [("name", .str "attic")])]),
    ("guest", .obj [("name", .str "Ada")]), ("host", .obj [("name", .str "Bob")]),
    ("plan", .arr [.obj [("title", .str "Day 1")]])]

theorem ordered_roomContext : roomContext.Ordered := by
  have hsingle {key : String} {v : Json} (h : v.Ordered) : (Json.obj [(key, v)]).Ordered :=
    .obj (List.pairwise_singleton ..) (List.forall_mem_singleton.2 h)
  have hkeys : ["floor", "guest", "host", "plan"].Pairwise (· < ·) := by decide
  refine .obj (List.pairwise_map.1 hkeys) ?_
  simp only [List.forall_mem_cons, List.not_mem_nil, false_implies, implies_true, and_true]
  refine ⟨hsingle (hsingle (.str _)), hsingle (.str _), hsingle (.str _), .arr ?_⟩
  exact List.forall_mem_singleton.2 (hsingle (.str _))

/-- The guest comes before the host and is less deep than the room, and the list is not entered. -/
theorem lookup_ofContext_nearest_roomContext :
    roomContext.Ordered ∧
    (∃ keys fields, keys.length < 8 ∧ roomContext.Contains keys fields ∧
      fields.lookup "name" = some (.str "Ada") ∧
      ∀ keys' fields', Json.Nearer keys' keys → roomContext.Contains keys' fields' →
        fields'.lookup "name" = none) ∧
    ∀ keys fields, keys.length < 8 → roomContext.Contains keys fields →
      fields.lookup "title" = none := by
  have hname := (lookup_ofContext_nearest ordered_roomContext "name").1 (.str "Ada")
  have htitle := (lookup_ofContext_nearest ordered_roomContext "title").2.1
  exact ⟨ordered_roomContext, hname.1 rfl, htitle.1 rfl⟩

end Scope

end SchemaCanvas
