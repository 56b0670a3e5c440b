import SchemaCanvas.Proofs.Expr.Names
import SchemaCanvas.Proofs.Schema.Sorted
import SchemaCanvas.Render.Component

/-!
# Names of a component

The defaults of a component lie under the context: where the context has an entry, it is kept, and
defaults are added where there is none. An expression looks for a name in all objects of the merged
context, so an added entry counts if its object comes before the one in which the context has the
name, be it less deep or, at the same depth, earlier in the order of keys.

* `Component.entryAt?_context` : every entry of the merged context is one of the context or, where
  this has none, one of the defaults;
* `Component.lookup_context` : what a name means in the element of a component.
-/

namespace SchemaCanvas

/-! ### Merged entries -/

/-- A value with a default under it, one level deep. -/
def layered : Option Json → Option Json → Option Json
  | none, default => default
  | some (.obj own), some (.obj fields) => some (.obj (Entries.orElse own fields))
  | some v, _ => some v

theorem layered_cases (v default : Option Json) :
    (v = none ∧ layered v default = default) ∨
    (∃ own fields, v = some (.obj own) ∧ default = some (.obj fields) ∧
      layered v default = some (.obj (Entries.orElse own fields))) ∨
    layered v default = v := by
  unfold layered
  split
  · exact .inl ⟨rfl, rfl⟩
  · exact .inr (.inl ⟨_, _, rfl, rfl, rfl⟩)
  · exact .inr (.inr rfl)

theorem layered_none (v : Option Json) : layered v none = v := by
  rcases layered_cases v none with ⟨rfl, h⟩ | ⟨_, _, -, h, -⟩ | h
  · exact h
  · cases h
  · exact h

theorem lookup_underlay_self (name : String) (default : Option Json) (context : Entries Json) :
    (underlay name default context).lookup name = layered (context.lookup name) default := by
  cases default with
  | none => rw [layered_none, underlay]
  | some d =>
    unfold underlay layered
    cases hown : context.lookup name with
    | none => exact Entries.lookup_insert_self ..
    | some v =>
      cases v with
      | obj own =>
        cases d with
        | obj fields => exact Entries.lookup_insert_self ..
        | null | bool | num | str | arr => exact hown
      | null | bool | num | str | arr => exact hown

theorem lookup_underlay_of_ne {name k : String} (h : k ≠ name) (default : Option Json)
    (context : Entries Json) : (underlay name default context).lookup k = context.lookup k := by
  unfold underlay
  split
  · rfl
  · split
    · exact Entries.lookup_insert_of_ne h _ _
    · exact Entries.lookup_insert_of_ne h _ _
    · rfl

/-- An entry below a merged value is the one below the value itself. Only where this has none, it is
the one below the default. -/
theorem entryAt?_layered (v default : Option Json) (keys : List String) (name : String) :
    (layered v default).bind (fun v => v.entryAt? keys name) =
        v.bind (fun v => v.entryAt? keys name) ∨
      v.bind (fun v => v.entryAt? keys name) = none ∧
        (layered v default).bind (fun v => v.entryAt? keys name) =
          default.bind fun v => v.entryAt? keys name := by
  rcases layered_cases v default with ⟨rfl, h⟩ | ⟨own, fields, rfl, rfl, h⟩ | h
  · rw [h]
    exact .inr ⟨rfl, rfl⟩
  · -- the first key decides between the two objects, and below it nothing is merged
    rw [h]
    cases keys with
    | nil =>
      simp only [Option.bind_some, Json.entryAt?_nil, Json.fields?, Option.getD_some,
        Entries.lookup_orElse]
      cases own.lookup name with
      | none => exact .inr ⟨rfl, rfl⟩
      | some _ => exact .inl rfl
    | cons key keys =>
      simp only [Option.bind_some, Json.entryAt?_cons, Json.fields?, Option.getD_some,
        Entries.lookup_orElse]
      cases own.lookup key with
      | none => exact .inr ⟨rfl, rfl⟩
      | some _ => exact .inl rfl
  · rw [h]
    exact .inl rfl

namespace Component

variable (c : Component)

/-- The names under which a component has defaults, with the defaults. -/
def defaultEntries : List (String × Option Json) :=
  [("data", c.data), ("props", c.props.map .obj), ("states", c.states)]

/-- The defaults of a component, as one object. -/
def defaults : Json := .obj (given c.defaultEntries)

theorem lookup_defaultEntries :
    ∀ entry ∈ c.defaultEntries, (given c.defaultEntries).lookup entry.1 = entry.2 :=
  lookup_given (by simp [defaultEntries])

theorem lookup_defaultEntries_eq_none {name : String} (h : name ∉ ["data", "props", "states"]) :
    (given c.defaultEntries).lookup name = none :=
  Entries.lookup_eq_none fun hmem => h ((names_given_sublist c.defaultEntries).subset hmem)

/-- Under every name the merged context has the entry of the context, with the default under it. -/
theorem lookup_fields_context (context : Json) (name : String) :
    ((c.context context).fields?.getD []).lookup name =
      layered ((context.fields?.getD []).lookup name)
        ((c.defaults.fields?.getD []).lookup name) := by
  have hdefaults := c.lookup_defaultEntries
  simp only [defaultEntries, List.forall_mem_cons] at hdefaults
  obtain ⟨hdata, hprops, hstates, -⟩ := hdefaults
  change (underlay "states" c.states (underlay "props" (c.props.map .obj)
    (underlay "data" c.data (context.fields?.getD [])))).lookup name =
      layered _ ((given c.defaultEntries).lookup name)
  by_cases h : name = "states"
  · subst h
    rw [lookup_underlay_self, lookup_underlay_of_ne (by decide), lookup_underlay_of_ne (by decide)]
    exact congrArg (layered _) hstates.symm
  rw [lookup_underlay_of_ne h]
  by_cases h' : name = "props"
  · subst h'
    rw [lookup_underlay_self, lookup_underlay_of_ne (by decide)]
    exact congrArg (layered _) hprops.symm
  rw [lookup_underlay_of_ne h']
  by_cases h'' : name = "data"
  · subst h''
    rw [lookup_underlay_self]
    exact congrArg (layered _) hdata.symm
  · have hnone := c.lookup_defaultEntries_eq_none (by simp [h, h', h''] : name ∉ _)
    rw [lookup_underlay_of_ne h'', hnone, layered_none]

/-- **The context has its entries in the merged context as well, and the others are defaults.** Only
the names under which defaults are given may stand for something else. -/
theorem entryAt?_context {name : String} (hname : name ∉ ["data", "props", "states"])
    (context : Json) (keys : List String) :
    (c.context context).entryAt? keys name = context.entryAt? keys name ∨
      context.entryAt? keys name = none ∧
        (c.context context).entryAt? keys name = c.defaults.entryAt? keys name := by
  cases keys with
  | nil =>
    have hnone : (c.defaults.fields?.getD []).lookup name = none :=
      c.lookup_defaultEntries_eq_none hname
    rw [Json.entryAt?_nil, lookup_fields_context, hnone, layered_none, ← Json.entryAt?_nil]
    exact .inl rfl
  | cons key keys =>
    rw [Json.entryAt?_cons, Json.entryAt?_cons, Json.entryAt?_cons, lookup_fields_context]
    exact entryAt?_layered _ _ keys name

/-! ### Order -/

theorem ordered_insert {fields : Entries Json} (h : (Json.obj fields).Ordered) (name : String)
    {v : Json} (hv : v.Ordered) : (Json.obj (fields.insert name v)).Ordered := by
  obtain ⟨hfields, heach⟩ := h.entries
  refine .obj (hfields.insert name v) fun field hfield => ?_
  rcases Entries.mem_insert hfield with rfl | hfield
  · exact hv
  · exact heach field hfield

theorem ordered_orElse {own base : Entries Json} (hown : (Json.obj own).Ordered)
    (hbase : ∀ field ∈ base, field.2.Ordered) : (Json.obj (Entries.orElse own base)).Ordered := by
  induction base generalizing own with
  | nil => exact hown
  | cons field rest ih =>
    obtain ⟨hfirst, hrest⟩ := List.forall_mem_cons.1 hbase
    rw [Entries.orElse, List.foldl_cons]
    refine ih ?_ hrest
    split
    · exact hown
    · exact ordered_insert hown field.1 hfirst

theorem ordered_underlay {fields : Entries Json} (h : (Json.obj fields).Ordered) (name : String)
    {default : Option Json} (hdefault : ∀ d, default = some d → d.Ordered) :
    (Json.obj (underlay name default fields)).Ordered := by
  unfold underlay
  split
  · exact h
  · next d =>
    split
    · exact ordered_insert h name (hdefault _ rfl)
    · next hown =>
      have hown := h.entries.2 _ (mem_of_lookup hown)
      exact ordered_insert h name (ordered_orElse hown (hdefault _ rfl).entries.2)
    · exact h

variable {c}

theorem ordered_context (h : c.Ordered) {context : Json} (hcontext : context.Ordered) :
    (c.context context).Ordered := by
  have hfields : (Json.obj (context.fields?.getD [])).Ordered := by
    cases context with
    | obj fields => exact hcontext
    | null | bool | num | str | arr => exact .obj .nil (List.forall_mem_nil _)
  refine ordered_underlay (ordered_underlay (ordered_underlay hfields "data" h.data) "props" ?_)
    "states" h.states
  rintro d hd
  obtain ⟨fields, hprops, rfl⟩ := Option.map_eq_some_iff.1 hd
  exact h.props fields hprops

/-! ### Names -/

/-- A default is added to a context: the merged context has it, and the context has nothing in its
place. -/
structure Adds (c : Component) (context : Json) (keys : List String) (name : String)
    (value : Json) : Prop where
  default : c.defaults.entryAt? keys name = some value
  missing : context.entryAt? keys name = none
  added : (c.context context).entryAt? keys name = some value

/-- **What a name of the context means in the element of a component.** The value that it has in the
context comes from the first object that has the name. It keeps this value, unless a default adds
the name to an object that comes before; then it has the value that is added first. -/
theorem lookup_context {context v : Json} {name : String} (hc : c.Ordered)
    (hcontext : context.Ordered) (hname : name ∉ ["data", "props", "states"])
    (h : (Scope.ofContext context).lookup name = some v) :
    ∃ keys, context.FirstEntry keys name v ∧
      (((Scope.ofContext (c.context context)).lookup name = some v ∧
          ∀ earlier w, Json.Before earlier keys → ¬ c.Adds context earlier name w) ∨
        ∃ first w, (Scope.ofContext (c.context context)).lookup name = some w ∧
          Json.Before first keys ∧ c.Adds context first name w ∧
          ∀ earlier w', Json.Before earlier first → ¬ c.Adds context earlier name w') := by
  have hmerged := ordered_context hc hcontext
  obtain ⟨keys, hlength, hfirst⟩ := (Scope.lookup_ofContext_eq_some_iff hcontext).1 h
  refine ⟨keys, hfirst, ?_⟩
  -- the entry of the context is there, so the name has a first entry in the merged context
  have hkept : (c.context context).entryAt? keys name = some v := by
    rcases c.entryAt?_context hname context keys with hsame | ⟨hnone, -⟩
    · exact hsame.trans hfirst.entry
    · exact absurd (hnone.symm.trans hfirst.entry) (by simp)
  obtain ⟨w, hw⟩ := Scope.exists_lookup_ofContext hmerged hlength hkept
  obtain ⟨first, -, hentry, hnone⟩ := (Scope.lookup_ofContext_eq_some_iff hmerged).1 hw
  have hbefore : ∀ earlier w', Json.Before earlier first → ¬ c.Adds context earlier name w' :=
    fun earlier w' hearlier hadds =>
      absurd ((hnone earlier hearlier).symm.trans hadds.added) (by simp)
  by_cases hlt : Json.Before first keys
  · refine .inr ⟨first, w, hw, hlt, ?_, hbefore⟩
    have hmissing := hfirst.first first hlt
    rcases c.entryAt?_context hname context first with hsame | ⟨-, hdefault⟩
    · exact absurd ((hsame.trans hmissing).symm.trans hentry) (by simp)
    · exact ⟨hdefault.symm.trans hentry, hmissing, hentry⟩
  · have hgt : ¬ Json.Before keys first := fun hgt =>
      absurd ((hnone keys hgt).symm.trans hkept) (by simp)
    obtain rfl : first = keys := Std.Trichotomous.trichotomous _ _ hlt hgt
    obtain rfl : w = v := Option.some.inj (hentry.symm.trans hkept)
    exact .inl ⟨hw, hbefore⟩

/-- A card that shows a guest, as long as nobody is given. -/
def guestCard : Component := { id := "card", data := some (.obj [("name", .str "Guest")]) }

/-- A context with a user. -/
def userContext : Json := .obj [("title", .str "Members"), ("user", .obj [("name", .str "Ada")])]

theorem ordered_guestCard : guestCard.Ordered where
  data := by
    rintro _ ⟨⟩
    exact .obj (List.pairwise_singleton ..) (List.forall_mem_singleton.2 (.str _))
  props := nofun
  states := nofun
  methods := nofun
  effects := nofun

theorem ordered_userContext : userContext.Ordered := by
  have huser : (Json.obj [("name", .str "Ada")]).Ordered :=
    .obj (List.pairwise_singleton ..) (List.forall_mem_singleton.2 (.str _))
  refine .obj (List.pairwise_pair.2 (show "title" < "user" by decide)) ?_
  exact List.forall_mem_cons.2 ⟨.str _, List.forall_mem_singleton.2 huser⟩

theorem lookup_context_guestCard :
    guestCard.Ordered ∧ userContext.Ordered ∧ "name" ∉ ["data", "props", "states"] ∧
    (Scope.ofContext userContext).lookup "name" = some (.str "Ada") ∧
    ∃ keys first, userContext.FirstEntry keys "name" (.str "Ada") ∧ Json.Before first keys ∧
      guestCard.Adds userContext first "name" (.str "Guest") := by
  have hname : "name" ∉ ["data", "props", "states"] := by decide
  have hada : (Scope.ofContext userContext).lookup "name" = some (.str "Ada") := rfl
  have hguest : (Scope.ofContext (guestCard.context userContext)).lookup "name" =
      some (.str "Guest") := rfl
  refine ⟨ordered_guestCard, ordered_userContext, hname, hada, ?_⟩
  obtain ⟨keys, hkeys, ⟨hkept, -⟩ | ⟨first, w, hw, hbefore, hadds, -⟩⟩ :=
    lookup_context ordered_guestCard ordered_userContext hname hada
  · exact absurd (hguest.symm.trans hkept) (by simp)
  · rw [hguest] at hw
    obtain rfl := Option.some.inj hw
    exact ⟨keys, first, hkeys, hbefore, hadds⟩

/-- A name of the context may mean something else in the element of a component. -/
theorem not_lookup_context_guestCard :
    ¬ ∀ (c : Component) (fields : Entries Json) (name : String) (v : Json), c.Ordered →
      (Json.obj fields).Ordered → name ∉ ["data", "props", "states"] →
      (Scope.ofContext (.obj fields)).lookup name = some v →
      (Scope.ofContext (c.context (.obj fields))).lookup name = some v := by
  intro h
  have hguest : (Scope.ofContext (guestCard.context userContext)).lookup "name" =
      some (.str "Guest") := rfl
  have hada := h guestCard _ "name" _ ordered_guestCard ordered_userContext (by decide) rfl
  exact absurd (hguest.symm.trans hada) (by simp)

end Component

end SchemaCanvas
