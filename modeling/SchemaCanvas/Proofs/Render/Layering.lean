import SchemaCanvas.Proofs.Edit.Content
import SchemaCanvas.Proofs.Render.Defaults
import SchemaCanvas.Proofs.Render.ItemPaths

/-!
# Paths over the defaults of a component

The defaults of a component lie under the context, name by name and one level deep. A dot path takes
one step to a name and the next one to an entry of the object there; merging adds such entries and
changes none, so a path of the context leads where it led. Only a path that ends at the name itself
sees the entries that were added.

The merges of different names do not meet, and the entries that a merge adds are there when it is
made again, so that laying the defaults under a context twice is laying them once.

* `Entries.insert_comm`, `Entries.orElse_orElse` : entries that are put in in another order, or
  twice;
* `Component.context_context` : the defaults laid under a context twice;
* `Component.follow?_layered` : a path through a merged value;
* `Component.context_layers` : where the paths of a context and of the defaults lead.
-/

namespace SchemaCanvas

/-! ### Entries put in twice -/

namespace Entries

variable {α : Type}

theorem insert_comm {k l : String} (h : k ≠ l) (v w : α) (entries : Entries α) :
    insert k v (insert l w entries) = insert l w (insert k v entries) := by
  -- one of the names comes first, and the other one passes it
  wlog hlt : k < l generalizing k l v w
  · exact (this h.symm w v (lt_of_le_of_ne (not_lt.1 hlt) h.symm)).symm
  have hnot : ¬ l < k := lt_asymm hlt
  induction entries with
  | nil => simp only [insert, if_pos hlt, if_neg hnot, if_neg h.symm]
  | cons e rest ih =>
    obtain ⟨name, u⟩ := e
    rcases lt_trichotomy k name with hk | rfl | hk
    · -- both are put in before the entry, or one of them in its place or behind it
      have hfirst : insert k v ((name, u) :: rest) = (k, v) :: (name, u) :: rest := by
        rw [insert, if_pos hk]
      rw [hfirst]
      conv_rhs => rw [insert, if_neg hnot, if_neg h.symm]
      rcases lt_trichotomy l name with hl | rfl | hl
      · simp only [insert, if_pos hl, if_pos hlt]
      · simp only [insert, lt_irrefl, if_false, if_true, if_pos hk]
      · simp only [insert, if_neg (lt_asymm hl), if_neg hl.ne', if_pos hk]
    · simp only [insert, if_neg hnot, if_neg h.symm, lt_irrefl, if_false, if_true]
    · have hl : name < l := hk.trans hlt
      simp only [insert, if_neg (lt_asymm hk), if_neg hk.ne', if_neg (lt_asymm hl), if_neg hl.ne',
        ih]

theorem orElse_of_forall {own base : Entries α} (h : ∀ e ∈ base, (own.lookup e.1).isSome) :
    orElse own base = own := by
  induction base with
  | nil => rfl
  | cons e rest ih =>
    obtain ⟨hfirst, hrest⟩ := List.forall_mem_cons.1 h
    rw [orElse, List.foldl_cons, if_pos hfirst]
    exact ih hrest

theorem isSome_lookup_of_mem {e : String × α} {entries : Entries α} (h : e ∈ entries) :
    (entries.lookup e.1).isSome :=
  List.lookup_isSome_iff.2 ⟨e, h, beq_self_eq_true e.1⟩

theorem orElse_self (base : Entries α) : orElse base base = base :=
  orElse_of_forall fun _ he => isSome_lookup_of_mem he

theorem orElse_orElse (own base : Entries α) : orElse (orElse own base) base = orElse own base :=
  orElse_of_forall fun _ he => by
    rw [lookup_orElse, Option.isSome_or, isSome_lookup_of_mem he, Bool.or_true]

/-- The entries of `own` are entries of `more`. -/
def Gains (own more : Entries α) : Prop :=
  ∀ name v, own.lookup name = some v → more.lookup name = some v

theorem gains_orElse (own base : Entries α) : Gains own (orElse own base) := fun name v h => by
  rw [lookup_orElse, h, Option.some_or]

end Entries

/-! ### Defaults laid under twice -/

/-- What a default puts in the place of a value. -/
def raised : Option Json → Option Json → Option Json
  | none, default => default
  | some (.obj own), some (.obj fields) => some (.obj (Entries.orElse own fields))
  | some _, _ => none

/-- A default puts in an entry or nothing, whatever the other entries are. -/
theorem underlay_eq (name : String) (default : Option Json) (context : Entries Json) :
    underlay name default context =
      match raised (context.lookup name) default with
      | some v => context.insert name v
      | none => context := by
  unfold underlay
  cases default with
  | none =>
    cases hown : context.lookup name with
    | none => rfl
    | some v => cases v <;> rfl
  | some d =>
    cases hown : context.lookup name with
    | none => rfl
    | some v => cases v <;> cases d <;> rfl

/-- What a default has put in, it puts in again or leaves. -/
theorem raised_of_raised {v default : Option Json} {w : Json} (h : raised v default = some w) :
    raised (some w) default = some w ∨ raised (some w) default = none := by
  unfold raised at h
  split at h
  · subst h
    cases w with
    | obj fields => exact .inl (congrArg (some ∘ Json.obj) (Entries.orElse_self fields))
    | null | bool | num | str | arr => exact .inr rfl
  · next own fields =>
    cases h
    exact .inl (congrArg (some ∘ Json.obj) (Entries.orElse_orElse own fields))
  · cases h

theorem underlay_underlay (name : String) (default : Option Json) (context : Entries Json) :
    underlay name default (underlay name default context) = underlay name default context := by
  rw [underlay_eq name default context]
  cases h : raised (context.lookup name) default with
  | none => rw [underlay_eq, h]
  | some v =>
    dsimp only
    rw [underlay_eq, Entries.lookup_insert_self]
    rcases raised_of_raised h with hsame | hnone
    · rw [hsame]
      exact Entries.insert_insert name v context
    · rw [hnone]

theorem underlay_comm {name other : String} (h : name ≠ other) (default default' : Option Json)
    (context : Entries Json) :
    underlay name default (underlay other default' context) =
      underlay other default' (underlay name default context) := by
  have hname := underlay_eq name default (underlay other default' context)
  have hother := underlay_eq other default' (underlay name default context)
  rw [lookup_underlay_of_ne h] at hname
  rw [lookup_underlay_of_ne h.symm] at hother
  rw [hname, hother, underlay_eq name, underlay_eq other]
  cases raised (context.lookup name) default <;> cases raised (context.lookup other) default'
  · rfl
  · rfl
  · rfl
  · exact Entries.insert_comm h _ _ context

namespace Component

variable (c : Component)

theorem context_context (context : Json) : c.context (c.context context) = c.context context := by
  have hdata : "data" ≠ "states" := by decide
  have hdata' : "data" ≠ "props" := by decide
  have hprops : "props" ≠ "states" := by decide
  simp only [Component.context, Json.fields?, Option.getD_some]
  rw [underlay_comm hdata, underlay_comm hdata', underlay_underlay, underlay_comm hprops,
    underlay_underlay, underlay_underlay]

/-! ### Paths -/

/-- **A path through a value leads where it led** when a default lies under the value. At the value
itself there may be further entries. -/
theorem follow?_layered {v w : Json} {default : Option Json} {steps : List (List Char)}
    (h : v.follow? steps = some w) :
    ((layered (some v) default).bind fun merged => merged.follow? steps) = some w ∨
      steps = [] ∧ default ≠ none ∧ ∃ own more, w = .obj own ∧
        layered (some v) default = some (.obj more) ∧ Entries.Gains own more := by
  rcases layered_cases (some v) default with ⟨hnone, -⟩ | ⟨own, fields, hown, rfl, hlayered⟩ | hsame
  · cases hnone
  · obtain rfl := Option.some.inj hown
    rw [hlayered, Option.bind_some]
    cases steps with
    | nil =>
      obtain rfl := Option.some.inj h
      exact .inr ⟨rfl, Option.some_ne_none _, own, _, rfl, rfl, Entries.gains_orElse own fields⟩
    | cons step later =>
      -- the first step leads to an entry of the value, below which nothing is merged
      rw [Json.follow?, List.foldlM_cons] at h
      obtain ⟨inner, hinner, hlater⟩ := Option.bind_eq_some_iff.1 h
      refine .inl ?_
      rw [Json.follow?, List.foldlM_cons]
      exact Option.bind_eq_some_iff.2 ⟨inner, Entries.gains_orElse own fields _ _ hinner, hlater⟩
  · rw [hsame]
    exact .inl h

end Component

theorem Json.trimmed_of_pathSteps {cs step : List Char} (h : pathSteps cs = [step]) :
    Text.trimmed cs = step := by
  by_cases hdot : '.' ∈ cs
  · obtain ⟨before, behind, rfl, -⟩ := List.eq_append_cons_of_mem hdot
    obtain ⟨later, hbefore⟩ := exists_pathSteps_eq before
    obtain ⟨later', hbehind⟩ := exists_pathSteps_eq behind
    rw [pathSteps_append, hbefore, hbehind] at h
    simp at h
  · rw [pathSteps_of_notMem hdot] at h
    exact List.head_eq_of_cons_eq h

namespace Component

variable (c : Component)

theorem isStep_of_mem {name : String} (h : name ∈ ["data", "props", "states"]) :
    Json.IsStep name := by
  simp only [List.mem_cons, List.not_mem_nil, or_false] at h
  rcases h with rfl | rfl | rfl <;> exact ⟨by decide, by decide, by decide⟩

variable {c} in
theorem mem_names_of_mem {entry : String × Option Json} (h : entry ∈ c.defaultEntries) :
    entry.1 ∈ ["data", "props", "states"] :=
  List.mem_map_of_mem h

theorem step?_context (fields : Entries Json) (name : List Char) :
    (c.context (.obj fields)).step? name =
      layered (fields.lookup (String.ofList name))
        ((given c.defaultEntries).lookup (String.ofList name)) :=
  c.lookup_fields_context (.obj fields) _

/-- **A path of the context leads in the merged context where it led.** A path that is the name of a
default may lead to an object with further entries. -/
theorem atPath?_context {fields : Entries Json} {path : String} {v : Json}
    (hpath : Text.trim path ≠ "") (hv : Json.atPath? path (.obj fields) = some v) :
    Json.atPath? path (c.context (.obj fields)) = some v ∨
      Text.trim path ∈ ["data", "props", "states"] ∧ ∃ own more, v = .obj own ∧
        Json.atPath? path (c.context (.obj fields)) = some (.obj more) ∧
        Entries.Gains own more := by
  obtain ⟨later, hsteps⟩ := Json.exists_pathSteps_eq path.toList
  rw [Json.atPath?_eq hpath, hsteps, Json.follow?, List.foldlM_cons] at hv
  obtain ⟨first, hfirst, hlater⟩ := Option.bind_eq_some_iff.1 hv
  rw [Json.atPath?_eq hpath, hsteps, Json.follow?, List.foldlM_cons, step?_context]
  rw [Json.step?] at hfirst
  rw [hfirst]
  obtain hsame | ⟨rfl, hdefault, own, more, rfl, hlayered, hgains⟩ := follow?_layered hlater
  · exact .inl hsame
  · refine .inr ⟨?_, own, more, rfl, ?_, hgains⟩
    · rw [Text.trim, Json.trimmed_of_pathSteps hsteps]
      by_contra hname
      exact hdefault (c.lookup_defaultEntries_eq_none hname)
    · rw [hlayered]
      rfl

/-- **An entry of a default is found behind its name,** if the context leaves room for it. -/
theorem atPath?_default {fields default : Entries Json} {name key : String} {v : Json}
    (hdefault : (name, some (.obj default)) ∈ c.defaultEntries) (hkey : default.lookup key = some v)
    (hdot : '.' ∉ key.toList) (htrim : Text.trim key = key)
    (hroom : fields.lookup name = none ∨
      ∃ own, fields.lookup name = some (.obj own) ∧ own.lookup key = none) :
    Json.atPath? (name ++ "." ++ key) (c.context (.obj fields)) = some v := by
  have hstep := congrArg String.toList htrim
  rw [Text.trim, String.toList_ofList] at hstep
  rw [Json.atPath?_behind, (isStep_of_mem (mem_names_of_mem hdefault)).pathSteps_eq,
    Json.pathSteps_of_notMem hdot, hstep, Json.follow?_singleton, c.step?_context,
    String.ofList_toList, c.lookup_defaultEntries _ hdefault]
  obtain hnone | ⟨own, hown, hnone⟩ := hroom
  · rw [hnone, layered, Option.bind_some, Json.follow?_singleton, Json.step?, String.ofList_toList,
      hkey]
  · rw [hown, layered, Option.bind_some, Json.follow?_singleton, Json.step?, String.ofList_toList,
      Entries.lookup_orElse, hnone, Option.none_or, hkey]

theorem atPath?_of_no_object {fields : Entries Json} {name : String} {v : Json}
    (hname : name ∈ ["data", "props", "states"]) (hv : fields.lookup name = some v)
    (h : v.fields? = none) : Json.atPath? name (c.context (.obj fields)) = some v := by
  have hstep := isStep_of_mem hname
  have hpath : Text.trim name ≠ "" := by
    rw [hstep.trim_eq]
    exact hstep.ne_empty
  obtain hsame | ⟨-, own, -, rfl, -⟩ := c.atPath?_context hpath ((hstep.atPath?_eq fields).trans hv)
  · exact hsame
  · cases h

/-- **The context over the defaults.** A path that leads somewhere in the context leads there in the
merged context as well. Only the bare names of the defaults may lead to more: to an object that has
all entries it had. An entry of a default is found behind the name of the default if the context has
nothing under this name, or an object without the entry. What is no object is kept. -/
theorem context_layers (fields : Entries Json) :
    (∀ path v, Text.trim path ≠ "" → Json.atPath? path (.obj fields) = some v →
      Json.atPath? path (c.context (.obj fields)) = some v ∨
        Text.trim path ∈ ["data", "props", "states"] ∧ ∃ own more, v = .obj own ∧
          Json.atPath? path (c.context (.obj fields)) = some (.obj more) ∧ Entries.Gains own more) ∧
    (∀ name default key v, (name, some (.obj default)) ∈ c.defaultEntries →
      default.lookup key = some v → '.' ∉ key.toList → Text.trim key = key →
      (fields.lookup name = none ∨
        ∃ own, fields.lookup name = some (.obj own) ∧ own.lookup key = none) →
      Json.atPath? (name ++ "." ++ key) (c.context (.obj fields)) = some v) ∧
    (∀ name ∈ ["data", "props", "states"], ∀ v, fields.lookup name = some v → v.fields? = none →
      Json.atPath? name (c.context (.obj fields)) = some v) ∧
    c.context (c.context (.obj fields)) = c.context (.obj fields) :=
  ⟨fun _ _ => c.atPath?_context, fun _ _ _ _ => c.atPath?_default,
    fun _ hname _ => c.atPath?_of_no_object hname, c.context_context _⟩

/-- A dialog with defaults of all three kinds. -/
def dialog : Component where
  id := "dialog"
  data := some (.obj [("owner", .obj [("role", .str "guest")]), ("title", .str "Untitled")])
  props := some [("wide", .bool true)]
  states := some (.obj [("open", .bool false)])

/-- Data of a context. -/
def dialogData : Entries Json := [("owner", .obj [("name", .str "Ada")])]

/-- A context that has data, and props that are no object. -/
def dialogFields : Entries Json := [("data", .obj dialogData), ("props", .str "none")]

theorem context_layers_dialog :
    let merged := dialog.context (.obj dialogFields)
    Json.atPath? " data . owner.name" merged = some (.str "Ada") ∧
      Json.atPath? "data.owner.role" merged = none ∧
      (∃ more, Json.atPath? " data " merged = some (.obj more) ∧ Entries.Gains dialogData more) ∧
      Json.atPath? "data.title" merged = some (.str "Untitled") ∧
      Json.atPath? "states.open" merged = some (.bool false) ∧
      Json.atPath? "props" merged = some (.str "none") ∧
      dialog.context merged = merged := by
  intro merged
  obtain ⟨hpaths, hdefaults, hkept, htwice⟩ := context_layers dialog dialogFields
  have hstates : ("states", some (.obj [("open", .bool false)])) ∈ dialog.defaultEntries :=
    List.mem_cons_of_mem _ (List.mem_cons_of_mem _ List.mem_cons_self)
  refine ⟨?_, rfl, ?_, ?_, ?_, ?_, htwice⟩
  · obtain hsame | ⟨hbare, -⟩ := hpaths " data . owner.name" (.str "Ada") (by decide) rfl
    · exact hsame
    · exact absurd hbare (by decide)
  · obtain hsame | ⟨-, own, more, hown, hmore, hgains⟩ :=
      hpaths " data " (.obj dialogData) (by decide) rfl
    · exact ⟨_, hsame, fun _ _ h => h⟩
    · exact ⟨more, hmore, Json.obj.inj hown ▸ hgains⟩
  · exact hdefaults "data" _ "title" _ List.mem_cons_self rfl (by decide) (by decide)
      (.inr ⟨_, rfl, rfl⟩)
  · exact hdefaults "states" _ "open" _ hstates rfl (by decide) (by decide) (.inl rfl)
  · exact hkept "props" (by decide) _ rfl rfl

end Component

end SchemaCanvas
