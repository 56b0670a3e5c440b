import SchemaCanvas.Proofs.Schema.Validity

/-!
# Places as pointers

A pointer is a text of steps, each behind a slash. In a step, `~0` stands for a tilde and `~1` for a
slash. The location of a diagnostic writes the steps of its place as they are. So it is a pointer to
the place of the diagnostic as long as no step has a slash or a tilde, and only the name of a prop
can have one.

* `Pointer.steps?` and `Json.pointed?` : the steps of a pointer, and the value to which it leads;
* `Pointer.steps?_location_iff` : a location is read as the place it is made from if all steps are
  plain;
* `Schema.located_validate` : every diagnostic arises at a value;
* `Schema.location_points` : the value to which a location leads.
-/

namespace SchemaCanvas

/-! ### Pointers -/

namespace Pointer

/-- The text for which a step stands. A tilde must be part of an escape. -/
def unescape? : List Char → Option (List Char)
  | [] => some []
  | '~' :: '0' :: rest => (unescape? rest).map ('~' :: ·)
  | '~' :: '1' :: rest => (unescape? rest).map ('/' :: ·)
  | c :: rest => if c = '~' then none else (unescape? rest).map (c :: ·)

/-- The steps of a pointer. The empty text leads to the whole value. -/
def steps? (text : String) : Option (List String) :=
  match text.toList with
  | [] => some []
  | '/' :: rest => (rest.splitOn '/').mapM fun step => (unescape? step).map String.ofList
  | _ => none

/-- The position in a list for which a step stands: a numeral without leading zeros. -/
def position? (step : String) : Option Nat :=
  let n := Nat.ofDigitChars 10 step.toList 0
  if toString n = step then some n else none

end Pointer

namespace Json

/-- The entry of an object or a list for which a step stands. -/
def stepTo? (v : Json) (step : String) : Option Json :=
  match v with
  | obj fields => fields.lookup step
  | arr items => (Pointer.position? step).bind fun i => items[i]?
  | _ => none

/-- The value at a place inside a value. -/
def at? (v : Json) (place : List String) : Option Json := place.foldlM stepTo? v

/-- The value inside a value to which a pointer leads. -/
def pointed? (v : Json) (text : String) : Option Json := (Pointer.steps? text).bind v.at?

end Json

namespace Pointer

/-- A step without a slash or a tilde. -/
def IsPlain (step : String) : Prop := '/' ∉ step.toList ∧ '~' ∉ step.toList

instance (step : String) : Decidable (IsPlain step) := inferInstanceAs (Decidable (_ ∧ _))

theorem unescape?_of_notMem {cs : List Char} (h : '~' ∉ cs) : unescape? cs = some cs := by
  induction cs with
  | nil => rfl
  | cons c rest ih =>
    have hc : c ≠ '~' := fun heq => h (heq ▸ List.mem_cons_self)
    rw [unescape?, if_neg hc, ih fun hmem => h (List.mem_cons_of_mem _ hmem)]
    · rfl
    · exact fun _ heq _ => hc heq
    · exact fun _ heq _ => hc heq

/-- A step with an escape stands for a shorter text. -/
theorem length_of_unescape? {cs ds : List Char} (h : unescape? cs = some ds) :
    ds.length ≤ cs.length ∧ ('~' ∈ cs → ds.length < cs.length) := by
  fun_induction unescape? cs generalizing ds with
  | case1 => cases h; simp
  | case2 rest ih | case3 rest ih =>
    obtain ⟨ds, hds, rfl⟩ := Option.map_eq_some_iff.1 h
    have := (ih hds).1
    simp only [List.length_cons]
    omega
  | case4 => cases h
  | case5 c rest _ _ hc ih =>
    obtain ⟨ds, hds, rfl⟩ := Option.map_eq_some_iff.1 h
    obtain ⟨hle, hlt⟩ := ih hds
    refine ⟨Nat.succ_le_succ hle, fun hmem => Nat.succ_lt_succ (hlt ?_)⟩
    exact (List.mem_cons.1 hmem).resolve_left fun heq => hc heq.symm

theorem position?_eq_some_iff {step : String} {n : Nat} :
    position? step = some n ↔ step = toString n := by
  have hdigits : Nat.ofDigitChars 10 (toString n).toList 0 = n := by
    rw [Nat.toString_eq_repr, Nat.toList_repr, Nat.ofDigitChars_ten_toDigits]
  constructor
  · intro h
    rw [position?, Option.ite_none_right_eq_some, Option.some_inj] at h
    obtain ⟨hstep, rfl⟩ := h
    exact hstep.symm
  · rintro rfl
    rw [position?, hdigits]
    exact if_pos rfl

example : position? "10" = some 10 ∧ position? "010" = none := by decide

theorem isPlain_toString (n : Nat) : IsPlain (toString n) := by
  have hdigit (c : Char) (hc : c ∈ (toString n).toList) : c.isDigit := by
    rw [Nat.toString_eq_repr, Nat.toList_repr] at hc
    exact Nat.isDigit_of_mem_toDigits (by decide) (by decide) hc
  exact ⟨fun hc => absurd (hdigit _ hc) (by decide), fun hc => absurd (hdigit _ hc) (by decide)⟩

/-! ### Locations -/

theorem splitOn_append_steps (cs : List Char) (place : List String) :
    (cs ++ place.flatMap fun step => '/' :: step.toList).splitOn '/' =
      cs.splitOn '/' ++ place.flatMap fun step => step.toList.splitOn '/' := by
  induction place generalizing cs with
  | nil => simp
  | cons step rest ih =>
    rw [List.flatMap_cons, List.flatMap_cons, List.cons_append, List.splitOn_append_cons_self, ih]

theorem one_le_length_splitOn (cs : List Char) : 1 ≤ (cs.splitOn '/').length :=
  List.length_pos_iff.2 (List.splitOn_ne_nil _ _)

theorem two_le_length_splitOn {cs : List Char} (h : '/' ∈ cs) : 2 ≤ (cs.splitOn '/').length := by
  obtain ⟨before, after, rfl⟩ := List.append_of_mem h
  rw [List.splitOn_append_cons_self, List.length_append]
  exact Nat.add_le_add (one_le_length_splitOn _) (one_le_length_splitOn _)

/-- A place whose steps split into as many texts as there are steps has no slash in a step. -/
theorem slash_notMem_of_length {place : List String}
    (h : (place.flatMap fun step => step.toList.splitOn '/').length ≤ place.length) :
    ∀ step ∈ place, '/' ∉ step.toList := by
  have hge (place : List String) :
      place.length ≤ (place.flatMap fun step => step.toList.splitOn '/').length := by
    induction place with
    | nil => exact Nat.le_refl _
    | cons step rest ih =>
      rw [List.flatMap_cons, List.length_append, List.length_cons, Nat.add_comm]
      exact Nat.add_le_add (one_le_length_splitOn _) ih
  induction place with
  | nil => exact nofun
  | cons step rest ih =>
    rw [List.flatMap_cons, List.length_append, List.length_cons] at h
    have hstep := one_le_length_splitOn step.toList
    have hrest := hge rest
    refine List.forall_mem_cons.2 ⟨fun hslash => ?_, ih (by omega)⟩
    have := two_le_length_splitOn hslash
    omega

theorem flatMap_splitOn_of_notMem {place : List String} (h : ∀ step ∈ place, '/' ∉ step.toList) :
    (place.flatMap fun step => step.toList.splitOn '/') = place.map String.toList := by
  induction place with
  | nil => rfl
  | cons step rest ih =>
    rw [List.flatMap_cons, List.splitOn_eq_singleton (h step List.mem_cons_self),
      ih fun step hstep => h step (List.mem_cons_of_mem _ hstep)]
    rfl

theorem length_of_mapM {α β : Type} {f : α → Option β} {as : List α} {bs : List β}
    (h : as.mapM f = some bs) : as.length = bs.length := by
  induction as generalizing bs with
  | nil => cases h; rfl
  | cons a as ih =>
    simp only [List.mapM_cons, Option.bind_eq_bind, Option.bind_eq_some_iff, Option.pure_def] at h
    obtain ⟨b, -, bs, hbs, heq⟩ := h
    cases heq
    exact congrArg (· + 1) (ih hbs)

theorem mapM_unescape?_eq_some_iff {place : List String} :
    ((place.map String.toList).mapM fun step => (unescape? step).map String.ofList) = some place ↔
      ∀ step ∈ place, '~' ∉ step.toList := by
  have hstep (step : String) :
      (unescape? step.toList).map String.ofList = some step ↔ '~' ∉ step.toList := by
    constructor
    · intro h hmem
      obtain ⟨cs, hcs, rfl⟩ := Option.map_eq_some_iff.1 h
      have := (length_of_unescape? hcs).2 hmem
      rw [String.toList_ofList] at this
      exact Nat.lt_irrefl _ this
    · intro h
      rw [unescape?_of_notMem h, Option.map_some, String.ofList_toList]
  induction place with
  | nil => simp
  | cons step rest ih =>
    simp only [List.map_cons, List.mapM_cons, Option.bind_eq_bind, Option.bind_eq_some_iff,
      Option.pure_def, Option.some.injEq, List.cons.injEq]
    rw [List.forall_mem_cons]
    constructor
    · rintro ⟨_, hfirst, _, hrest, rfl, rfl⟩
      exact ⟨(hstep _).1 hfirst, ih.1 hrest⟩
    · rintro ⟨hfirst, hrest⟩
      exact ⟨_, (hstep _).2 hfirst, _, ih.2 hrest, rfl, rfl⟩

theorem toList_location (d : Diagnostic) :
    d.location.toList = d.place.flatMap fun step => '/' :: step.toList := by
  simp [Diagnostic.location, String.toList_join, List.flatMap_map, String.toList_append]

/-- **A location is read as the place it is made from exactly if all steps are plain.** -/
theorem steps?_location_iff {d : Diagnostic} :
    steps? d.location = some d.place ↔ ∀ step ∈ d.place, IsPlain step := by
  rw [steps?, toList_location]
  cases d.place with
  | nil => simp
  | cons step rest =>
    have hsplit : (step.toList ++ rest.flatMap fun step => '/' :: step.toList).splitOn '/' =
        (step :: rest).flatMap fun step => step.toList.splitOn '/' := splitOn_append_steps _ _
    change (List.splitOn '/' (step.toList ++ rest.flatMap _)).mapM _ = _ ↔ _
    rw [hsplit]
    generalize step :: rest = place
    constructor
    · intro h
      have hslash := slash_notMem_of_length (Nat.le_of_eq (length_of_mapM h))
      rw [flatMap_splitOn_of_notMem hslash, mapM_unescape?_eq_some_iff] at h
      exact fun step hstep => ⟨hslash step hstep, h step hstep⟩
    · intro h
      rw [flatMap_splitOn_of_notMem fun step hstep => (h step hstep).1, mapM_unescape?_eq_some_iff]
      exact fun step hstep => (h step hstep).2

end Pointer

/-! ### Places -/

namespace Json

theorem at?_concat {v w u : Json} {place : List String} {step : String}
    (h : v.at? place = some w) (hstep : w.stepTo? step = some u) :
    v.at? (place ++ [step]) = some u := by
  rw [at?, List.foldlM_append, ← at?, h, Option.bind_eq_bind, Option.bind_some, List.foldlM_cons,
    hstep]
  rfl

end Json

namespace Schema

open Pointer

variable {root v : Json} {place : List String} {fields : Entries Json}

/-- A value at a place without slashes and tildes. -/
structure Reaches (root : Json) (place : List String) (v : Json) : Prop where
  at_eq : root.at? place = some v
  plain : ∀ step ∈ place, IsPlain step

theorem Reaches.step {w : Json} {step : String} (h : Reaches root place v)
    (hstep : v.stepTo? step = some w) (hplain : IsPlain step) :
    Reaches root (place ++ [step]) w := by
  exact ⟨Json.at?_concat h.at_eq hstep,
    List.forall_mem_append.2 ⟨h.plain, List.forall_mem_singleton.2 hplain⟩⟩

theorem Reaches.item {items : List Json} {i : Nat} {w : Json} (h : Reaches root place (.arr items))
    (hi : items[i]? = some w) : Reaches root (place ++ [toString i]) w := by
  refine h.step ?_ (isPlain_toString i)
  rw [Json.stepTo?, position?_eq_some_iff.2 rfl, Option.bind_some, hi]

theorem Reaches.field {name : String} {w : Json} (h : Reaches root place (.obj fields))
    (hw : fields.lookup name = some w) (hplain : IsPlain name) :
    Reaches root (place ++ [name]) w :=
  h.step hw hplain

/-- Every diagnostic arises at a value, and only the name of a prop in its place may have slashes
and tildes. -/
def Located (root : Json) (ds : List Diagnostic) : Prop :=
  ∀ d ∈ ds, (∃ v, root.at? d.place = some v) ∧
    ((∀ step ∈ d.place, IsPlain step) ∨
      ∃ before name, (∀ step ∈ before, IsPlain step) ∧ d.place = before ++ ["props", name])

theorem located_nil : Located root [] := fun _ h => absurd h List.not_mem_nil

theorem Located.append {ds ds' : List Diagnostic} (h : Located root ds) (h' : Located root ds') :
    Located root (ds ++ ds') :=
  fun d hd => (List.mem_append.1 hd).elim (h d) (h' d)

theorem Located.flatMap {α : Type} {items : List α} {f : α → List Diagnostic}
    (h : ∀ a ∈ items, Located root (f a)) : Located root (items.flatMap f) := by
  intro d hd
  obtain ⟨a, ha, hmem⟩ := List.mem_flatMap.1 hd
  exact h a ha d hmem

theorem Reaches.located (h : Reaches root place v) (fault : SchemaFault) :
    Located root [⟨place, fault⟩] := by
  intro d hd
  obtain rfl := List.mem_singleton.1 hd
  exact ⟨⟨v, h.at_eq⟩, .inl h.plain⟩

theorem located_checkValue (h : Reaches root place v) (w : Json) :
    Located root (checkValue place w) := by
  intro d hd
  obtain ⟨fault, -, rfl⟩ := List.mem_map.1 hd
  exact ⟨⟨v, h.at_eq⟩, .inl h.plain⟩

theorem exists_lookup_of_mem {name : String} (h : (name, v) ∈ fields) :
    ∃ w, fields.lookup name = some w := by
  rw [← Option.isSome_iff_exists, List.lookup_isSome_iff]
  exact ⟨_, h, by simp⟩

/-- The faults of props, whose names can be any text. -/
theorem located_checkProps (h : Reaches root place (.obj fields)) :
    Located root (checkProps place (fields.lookup "props")) := by
  unfold checkProps
  split
  · exact located_nil
  · next props hprops =>
    refine .flatMap fun (name, v) hprop d hd => ?_
    obtain ⟨fault, -, rfl⟩ := List.mem_map.1 hd
    obtain ⟨w, hw⟩ := exists_lookup_of_mem hprop
    refine ⟨⟨w, ?_⟩, .inr ⟨place, name, h.plain, rfl⟩⟩
    have hreached := Json.at?_concat (h.field hprops (by decide)).at_eq hw
    rwa [List.append_assoc] at hreached
  · next hprops => exact (h.field hprops (by decide)).located _

theorem located_checkLoop (h : Reaches root place v) : Located root (checkLoop place v) := by
  have hsource {fields : Entries Json} (h : Reaches root place (.obj fields)) :
      Located root (checkSource place (fields.lookup "in")) := by
    unfold checkSource
    split
    · exact located_nil
    · next hin =>
      split
      · exact located_checkValue (h.field hin (by decide)) _
      · exact h.located _
    · exact h.located _
    · exact h.located _
  unfold checkLoop
  split
  · refine (hsource h).append ?_
    split
    · split
      · exact h.located _
      · exact located_nil
    · exact h.located _
  · exact h.located _

/-- The same for all parts of a record. -/
structure LocatedParts (root : Json) (parts : PartDiagnostics) : Prop where
  children : Located root parts.children
  otherwise : Located root parts.otherwise
  render : Located root parts.render

theorem located_checkElement {parts : PartDiagnostics} (h : Reaches root place (.obj fields))
    (hparts : LocatedParts root parts) : Located root (checkElement place fields parts) := by
  have htype : Located root (checkType place (fields.lookup "type")) := by
    unfold checkType
    split
    · split
      · exact h.located _
      · exact located_nil
    · exact h.located _
    · exact h.located _
  have hfield {name : String} (hname : name ∈ ["if", "elseIf", "key"]) :
      Located root (checkField place fields name) := by
    have hplain : ∀ name ∈ ["if", "elseIf", "key"], IsPlain name := by decide
    unfold checkField
    split
    · next hv => exact located_checkValue (h.field hv (hplain name hname)) _
    · exact located_nil
  unfold checkElement
  refine ((((htype.append (located_checkProps h)).append (.flatMap fun _ => hfield)).append
    hparts.otherwise).append ?_).append hparts.children
  split
  · next hloop => exact located_checkLoop (h.field hloop (by decide))
  · exact located_nil

theorem located_checkFields {parts : PartDiagnostics} (h : Reaches root place (.obj fields))
    (hparts : LocatedParts root parts) : Located root (checkFields place fields parts) := by
  have hcomponent : Located root (checkComponent place fields parts) := by
    unfold checkComponent
    refine Located.append ?_ ?_
    · split
      · exact hparts.render
      · exact h.located _
      · exact h.located _
    · split
      · exact located_nil
      · exact located_nil
      · next hprops => exact (h.field hprops (by decide)).located _
  unfold checkFields
  split
  · split
    · exact hcomponent
    · exact located_checkElement h hparts
  · exact hcomponent
  · exact located_checkElement h hparts
  · exact h.located _

theorem sizeOf_lt_of_item {name : String} {items : List Json} {i : Nat} {inner : Entries Json}
    (h : fields.lookup name = some (.arr items)) (hi : items[i]? = some (.obj inner)) :
    sizeOf inner < sizeOf fields := by
  have hitems := sizeOf_lt_of_lookup h
  have hitem := List.sizeOf_lt_of_mem (List.mem_of_getElem? hi)
  rw [Json.arr.sizeOf_spec] at hitems
  rw [Json.obj.sizeOf_spec] at hitem
  omega

theorem located_checkItems {items : List Json} {start : Nat}
    (h : ∀ i v, items[i]? = some v → Located root (checkItem (place ++ [toString (start + i)]) v)) :
    Located root (checkItems place start items) := by
  induction items generalizing start with
  | nil => exact located_nil
  | cons v rest ih =>
    refine Located.append (h 0 v rfl) (ih fun i w hw => ?_)
    have := h (i + 1) w hw
    rwa [Nat.add_right_comm start 1 i]

/-- The diagnostics of the parts of a record arise at values. -/
theorem located_checkParts {place : List String} {fields : Entries Json}
    (h : Reaches root place (.obj fields)) : LocatedParts root (checkParts place fields) := by
  -- the walk over a node goes on with nodes among its fields, which are smaller
  have hnode {place : List String} {inner : Entries Json} (hsize : sizeOf inner < sizeOf fields)
      (h : Reaches root place (.obj inner)) :
      Located root (checkFields place inner (checkParts place inner)) :=
    located_checkFields h (located_checkParts h)
  rw [checkParts_eq]
  refine ⟨?_, ?_, ?_⟩
  · cases hv : fields.lookup "children" with
    | none => exact located_nil
    | some v =>
      have hreached := h.field hv (by decide)
      change Located root (checkChildren _ v)
      cases v with
      | arr items =>
        refine located_checkItems fun i v hi => ?_
        have hitem := hreached.item hi
        rw [Nat.zero_add]
        cases v with
        | arr => exact hitem.located _
        | obj inner =>
          rw [checkItem]
          split
          · exact located_checkValue hitem _
          · exact hnode (sizeOf_lt_of_item hv hi) hitem
        | null | bool | num | str => exact located_nil
      | obj inner =>
        rw [checkChildren]
        split
        · exact located_checkValue hreached _
        · exact hnode (sizeOf_lt_of_lookup_obj hv) hreached
      | null | bool | num | str => exact located_nil
  · cases hv : fields.lookup "else" with
    | none => exact located_nil
    | some v =>
      have hreached := h.field hv (by decide)
      change Located root (checkBranch _ v)
      cases v with
      | obj inner => exact hnode (sizeOf_lt_of_lookup_obj hv) hreached
      | bool => exact located_nil
      | null | num | str | arr => exact hreached.located _
  · cases hv : fields.lookup "render" with
    | none => exact located_nil
    | some v =>
      have hreached := h.field hv (by decide)
      change Located root (checkRender _ v)
      cases v with
      | obj inner =>
        have hsize := sizeOf_lt_of_lookup_obj hv
        exact located_checkElement hreached (located_checkParts hreached)
      | null | bool | num | str | arr => exact located_nil
termination_by sizeOf fields

/-- **Every diagnostic of a schema arises at a value.** -/
theorem located_validate (v : Json) : Located v (validate v) := by
  have h : Reaches v [] v := ⟨rfl, nofun⟩
  cases v with
  | obj fields => exact located_checkFields h (located_checkParts h)
  | null | bool | num | str | arr => exact h.located _

/-- **The location of a diagnostic is a pointer to the value at which it arises** if the steps of
its place are plain, which only the name of a prop may fail to be. Otherwise it is not read as that
place. -/
theorem location_points (v : Json) {d : Diagnostic} (h : d ∈ validate v) :
    ∃ w, v.at? d.place = some w ∧
      ((∀ step ∈ d.place, IsPlain step) → v.pointed? d.location = some w) ∧
      (steps? d.location = some d.place ↔ ∀ step ∈ d.place, IsPlain step) ∧
      ((∀ step ∈ d.place, IsPlain step) ∨
        ∃ before name, (∀ step ∈ before, IsPlain step) ∧ d.place = before ++ ["props", name]) := by
  obtain ⟨⟨w, hw⟩, hplain⟩ := located_validate v d h
  refine ⟨w, hw, fun hd => ?_, steps?_location_iff, hplain⟩
  rw [Json.pointed?, steps?_location_iff.2 hd, Option.bind_some, hw]

/-- An element with a fault in a prop. -/
def faultyProp (name : String) : Json :=
  .obj [("props", .obj [(name, .obj [("$exp", .bool true)])]), ("type", .str "a")]

theorem location_points_href :
    (faultyProp "href").pointed? "/props/href" = some (.obj [("$exp", .bool true)]) := by
  have hmem : ⟨["props", "href"], .expressionNotText⟩ ∈ validate (faultyProp "href") :=
    List.mem_cons_self
  obtain ⟨w, hw, hpointed, -⟩ := location_points _ hmem
  cases hw
  exact hpointed (by decide)

/-- Not every location leads to a value: a slash in the name of a prop is not escaped. -/
theorem not_location_points :
    ¬ ∀ v : Json, ∀ d ∈ validate v, ∃ w, v.pointed? d.location = some w := by
  intro h
  obtain ⟨w, hw⟩ := h (faultyProp "a/b") ⟨["props", "a/b"], .expressionNotText⟩ List.mem_cons_self
  cases hw

end Schema

end SchemaCanvas
