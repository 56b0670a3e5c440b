import SchemaCanvas.Proofs.Json.Nesting
import SchemaCanvas.Proofs.Schema.Reread

/-!
# The depth of a written tree

A tree is written in a form that is nested more deeply than the value that it was read from: a child
without a list gets one, and so does a transform. Every level of the value adds two levels at most.

* `Node.nesting_encode_le` : the written form is nested at most twice as deeply as the value;
* `Node.nesting_encode_mapIds` : ids do not matter for that.
-/

namespace SchemaCanvas

/-! ### Written fields -/

/-- How deeply the value of a field is nested, if there is one. -/
def entryNesting (entry : String × Option Json) : Nat := (entry.2.map Json.nesting).getD 0

theorem nesting_obj_given_le_iff {entries : List (String × Option Json)} {n : Nat} :
    (Json.obj (given entries)).nesting ≤ n + 1 ↔ ∀ entry ∈ entries, entryNesting entry ≤ n := by
  rw [Json.nesting_obj_le_iff]
  induction entries with
  | nil => simp [given]
  | cons entry rest ih =>
    obtain ⟨name, v⟩ := entry
    rw [given_cons, List.forall_mem_append, ih, List.forall_mem_cons]
    cases v <;> simp [givenField, entryNesting]

section

variable {fields : Entries Json} {name : String} {n : Nat}

theorem entryNesting_le {α : Type} {read : Json → Option α} {write : α → Json} {x? : Option α}
    (h : optionalField read fields name = some x?)
    (hwrite : ∀ v x, fields.lookup name = some v → read v = some x → (write x).nesting ≤ n) :
    entryNesting (name, x?.map write) ≤ n := by
  cases x? with
  | none => exact Nat.zero_le n
  | some x =>
    obtain ⟨v, hv, -, hx⟩ := exists_of_optionalField h
    exact hwrite v x hv hx

end

/-! ### References, loops and links -/

theorem DataRef.nesting_toJson_le (r : DataRef) : r.toJson.nesting ≤ 2 := by
  cases r with
  | expression text => exact Nat.le_succ 1
  | path p transforms =>
    have hnames : (Json.arr (transforms.map .str)).nesting ≤ 1 :=
      Json.nesting_arr_le_iff.2 (List.forall_mem_map.2 fun _ _ => Nat.le_refl 0)
    refine Json.nesting_obj_le_iff.2 (List.forall_mem_cons.2 ⟨Nat.zero_le 1, ?_⟩)
    split
    · exact List.forall_mem_nil _
    · exact List.forall_mem_singleton.2 hnames

/-- A reference is written in two levels at most, and only records are references. -/
theorem DataRef.nesting_toJson_le_of_ofJson? {v : Json} {r : DataRef} (h : ofJson? v = some r) :
    r.toJson.nesting ≤ 2 * v.nesting := by
  have hr := r.nesting_toJson_le
  have hv : 0 < v.nesting := by
    cases v with
    | arr items => exact Json.nesting_arr_pos items
    | obj fields => exact Json.nesting_obj_pos fields
    | null | bool | num | str => cases h
  omega

theorem PropValue.nesting_toJson_ofJson_le (v : Json) :
    (ofJson v).toJson.nesting ≤ 2 * v.nesting := by
  rw [ofJson]
  cases h : DataRef.ofJson? v with
  | some r => exact DataRef.nesting_toJson_le_of_ofJson? h
  | none => exact Nat.le_mul_of_pos_left _ Nat.two_pos

theorem LoopSource.nesting_toJson_le {v : Json} {s : LoopSource} (h : ofJson? v = some s) :
    s.toJson.nesting ≤ 2 * v.nesting := by
  obtain ⟨r, rfl, hr⟩ | ⟨text, rfl, -⟩ := cases_of_ofJson? h
  · exact DataRef.nesting_toJson_le_of_ofJson? hr
  · exact Nat.zero_le _

theorem Json.nesting_lt_of_record? {names : List String} {v : Json} {fields : Entries Json}
    (h : v.record? names = some fields) {name : String} {w : Json}
    (hw : fields.lookup name = some w) : w.nesting < v.nesting := by
  cases v with
  | obj fields' =>
    cases h
    exact nesting_lt_of_mem_fields (mem_of_lookup hw)
  | arr items =>
    rw [record?] at h
    split_ifs at h
    cases h
    exact nesting_lt_of_mem_items (List.of_mem_zip (mem_of_lookup hw)).2
  | null | bool | num | str => cases h

theorem entryNesting_propValue {fields : Entries Json} {name : String} {p? : Option PropValue}
    {n : Nat} (h : optionalField (some ∘ PropValue.ofJson) fields name = some p?)
    (hn : ∀ v, fields.lookup name = some v → v.nesting ≤ n) :
    entryNesting (name, p?.map PropValue.toJson) ≤ 2 * n := by
  refine entryNesting_le h fun v p hv hp => ?_
  obtain rfl := Option.some.inj hp
  have hdepth := PropValue.nesting_toJson_ofJson_le v
  have hv := hn v hv
  omega

theorem Loop.nesting_encode_le {v : Json} {l : Loop} (h : ofJson? v = some l) :
    (l.encode Json.obj).nesting ≤ 2 * v.nesting := by
  obtain ⟨fields, hfields, hsource, -, hindex, hkey⟩ := ofJson?_eq_some_iff.1 h
  obtain ⟨w, hw, hsource⟩ := Option.bind_eq_some_iff.1 hsource
  have hlt {name : String} {u : Json} (hu : fields.lookup name = some u) : u.nesting < v.nesting :=
    Json.nesting_lt_of_record? hfields hu
  obtain ⟨n, hn⟩ := Nat.exists_eq_add_one.2 (Nat.zero_lt_of_lt (hlt hw))
  rw [hn] at hlt
  have hsource : l.source.toJson.nesting ≤ 2 * n + 1 := by
    have hdepth := LoopSource.nesting_toJson_le hsource
    have hw := hlt hw
    omega
  have hindex : entryNesting ("index", l.index.map .str) ≤ 2 * n + 1 :=
    entryNesting_le hindex fun _ _ _ _ => Nat.zero_le _
  have hkey : entryNesting ("key", l.key.map PropValue.toJson) ≤ 2 * n :=
    entryNesting_propValue hkey fun _ hu => Nat.le_of_lt_succ (hlt hu)
  rw [encode_eq, hn]
  refine nesting_obj_given_le_iff.2 ?_
  simp only [entries, List.forall_mem_cons]
  exact ⟨hsource, Nat.zero_le _, hindex, Nat.le_succ_of_le hkey, List.forall_mem_nil _⟩

theorem LinkTarget.nesting_encode_le {v : Json} {t : LinkTarget} (h : ofJson? v = some t) :
    (t.encode Json.obj).nesting ≤ 2 * v.nesting := by
  obtain ⟨r, rfl, hr⟩ | ⟨fields, ui, params, rfl, rfl, hparams⟩ | ⟨text, rfl, -⟩ :=
    cases_of_ofJson? h
  · exact DataRef.nesting_toJson_le_of_ofJson? hr
  · obtain ⟨n, hn⟩ := Nat.exists_eq_add_one.2 (Json.nesting_obj_pos fields)
    have hparams : entryNesting ("params", params.map .obj) ≤ 2 * n + 1 := by
      refine entryNesting_le hparams fun v x hv hx => ?_
      obtain rfl := Json.fields?_eq_some_iff.1 hx
      have hlt := Json.nesting_lt_of_lookup hv
      omega
    rw [encode_target, hn]
    refine nesting_obj_given_le_iff.2 ?_
    simp only [entries, List.forall_mem_cons]
    exact ⟨Nat.zero_le _, hparams, List.forall_mem_nil _⟩
  · exact Nat.zero_le _

/-! ### Trees -/

/-- Up to a depth of the object from which it is read, a node is written in at most twice as many
levels. -/
def NestsTwice (m : Nat) : Prop :=
  ∀ fields n, (Json.obj fields).nesting ≤ m → Node.ofFields? fields (Node.parts fields) = some n →
    (Node.encode Json.obj n).nesting ≤ 2 * (Json.obj fields).nesting

section

variable {m : Nat} {fields : Entries Json}

theorem entryNesting_propsValue {props : Entries PropValue} (h : props? fields = some props)
    (hm : ∀ v, fields.lookup "props" = some v → v.nesting ≤ m) :
    entryNesting ("props", propsValue props) ≤ 2 * m := by
  rw [props?] at h
  split at h
  · cases h
    exact Nat.zero_le _
  · next values hlookup =>
    obtain rfl := Option.some.inj h
    have hvalues := hm _ hlookup
    rw [propsValue]
    split_ifs
    · exact Nat.zero_le _
    · obtain ⟨n, hn⟩ := Nat.exists_eq_add_one.2 (Json.nesting_obj_pos values)
      have hwritten : (Json.obj ((values.map fun field => (field.1, PropValue.ofJson field.2)).map
          fun prop => (prop.1, prop.2.toJson))).nesting ≤ 2 * n + 1 := by
        rw [List.map_map]
        refine Json.nesting_obj_le_iff.2 (List.forall_mem_map.2 fun field hfield => ?_)
        have hdepth := PropValue.nesting_toJson_ofJson_le field.2
        have hfield := Json.nesting_lt_of_mem_fields hfield
        change (PropValue.ofJson field.2).toJson.nesting ≤ _
        omega
      exact hwritten.trans (by omega)
  · cases h

theorem entryNesting_loop {loop : Option Loop}
    (h : optionalField Loop.ofJson? fields "for" = some loop)
    (hm : ∀ v, fields.lookup "for" = some v → v.nesting ≤ m) :
    entryNesting ("for", loop.map (Loop.encode Json.obj)) ≤ 2 * m := by
  refine entryNesting_le h fun v l hv hl => ?_
  have hdepth := Loop.nesting_encode_le hl
  have hv := hm v hv
  omega

theorem entryNesting_link {link : Option LinkTarget}
    (h : optionalField LinkTarget.ofJson? fields "link-to" = some link)
    (hm : ∀ v, fields.lookup "link-to" = some v → v.nesting ≤ m) :
    entryNesting ("link-to", link.map (LinkTarget.encode Json.obj)) ≤ 2 * m := by
  refine entryNesting_le h fun v t hv ht => ?_
  have hdepth := LinkTarget.nesting_encode_le ht
  have hv := hm v hv
  omega

theorem entryNesting_object {name : String} {x? : Option (Entries Json)}
    (h : optionalField Json.fields? fields name = some x?)
    (hm : ∀ v, fields.lookup name = some v → v.nesting ≤ m) :
    entryNesting (name, x?.map .obj) ≤ m := by
  refine entryNesting_le h fun v x hv hx => ?_
  obtain rfl := Json.fields?_eq_some_iff.1 hx
  exact hm _ hv

theorem entryNesting_value {name : String} {x? : Option Json}
    (h : optionalField some fields name = some x?)
    (hm : ∀ v, fields.lookup name = some v → v.nesting ≤ m) : entryNesting (name, x?) ≤ m := by
  have hle : entryNesting (name, x?.map id) ≤ m := entryNesting_le h fun v x hv hx => by
    obtain rfl := Option.some.inj hx
    exact hm v hv
  rwa [Option.map_id] at hle

end

namespace Node

variable {m : Nat}

theorem nesting_encodeItem_le (hm : NestsTwice m) {v : Json} (hv : v.nesting ≤ m) :
    (encodeItem Json.obj (childItem v)).nesting ≤ 2 * v.nesting := by
  by_cases hobj : ∃ fields, v = .obj fields
  · obtain ⟨fields, rfl⟩ := hobj
    rw [childItem, objectItem]
    split
    · next hr => exact DataRef.nesting_toJson_le_of_ofJson? hr
    · next hn => exact hm fields _ hv hn
    · exact Nat.le_mul_of_pos_left _ Nat.two_pos
  · rw [childItem_eq_plainItem (not_exists.1 hobj), plainItem.eq_def]
    split
    · exact Nat.zero_le _
    · cases hr : DataRef.ofJson? v with
      | some r => exact DataRef.nesting_toJson_le_of_ofJson? hr
      | none => exact Nat.le_mul_of_pos_left _ Nat.two_pos

theorem encodeItems_eq_map (record : List (String × Json) → Json) (items : List ChildItem) :
    encodeItems record items = items.map (encodeItem record) := by
  induction items with
  | nil => rfl
  | cons item rest ih => rw [encodeItems, ih, List.map_cons]

/-- Children that are given without a list get one. -/
theorem nesting_children_le (hm : NestsTwice m) {v : Json} (hv : v.nesting ≤ m)
    {items : List ChildItem} (h : childList v = some items) :
    (Json.arr (encodeItems Json.obj items)).nesting ≤ 2 * m + 1 := by
  rw [encodeItems_eq_map]
  refine Json.nesting_arr_le_iff.2 (List.forall_mem_map.2 fun item hitem => ?_)
  -- an item of a list is less deep than the list, but one that stands alone is not
  obtain ⟨w, hw, rfl⟩ : ∃ w, w.nesting ≤ m ∧ childItem w = item := by
    cases v with
    | null => cases h
    | arr vs =>
      obtain rfl := Option.some.inj h
      rw [childItems_eq_map] at hitem
      obtain ⟨w, hw, rfl⟩ := List.mem_map.1 hitem
      exact ⟨w, (Json.nesting_lt_of_mem_items hw).le.trans hv, rfl⟩
    | bool | num | str | obj =>
      obtain rfl := Option.some.inj h
      obtain rfl := List.mem_singleton.1 hitem
      exact ⟨_, hv, rfl⟩
  exact (nesting_encodeItem_le hm hw).trans (Nat.mul_le_mul_left 2 hw)

theorem nesting_branch_le (hm : NestsTwice m) {v : Json} (hv : v.nesting ≤ m) {b : ElseBranch}
    (h : otherwise? v = some (some b)) : (encodeBranch Json.obj b).nesting ≤ 2 * m := by
  cases v with
  | bool => cases h; exact Nat.zero_le _
  | obj fields =>
    obtain ⟨n, hn, heq⟩ := Option.map_eq_some_iff.1 h
    cases heq
    exact (hm fields n hv hn).trans (Nat.mul_le_mul_left 2 hv)
  | null | num | str | arr => cases h

/-- One level of an element. -/
theorem entryNesting_element (hm : NestsTwice m) {fields : Entries Json}
    (hfields : ∀ name v, fields.lookup name = some v → v.nesting ≤ m) {e : Element}
    (h : Element.ofFields? fields (parts fields) = some e) :
    ∀ entry ∈ e.entries Json.obj, entryNesting entry ≤ 2 * m + 1 := by
  rw [parts_eq] at h
  obtain ⟨-, -, hprops, hchildren, hif, helseIf, helse, hfor, hkey, hlink, hplatform⟩ :=
    Element.ofFields?_eq_some_iff.1 h
  have hprops := entryNesting_propsValue hprops (hfields _)
  have hif := entryNesting_propValue hif (hfields _)
  have helseIf := entryNesting_propValue helseIf (hfields _)
  have hfor := entryNesting_loop hfor (hfields _)
  have hkey := entryNesting_propValue hkey (hfields _)
  have hlink := entryNesting_link hlink (hfields _)
  have hplatform := entryNesting_object hplatform (hfields _)
  have hchildren : entryNesting ("children",
      e.children.map fun items => .arr (encodeItems Json.obj items)) ≤ 2 * m + 1 := by
    cases hc : e.children with
    | none => exact Nat.zero_le _
    | some items =>
      obtain ⟨v, hv, hitems⟩ := Option.bind_eq_some_iff.1 (hchildren.trans hc)
      exact nesting_children_le hm (hfields _ v hv) hitems
  have helse : entryNesting ("else", e.otherwise.map (encodeBranch Json.obj)) ≤ 2 * m := by
    cases hb : e.otherwise with
    | none => exact Nat.zero_le _
    | some b =>
      rw [hb] at helse
      change ((fields.lookup "else").map otherwise?).getD (some none) = _ at helse
      cases hv : fields.lookup "else" with
      | none => rw [hv] at helse; cases helse
      | some v => rw [hv] at helse; exact nesting_branch_le hm (hfields _ v hv) helse
  simp only [Element.entries, List.forall_mem_cons]
  refine ⟨Nat.zero_le _, Nat.zero_le _, ?_, hchildren, ?_, ?_, ?_, ?_, ?_, ?_, ?_,
    List.forall_mem_nil _⟩
  all_goals omega

theorem entryNesting_component {fields : Entries Json}
    (hfields : ∀ name v, fields.lookup name = some v → v.nesting ≤ m) {c : Component}
    (h : Component.ofFields? fields = some c) : ∀ entry ∈ c.entries, entryNesting entry ≤ m := by
  obtain ⟨-, hname, hdata, hprops, hstates, hmethods, heffects⟩ :=
    Component.ofFields?_eq_some_iff.1 h
  have hname : entryNesting ("name", c.name.map .str) ≤ m :=
    entryNesting_le hname fun _ _ _ _ => Nat.zero_le m
  have heffects : entryNesting ("effects", c.effects.map .arr) ≤ m := by
    refine entryNesting_le heffects fun v items hv hitems => ?_
    obtain rfl := Json.items?_eq_some_iff.1 hitems
    exact hfields _ _ hv
  simp only [Component.entries, List.forall_mem_cons]
  exact ⟨Nat.zero_le m, hname, entryNesting_value hdata (hfields _),
    entryNesting_object hprops (hfields _), entryNesting_value hstates (hfields _),
    entryNesting_object hmethods (hfields _), heffects, List.forall_mem_nil _⟩

/-- An element inside a component is read from a record. -/
theorem nesting_encodeElement_le (hm : NestsTwice m) {v : Json} (hv : v.nesting ≤ m) {e : Element}
    (h : element? v = some e) : (Json.obj (encodeElement Json.obj e)).nesting ≤ 2 * v.nesting := by
  rw [element?_eq] at h
  obtain ⟨fields, hfields, he⟩ := Option.bind_eq_some_iff.1 h
  obtain ⟨n, hn⟩ : ∃ n, v.nesting = n + 1 := by
    obtain ⟨-, htype, -⟩ := Element.ofFields?_eq_some_iff.1 he
    obtain ⟨w, hw, -⟩ := Option.bind_eq_some_iff.1 htype
    exact Nat.exists_eq_add_one.2 (Nat.zero_lt_of_lt (Json.nesting_lt_of_record? hfields hw))
  have hn' : NestsTwice n := fun fields node hle => hm fields node (by omega)
  rw [encodeElement_eq, hn]
  refine nesting_obj_given_le_iff.2 (entryNesting_element hn' (fun name w hw => ?_) he)
  have hlt := Json.nesting_lt_of_record? hfields hw
  omega

/-- One level of a tree. -/
theorem nestsTwice_succ (hm : NestsTwice m) : NestsTwice (m + 1) := by
  intro fields n hle hn
  obtain ⟨k, hk⟩ := Nat.exists_eq_add_one.2 (Json.nesting_obj_pos fields)
  have hk' : NestsTwice k := fun fields node hle => hm fields node (by omega)
  have hfields : ∀ name v, fields.lookup name = some v → v.nesting ≤ k := fun name v hv => by
    have hlt := Json.nesting_lt_of_lookup hv
    omega
  rw [encode_eq, hk]
  refine nesting_obj_given_le_iff.2 ?_
  obtain ⟨-, c, e, rfl, hc, he⟩ | ⟨-, e, rfl, he⟩ := cases_of_ofFields? hn
  · rw [parts_eq] at he
    obtain ⟨v, hv, he⟩ := Option.bind_eq_some_iff.1 he
    have hdepth := nesting_encodeElement_le hk' (hfields _ v hv) he
    have hv := hfields _ v hv
    have hrender : entryNesting ("render", some (.obj (encodeElement Json.obj e))) ≤ 2 * k + 1 :=
      hdepth.trans (by omega)
    have hle : k ≤ 2 * k + 1 := by omega
    rw [entries, List.cons_append, List.forall_mem_cons, List.forall_mem_append]
    refine ⟨Nat.zero_le _, fun entry hentry => ?_, List.forall_mem_singleton.2 hrender⟩
    exact (entryNesting_component hfields hc entry hentry).trans hle
  · exact List.forall_mem_cons.2 ⟨Nat.zero_le _, entryNesting_element hk' hfields he⟩

/-- **A tree is written in at most twice as many levels as the value has from which it is read.** -/
theorem nesting_encode_le {v : Json} {n : Node} (h : ofJson v = .ok n) :
    (encode Json.obj n).nesting ≤ 2 * v.nesting := by
  -- by induction on the depth: what is looked up in a record is less deep, if no subterm
  have hall (m : Nat) : NestsTwice m := by
    induction m with
    | zero => exact fun fields _ hle => absurd (Json.nesting_obj_pos fields) (Nat.not_lt.2 hle)
    | succ m ih => exact nestsTwice_succ ih
  cases v with
  | obj fields => exact hall _ fields n (Nat.le_refl _) (ofJson_obj_eq_ok_iff.1 h)
  | null | bool | num | str | arr => cases h

/-! ### Ids -/

section

variable {σ : Type} (f : IdRole → String → String → StateM σ String)

theorem nesting_obj_given_congr {as bs : List (String × Option Json)}
    (h : as.map entryNesting = bs.map entryNesting) :
    (Json.obj (given as)).nesting = (Json.obj (given bs)).nesting := by
  have hle {as bs : List (String × Option Json)} (h : as.map entryNesting = bs.map entryNesting) :
      (Json.obj (given as)).nesting ≤ (Json.obj (given bs)).nesting := by
    obtain ⟨n, hn⟩ := Nat.exists_eq_add_one.2 (Json.nesting_obj_pos (given bs))
    have hbs : ∀ k ∈ bs.map entryNesting, k ≤ n :=
      List.forall_mem_map.2 (nesting_obj_given_le_iff.1 (Nat.le_of_eq hn))
    rw [← h] at hbs
    rw [hn]
    exact nesting_obj_given_le_iff.2 (List.forall_mem_map.1 hbs)
  exact Nat.le_antisymm (hle h) (hle h.symm)

theorem map_entryNesting_congr {e e' : Element}
    (h : e' = { e with children := e'.children, otherwise := e'.otherwise })
    (hchildren : (e'.children.map fun items => Json.nesting (.arr (encodeItems Json.obj items))) =
      e.children.map fun items => Json.nesting (.arr (encodeItems Json.obj items)))
    (hbranch : (e'.otherwise.map fun b => (encodeBranch Json.obj b).nesting) =
      e.otherwise.map fun b => (encodeBranch Json.obj b).nesting) :
    (e'.entries Json.obj).map entryNesting = (e.entries Json.obj).map entryNesting := by
  rw [h]
  simp only [Element.entries, List.map_cons, entryNesting, Option.map_map, Function.comp_def,
    hchildren, hbranch]

mutual

/-- **Ids do not matter for the depth of the written form.** -/
theorem nesting_encode_mapIds : ∀ (n : Node) (s : σ),
    (encode Json.obj (n.mapIds f s).1).nesting = (encode Json.obj n).nesting
  | ⟨none, element⟩, s => by
    rw [encode_eq, encode_eq]
    refine nesting_obj_given_congr (congrArg (List.cons 0) ?_)
    exact map_entryNesting_mapIdsBelow element (f .node element.type element.id s).2
  | ⟨some component, element⟩, s => by
    let inner := f .render element.type element.id (f .node element.type component.id s).2
    have helement : (Json.obj (encodeElement Json.obj
        { (mapIdsBelow f element inner.2).1 with id := inner.1 })).nesting =
          (Json.obj (encodeElement Json.obj element)).nesting := by
      rw [encodeElement_eq, encodeElement_eq]
      exact nesting_obj_given_congr (map_entryNesting_mapIdsBelow element inner.2)
    rw [encode_eq, encode_eq]
    let others := 0 :: component.entries.map entryNesting
    exact nesting_obj_given_congr (congrArg (fun depth => others ++ [depth]) helement)

theorem map_entryNesting_mapIdsBelow : ∀ (e : Element) (s : σ),
    ((mapIdsBelow f e s).1.entries Json.obj).map entryNesting =
      (e.entries Json.obj).map entryNesting
  | ⟨_, _, _, none, _, _, none, _, _, _, _⟩, _ => rfl
  | ⟨_, _, _, some items, _, _, none, _, _, _, _⟩, s =>
    map_entryNesting_congr rfl (congrArg some (nesting_encodeItems_mapIds items s)) rfl
  | ⟨_, _, _, none, _, _, some branch, _, _, _, _⟩, s =>
    map_entryNesting_congr rfl rfl (congrArg some (nesting_encodeBranch_mapIds branch s))
  | ⟨_, _, _, some items, _, _, some branch, _, _, _, _⟩, s =>
    map_entryNesting_congr rfl (congrArg some (nesting_encodeItems_mapIds items _))
      (congrArg some (nesting_encodeBranch_mapIds branch s))

theorem nesting_encodeBranch_mapIds : ∀ (b : ElseBranch) (s : σ),
    (encodeBranch Json.obj (mapIdsOfBranch f b s).1).nesting = (encodeBranch Json.obj b).nesting
  | .node n, s => nesting_encode_mapIds n s
  | .flag _, _ => rfl

theorem nesting_encodeItems_mapIds : ∀ (items : List ChildItem) (s : σ),
    (Json.arr (encodeItems Json.obj (mapIdsOfItems f items s).1)).nesting =
      (Json.arr (encodeItems Json.obj items)).nesting
  | [], _ => rfl
  | item :: rest, s => by
    have hitem := nesting_encodeItem_mapIds item s
    have hrest := nesting_encodeItems_mapIds rest (mapIdsOfItem f item s).2
    let item' := (mapIdsOfItem f item s).1
    let rest' := (mapIdsOfItems f rest (mapIdsOfItem f item s).2).1
    change (Json.arr (encodeItem Json.obj item' :: encodeItems Json.obj rest')).nesting = _
    rw [encodeItems, Json.nesting_arr_cons, Json.nesting_arr_cons, hitem, hrest]

theorem nesting_encodeItem_mapIds : ∀ (item : ChildItem) (s : σ),
    (encodeItem Json.obj (mapIdsOfItem f item s).1).nesting = (encodeItem Json.obj item).nesting
  | .node n, s => nesting_encode_mapIds n s
  | .text _, _ => rfl
  | .ref _, _ => rfl
  | .other _, _ => rfl

end

end

end Node

end SchemaCanvas
