import SchemaCanvas.Proofs.Expr.Failure
import SchemaCanvas.Proofs.Expr.Scanning
import SchemaCanvas.Proofs.Schema.Fields

/-!
# Expressions in diagnostics

The diagnostics of a schema read the text of an expression as it stands, and evaluation trims it
before. Both agree on a text if it is malformed anyway, or if the blanks around it are white space
of the language; on every other text they disagree.

* `Schema.ElementAt` : the elements of a schema and their places;
* `Schema.mem_validate` : the diagnostics of a schema are those of its elements;
* `Schema.reported_iff` : a condition is reported if its text cannot be read;
* `Schema.reported_iff_malformed_iff` : when this agrees with evaluation.
-/

namespace SchemaCanvas

namespace Schema

variable {place : List String} {fields inner root : Entries Json} {d : Diagnostic}

/-! ### The elements of a schema -/

/-- The element of a node: the node itself, or what it renders. -/
inductive ElementOf (place : List String) (fields : Entries Json) :
    List String → Entries Json → Prop
  | element (h : fields.lookup "kind" = some (.str "element") ∨
      fields.lookup "kind" = none ∧ fields.lookup "render" = none) :
      ElementOf place fields place fields
  | render {inner : Entries Json}
      (h : fields.lookup "kind" = some (.str "component") ∨ fields.lookup "kind" = none)
      (hrender : fields.lookup "render" = some (.obj inner)) :
      ElementOf place fields (place ++ ["render"]) inner

/-- A node right below an element. -/
inductive NodeBelow (place : List String) (fields : Entries Json) :
    List String → Entries Json → Prop
  | otherwise {inner : Entries Json} (h : fields.lookup "else" = some (.obj inner)) :
      NodeBelow place fields (place ++ ["else"]) inner
  | child {inner : Entries Json} (h : fields.lookup "children" = some (.obj inner))
      (hnode : isReference inner = false) : NodeBelow place fields (place ++ ["children"]) inner
  | item {items : List Json} {i : Nat} {inner : Entries Json}
      (h : fields.lookup "children" = some (.arr items)) (hitem : items[i]? = some (.obj inner))
      (hnode : isReference inner = false) :
      NodeBelow place fields (place ++ ["children"] ++ [toString i]) inner

/-- An element of a schema and its place. -/
inductive ElementAt (root : Entries Json) : List String → Entries Json → Prop
  | outermost {place : List String} {fields : Entries Json}
      (h : ElementOf [] root place fields) : ElementAt root place fields
  | inside {place place' place'' : List String} {fields node inner : Entries Json}
      (h : ElementAt root place fields) (hnode : NodeBelow place fields place' node)
      (helement : ElementOf place' node place'' inner) : ElementAt root place'' inner

theorem ElementOf.mem_checkFields {place' : List String} (h : ElementOf place fields place' inner)
    (hd : d ∈ checkElement place' inner (checkParts place' inner)) :
    d ∈ checkFields place fields (checkParts place fields) := by
  cases h with
  | element h =>
    obtain hkind | ⟨hkind, hrender⟩ := h
    · rw [checkFields, hkind]
      exact hd
    · rw [checkFields, hkind, hrender]
      exact hd
  | render h hrender =>
    have hmem : d ∈ checkComponent place fields (checkParts place fields) := by
      rw [checkComponent, hrender, checkParts_eq, hrender]
      exact List.mem_append_left _ hd
    obtain hkind | hkind := h
    · rw [checkFields, hkind]
      exact hmem
    · rw [checkFields, hkind, hrender]
      exact hmem

theorem mem_checkItems {items : List Json} {i start : Nat} {v : Json} (h : items[i]? = some v)
    (hd : d ∈ checkItem (place ++ [toString (start + i)]) v) :
    d ∈ checkItems place start items := by
  induction items generalizing i start with
  | nil => cases h
  | cons first rest ih =>
    cases i with
    | zero =>
      cases h
      exact List.mem_append_left _ hd
    | succ i =>
      refine List.mem_append_right _ (ih h ?_)
      rwa [Nat.add_assoc, Nat.add_comm 1]

theorem NodeBelow.mem_checkElement {place' : List String} (h : NodeBelow place fields place' inner)
    (hd : d ∈ checkFields place' inner (checkParts place' inner)) :
    d ∈ checkElement place fields (checkParts place fields) := by
  have hchildren {v : Json} (h : fields.lookup "children" = some v)
      (hd : d ∈ checkChildren (place ++ ["children"]) v) :
      d ∈ checkElement place fields (checkParts place fields) := by
    rw [checkElement, checkParts_eq, h]
    exact List.mem_append_right _ hd
  cases h with
  | otherwise h =>
    rw [checkElement, checkParts_eq, h]
    exact List.mem_append_left _ (List.mem_append_left _ (List.mem_append_right _ hd))
  | child h hnode =>
    refine hchildren h ?_
    rw [checkChildren, hnode]
    exact hd
  | @item items i inner h hitem hnode =>
    refine hchildren h (mem_checkItems hitem ?_)
    rw [Nat.zero_add, checkItem, hnode]
    exact hd

/-- The diagnostics of an element are diagnostics of the schema. -/
theorem ElementAt.mem_validate (h : ElementAt root place fields)
    (hd : d ∈ checkElement place fields (checkParts place fields)) : d ∈ validate (.obj root) := by
  induction h with
  | outermost h => exact h.mem_checkFields hd
  | inside _ hnode helement ih => exact ih (hnode.mem_checkElement (helement.mem_checkFields hd))

/-! ### Reported expressions -/

/-- Every expression that is reported cannot be read, for the reason that is given. -/
def Genuine (ds : List Diagnostic) : Prop :=
  ∀ d ∈ ds, ∀ text e, d.fault = .expression text e → Expr.parse? text = .error e

theorem genuine_nil : Genuine [] := fun _ h => absurd h List.not_mem_nil

theorem genuine_single {fault : SchemaFault} (h : ∀ text e, fault ≠ .expression text e) :
    Genuine [⟨place, fault⟩] := by
  intro d hd text e hfault
  obtain rfl := List.mem_singleton.1 hd
  exact absurd hfault (h text e)

theorem Genuine.append {ds ds' : List Diagnostic} (h : Genuine ds) (h' : Genuine ds') :
    Genuine (ds ++ ds') :=
  fun d hd => (List.mem_append.1 hd).elim (h d) (h' d)

theorem Genuine.flatMap {α : Type} {items : List α} {f : α → List Diagnostic}
    (h : ∀ a, Genuine (f a)) : Genuine (items.flatMap f) := by
  intro d hd
  obtain ⟨a, -, hmem⟩ := List.mem_flatMap.1 hd
  exact h a d hmem

section

variable {text : String} {e : SyntaxError}

theorem parse?_of_mem_expressionFaults {v : Json}
    (h : .expression text e ∈ expressionFaults v) : Expr.parse? text = .error e := by
  unfold expressionFaults at h
  split at h
  · split at h
    · cases h
    · next hparse =>
      cases List.mem_singleton.1 h
      exact hparse
  · cases List.mem_singleton.1 h

theorem expression_not_mem_transformFaults (names : Option Json) :
    .expression text e ∉ transformFaults names := by
  intro h
  unfold transformFaults at h
  split at h
  · cases h
  · cases h
  · split at h
    · cases h
    · cases List.mem_singleton.1 h
  · cases List.mem_singleton.1 h

theorem parse?_of_mem_valueFaults {v : Json} (h : .expression text e ∈ valueFaults v) :
    Expr.parse? text = .error e := by
  unfold valueFaults at h
  split at h
  · split at h
    · exact parse?_of_mem_expressionFaults h
    · obtain h | h := List.mem_append.1 h
      · split at h
        · cases h
        · cases List.mem_singleton.1 h
      · exact absurd h (expression_not_mem_transformFaults _)
    · cases h
  · cases h

end

theorem genuine_checkValue (place : List String) (v : Json) : Genuine (checkValue place v) := by
  intro d hd text e hfault
  obtain ⟨fault, hmem, rfl⟩ := List.mem_map.1 hd
  obtain rfl : fault = .expression text e := hfault
  exact parse?_of_mem_valueFaults hmem

theorem genuine_checkLoop (place : List String) (v : Json) : Genuine (checkLoop place v) := by
  have hsource (source : Option Json) : Genuine (checkSource place source) := by
    unfold checkSource
    split
    · exact genuine_nil
    · split
      · exact genuine_checkValue _ _
      · exact genuine_single nofun
    · exact genuine_single nofun
    · exact genuine_single nofun
  unfold checkLoop
  split
  · refine (hsource _).append ?_
    split
    · split
      · exact genuine_single nofun
      · exact genuine_nil
    · exact genuine_single nofun
  · exact genuine_single nofun

/-- The same for all parts of a record. -/
structure GenuineParts (parts : PartDiagnostics) : Prop where
  children : Genuine parts.children
  otherwise : Genuine parts.otherwise
  render : Genuine parts.render

theorem genuine_checkElement {parts : PartDiagnostics} (h : GenuineParts parts)
    (place : List String) (fields : Entries Json) : Genuine (checkElement place fields parts) := by
  have htype (type : Option Json) : Genuine (checkType place type) := by
    unfold checkType
    split
    · split
      · exact genuine_single nofun
      · exact genuine_nil
    · exact genuine_single nofun
    · exact genuine_single nofun
  have hprops (props : Option Json) : Genuine (checkProps place props) := by
    unfold checkProps
    split
    · exact genuine_nil
    · exact .flatMap fun prop => genuine_checkValue _ _
    · exact genuine_single nofun
  have hfield (name : String) : Genuine (checkField place fields name) := by
    unfold checkField
    split
    · exact genuine_checkValue _ _
    · exact genuine_nil
  unfold checkElement
  refine (((((htype _).append (hprops _)).append (.flatMap hfield)).append h.otherwise).append
    ?_).append h.children
  split
  · exact genuine_checkLoop _ _
  · exact genuine_nil

theorem genuine_checkFields {parts : PartDiagnostics} (h : GenuineParts parts)
    (place : List String) (fields : Entries Json) : Genuine (checkFields place fields parts) := by
  have hcomponent : Genuine (checkComponent place fields parts) := by
    unfold checkComponent
    refine Genuine.append ?_ ?_
    · split
      · exact h.render
      · exact genuine_single nofun
      · exact genuine_single nofun
    · split
      · exact genuine_nil
      · exact genuine_nil
      · exact genuine_single nofun
  unfold checkFields
  split
  · split
    · exact hcomponent
    · exact genuine_checkElement h _ _
  · exact hcomponent
  · exact genuine_checkElement h _ _
  · exact genuine_single nofun

mutual

theorem genuine_checkParts : ∀ (place : List String) (fields : List (String × Json)),
    GenuineParts (checkParts place fields)
  | _, [] => ⟨genuine_nil, genuine_nil, genuine_nil⟩
  | place, (name, v) :: rest => by
    have hrest := genuine_checkParts place rest
    rw [checkParts]
    split
    · exact ⟨genuine_checkChildren _ v, hrest.otherwise, hrest.render⟩
    · split
      · exact ⟨hrest.children, genuine_checkBranch _ v, hrest.render⟩
      · split
        · exact ⟨hrest.children, hrest.otherwise, genuine_checkRender _ v⟩
        · exact hrest

theorem genuine_checkChildren : ∀ (place : List String) (v : Json), Genuine (checkChildren place v)
  | place, .arr items => genuine_checkItems place 0 items
  | place, .obj fields => by
    rw [checkChildren]
    split
    · exact genuine_checkValue _ _
    · exact genuine_checkFields (genuine_checkParts place fields) _ _
  | _, .null | _, .bool _ | _, .num _ | _, .str _ => genuine_nil

theorem genuine_checkItems : ∀ (place : List String) (i : Nat) (items : List Json),
    Genuine (checkItems place i items)
  | _, _, [] => genuine_nil
  | place, i, v :: rest => (genuine_checkItem _ v).append (genuine_checkItems place (i + 1) rest)

theorem genuine_checkItem : ∀ (place : List String) (v : Json), Genuine (checkItem place v)
  | _, .arr _ => genuine_single nofun
  | place, .obj fields => by
    rw [checkItem]
    split
    · exact genuine_checkValue _ _
    · exact genuine_checkFields (genuine_checkParts place fields) _ _
  | _, .null | _, .bool _ | _, .num _ | _, .str _ => genuine_nil

theorem genuine_checkBranch : ∀ (place : List String) (v : Json), Genuine (checkBranch place v)
  | place, .obj fields => genuine_checkFields (genuine_checkParts place fields) _ _
  | _, .bool _ => genuine_nil
  | _, .null | _, .num _ | _, .str _ | _, .arr _ => genuine_single nofun

theorem genuine_checkRender : ∀ (place : List String) (v : Json), Genuine (checkRender place v)
  | place, .obj fields => genuine_checkElement (genuine_checkParts place fields) _ _
  | _, .null | _, .bool _ | _, .num _ | _, .str _ | _, .arr _ => genuine_nil

end

theorem genuine_validate (v : Json) : Genuine (validate v) := by
  cases v with
  | obj fields => exact genuine_checkFields (genuine_checkParts [] fields) _ _
  | null | bool | num | str | arr => exact genuine_single nofun

/-! ### Conditions -/

/-- The condition of an element is reported because of the text of its expression. -/
def Reported (root : Entries Json) (place : List String) (text : String) : Prop :=
  ∃ e, ⟨place ++ ["if"], .expression text e⟩ ∈ validate (.obj root)

/-- A condition is reported if its text cannot be read as it stands. -/
theorem reported_iff (h : ElementAt root place fields) {condition : Entries Json}
    (hcondition : fields.lookup "if" = some (.obj condition)) {text : String}
    (htext : condition.lookup "$exp" = some (.str text)) :
    Reported root place text ↔ ∃ e, Expr.parse? text = .error e := by
  constructor
  · rintro ⟨e, he⟩
    exact ⟨e, genuine_validate _ _ he text e rfl⟩
  · rintro ⟨e, he⟩
    refine ⟨e, h.mem_validate ?_⟩
    have hfaults : valueFaults (.obj condition) = [.expression text e] := by
      simp only [valueFaults, htext, expressionFaults, he]
    have hfield : ⟨place ++ ["if"], .expression text e⟩ ∈ checkField place fields "if" := by
      rw [checkField, hcondition]
      exact List.mem_map.2 ⟨_, hfaults ▸ List.mem_singleton.2 rfl, rfl⟩
    -- the condition is one of three fields, which come third in the list of diagnostics
    have hfields : ⟨place ++ ["if"], .expression text e⟩ ∈
        ["if", "elseIf", "key"].flatMap (checkField place fields) :=
      List.mem_flatMap.2 ⟨"if", List.mem_cons_self, hfield⟩
    rw [checkElement]
    exact List.mem_append_left _ (List.mem_append_left _ (List.mem_append_left _
      (List.mem_append_right _ hfields)))

/-- **Diagnostics and evaluation agree on a condition if its text is malformed anyway, or if all
blanks around it are white space of the language,** and in no other case. Whether the text is
malformed does not depend on the context. -/
theorem reported_iff_malformed_iff (h : ElementAt root place fields) {condition : Entries Json}
    (hcondition : fields.lookup "if" = some (.obj condition)) {text : String}
    (htext : condition.lookup "$exp" = some (.str text)) (context : Json) :
    (∀ other, Expr.Malformed text other ↔ Expr.Malformed text context) ∧
      ((Reported root place text ↔ Expr.Malformed text context) ↔
        Expr.Malformed text context ∨ ∀ c ∈ Text.outerBlanks text, Token.isSpace c) := by
  refine ⟨fun other => by rw [Expr.malformed_iff, Expr.malformed_iff], ?_⟩
  rw [reported_iff h hcondition htext, Expr.malformed_iff, Expr.exists_error_iff_trim]
  generalize (∃ err, Expr.parse? (Text.trim text) = .error err) = malformed
  generalize (∀ c ∈ Text.outerBlanks text, Token.isSpace c) = skipped
  by_cases hmalformed : malformed
  · simp [hmalformed]
  · simp [hmalformed, Classical.not_not]

/-- A condition behind a no-break space. -/
def spacedCondition : Entries Json := [("$exp", .str "\u00a0a")]

/-- An element with this condition. -/
def spacedElement : Entries Json := [("if", .obj spacedCondition), ("type", .str "div")]

/-- The condition is reported, and evaluation has nothing against its text. -/
theorem not_reported_iff_malformed : ¬ (Reported spacedElement [] "\u00a0a" ↔
    Expr.Malformed "\u00a0a" (.obj [("a", .bool true)])) := by
  have hat : ElementAt spacedElement [] spacedElement := .outermost (.element (.inr ⟨rfl, rfl⟩))
  have hread : Expr.parse? (Text.trim "\u00a0a") = .ok (.ident "a") := by rfl
  have hreported : Reported spacedElement [] "\u00a0a" :=
    (reported_iff hat rfl rfl).2 ⟨⟨.unexpectedCharacter '\u00a0', 0⟩, by rfl⟩
  intro hiff
  obtain ⟨err, herr⟩ := Expr.malformed_iff.1 (hiff.1 hreported)
  rw [hread] at herr
  cases herr

/-- A condition between spaces. -/
def paddedCondition : Entries Json := [("$exp", .str " a ")]

/-- An element with this condition. -/
def paddedItem : Entries Json := [("if", .obj paddedCondition), ("type", .str "li")]

/-- A list with this element as its only entry. -/
def paddedList : Entries Json := [("children", .arr [.obj paddedItem]), ("type", .str "ul")]

theorem reported_iff_malformed_iff_paddedList :
    Reported paddedList ["children", "0"] " a " ↔ Expr.Malformed " a " (.obj []) := by
  have hlist : ElementOf [] paddedList [] paddedList := .element (.inr ⟨rfl, rfl⟩)
  have hchildren : paddedList.lookup "children" = some (.arr [.obj paddedItem]) := rfl
  have hitem : NodeBelow [] paddedList ["children", "0"] paddedItem :=
    .item (i := 0) hchildren rfl rfl
  have hat : ElementAt paddedList ["children", "0"] paddedItem :=
    .inside (.outermost hlist) hitem (.element (.inr ⟨rfl, rfl⟩))
  have hblanks : (Text.outerBlanks " a ").all Token.isSpace := by rfl
  exact (reported_iff_malformed_iff hat rfl rfl (.obj [])).2.2 (.inr (List.all_eq_true.1 hblanks))

end Schema

end SchemaCanvas
