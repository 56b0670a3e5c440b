import SchemaCanvas.Proofs.Expr.Holes
import SchemaCanvas.Proofs.Expr.Scanning
import SchemaCanvas.Proofs.Number.Written
import SchemaCanvas.Render.Branch

/-!
# Conditions in templates

A condition in a template is the text of its value. The text of a list of one item is the text of
the item, and that of an empty list is empty, although every list is true by itself. So the text
counts as what is left of the value when such lists are unwrapped (`Value.unwrapped`), and a
template means the same as the expression in it except for lists that hold nothing true after all.

* `Value.holds_text` : the text of a value as a condition;
* `PropValue.selectsAs_iff` : conditions select the same branches if they hold alike;
* `PropValue.template_agrees` : where a template means the same as the expression in it.
-/

namespace SchemaCanvas

/-- A value without the lists around it that hold a single item; an empty list leaves nothing. -/
def Json.unwrapped : Json → Value
  | arr [] => none
  | arr [v] => unwrapped v
  | v => some v

/-- A value without the lists around it that hold a single item. -/
def Value.unwrapped : Value → Value
  | none => none
  | some v => v.unwrapped

/-! ### Trimmed texts -/

namespace Text

theorem not_isBlank_of_isNumeric {c : Char} (h : isNumeric c) : isBlank c = false := by
  simp only [isNumeric, Bool.or_eq_true, beq_iff_eq] at h
  obtain (h | rfl) | rfl := h
  · exact Token.isBlank_of_isDigit h
  · decide
  · decide

theorem mem_trim {s : String} {c : Char} (h : c ∈ s.toList) (hc : isBlank c = false) :
    c ∈ (trim s).toList := by
  obtain ⟨lead, trail, hlead, htrail, -, hs⟩ := exists_outerBlanks s
  have hnot {cs : List Char} (hcs : AllBlank cs) : c ∉ cs := fun hmem => by
    rw [hcs c hmem] at hc
    cases hc
  rw [hs, List.mem_append, List.mem_append] at h
  exact (h.resolve_left (hnot hlead)).resolve_right (hnot htrail)

theorem IsNumeral.trim_eq {s : String} (h : IsNumeral s) : trim s = s := by
  rw [trim, trimmed_of_forall fun c hc => not_isBlank_of_isNumeric (h.2 c hc), String.ofList_toList]

/-- The only numeral that counts as false is the zero digit. -/
theorem IsNumeral.mem_falseTexts_iff {s : String} (h : IsNumeral s) :
    s ∈ falseTexts ↔ s = "0" := by
  refine ⟨fun hmem => ?_, fun hzero => by rw [hzero]; decide⟩
  simp only [falseTexts, List.mem_cons, List.not_mem_nil, or_false] at hmem
  obtain rfl | rfl | hzero | rfl | rfl := hmem
  · exact absurd rfl h.1
  · exact absurd (h.2 'f' (by decide)) (by decide)
  · exact hzero
  · exact absurd (h.2 'n' (by decide)) (by decide)
  · exact absurd (h.2 'u' (by decide)) (by decide)

end Text

/-! ### Values as conditions -/

namespace Value

theorem holds_str (s : String) : holds (some (.str s)) = !decide (Text.trim s ∈ falseTexts) := by
  rw [holds, List.contains_eq_mem]

theorem holds_numberText (n : Number) :
    holds (some (.str (Json.numberText n))) = holds (some (.num n)) := by
  obtain ⟨hnumeral, hzero⟩ := Json.numberText_spec n
  have hfalse : decide (Json.numberText n ∈ falseTexts) = (n.toFloat == 0) := by
    rw [Bool.eq_iff_iff, decide_eq_true_eq, hnumeral.mem_falseTexts_iff, hzero]
  rw [holds_str, hnumeral.trim_eq, hfalse]
  rfl

theorem holds_of_comma {s : String} (h : ',' ∈ s.toList) : holds (some (.str s)) = true := by
  have hcomma := Text.mem_trim h (by decide)
  rw [holds_str, Bool.not_eq_true', decide_eq_false_iff_not]
  intro hmem
  have hnone : ∀ text ∈ falseTexts, ',' ∉ text.toList := by decide
  exact hnone _ hmem hcomma

end Value

/-! ### Values and their texts -/

theorem Value.text_of_ne {v : Json} (h : v ≠ .null) : text (some v) = v.display := by
  rw [text]
  exact h

theorem Json.displayItems_eq (items : List Json) :
    displayItems items = items.map fun v => Value.text (some v) := by
  induction items with
  | nil => rfl
  | cons v rest ih =>
    rw [List.map_cons, ← ih]
    by_cases hv : v = .null
    · subst hv
      rw [displayItems, Value.text]
    · rw [displayItems, Value.text_of_ne hv]
      exact hv

theorem Value.text_arr (items : List Json) :
    text (some (.arr items)) = ",".intercalate (items.map fun v => text (some v)) := by
  have hne : Json.arr items ≠ .null := nofun
  rw [text_of_ne hne, Json.display, Json.displayItems_eq]

/-- **The text of a value holds if what is unwrapped holds.** -/
theorem Json.holds_text : ∀ v : Json,
    Value.holds (some (.str (Value.text (some v)))) = v.unwrapped.holds
  | null => by decide
  | bool b => by cases b <;> decide
  | num n => Value.holds_numberText n
  | str s => rfl
  | obj _ => (by decide : Value.holds (some (.str "[object Object]")) = true)
  | arr [] => by decide
  | arr [v] => by
    rw [Value.text_arr, List.map_singleton, String.intercalate_singleton, holds_text v, unwrapped]
  | arr (v :: w :: rest) => by
    refine Value.holds_of_comma ?_
    rw [Value.text_arr, List.map_cons, List.map_cons, String.intercalate_cons_cons,
      String.toList_append, String.toList_append]
    exact List.mem_append_left _ (List.mem_append_right _ List.mem_cons_self)

theorem Value.holds_text (v : Value) : holds (some (.str v.text)) = v.unwrapped.holds := by
  cases v with
  | none => decide
  | some v => exact v.holds_text

theorem Value.unwrapped_of_ne {v : Value} (h : ∀ items, v ≠ some (.arr items)) :
    v.unwrapped = v := by
  cases v with
  | none => rfl
  | some v =>
    cases v with
    | arr items => exact absurd rfl (h items)
    | null | bool | num | str | obj => rfl

/-- A value and its text agree as conditions, except for a list that holds nothing true. -/
theorem Value.holds_text_eq_iff (v : Value) : holds (some (.str v.text)) = v.holds ↔
    ∀ items, v = some (.arr items) → v.unwrapped.holds = true := by
  rw [holds_text]
  constructor
  · rintro h items rfl
    exact h
  · intro h
    by_cases hlist : ∃ items, v = some (.arr items)
    · obtain ⟨items, rfl⟩ := hlist
      exact h items rfl
    · rw [unwrapped_of_ne fun items heq => hlist ⟨items, heq⟩]

/-! ### Conditions -/

namespace PropValue

variable {context : Json} {transforms : Transforms}

/-- Two conditions select the same branch of every element, as its `if` and as its `elseIf`. -/
def SelectsAs (c c' : PropValue) (context : Json) (transforms : Transforms) : Prop :=
  ∀ e : Element,
    { e with condition := some c }.branch context transforms =
      { e with condition := some c' }.branch context transforms ∧
    { e with elseIf := some c }.branch context transforms =
      { e with elseIf := some c' }.branch context transforms

theorem selectsAs_iff {c c' : PropValue} :
    c.SelectsAs c' context transforms ↔
      c.holds context transforms = c'.holds context transforms := by
  constructor
  · intro h
    have hbranch := (h { type := "div" }).1
    simp only [Element.branch, Option.any_none, ElseBranch.branch] at hbranch
    cases hc : c.holds context transforms <;> cases hc' : c'.holds context transforms <;>
      simp [hc, hc'] at hbranch ⊢
  · intro h e
    simp only [Element.branch, Option.any_some, h, and_self]

variable {x : String} {v : Json}

/-- A template that is nothing but a hole holds as the text of its value does. -/
theorem holds_hole (h : '\x7d' ∉ x.toList) (h' : '\n' ∉ x.toList)
    (hvalue : Expr.evaluate x context = .ok (some v)) :
    (ofJson (.str ("\x7b\x7b" ++ x ++ "\x7d\x7d"))).holds context transforms =
      Value.holds (some (.str (Value.text (some v)))) := by
  change Value.holds (if Template.hasHole _ then some (.str (Template.interpolate _ context))
    else _) = _
  rw [if_pos (Template.hasHole_hole h h'), Template.interpolate_hole h h' hvalue]

theorem holds_expression (hvalue : Expr.evaluate x context = .ok (some v)) :
    (ofJson (.obj [("$exp", .str x)])).holds context transforms = Value.holds (some v) := by
  have hread : ofJson (.obj [("$exp", .str x)]) = ref (.expression x) := rfl
  rw [hread, holds, resolve, DataRef.resolve, Expr.value, hvalue]

/-- **A value and its text agree as conditions, except for a list that holds nothing true,** and so
do an expression of that value and the template around it. -/
theorem template_agrees (v : Value) :
    (Value.holds (some (.str v.text)) = v.holds ↔
      ∀ items, v = some (.arr items) → v.unwrapped.holds = true) ∧
    ∀ (x : String) (context : Json) (transforms : Transforms),
      '\x7d' ∉ x.toList → '\n' ∉ x.toList → Expr.evaluate x context = .ok v → v.isSome →
      ((ofJson (.str ("\x7b\x7b" ++ x ++ "\x7d\x7d"))).SelectsAs (ofJson (.obj [("$exp", .str x)]))
          context transforms ↔
        ∀ items, v = some (.arr items) → v.unwrapped.holds = true) := by
  refine ⟨v.holds_text_eq_iff, fun x context transforms h h' hvalue hv => ?_⟩
  obtain ⟨v, rfl⟩ := Option.isSome_iff_exists.1 hv
  rw [selectsAs_iff, holds_hole h h' hvalue, holds_expression hvalue, Value.holds_text_eq_iff]

/-- An empty list is true by itself and false in a template, and a list of a true item is true in
both. -/
theorem template_agrees_items :
    ¬ (ofJson (.str "\x7b\x7bitems\x7d\x7d")).SelectsAs (ofJson (.obj [("$exp", .str "items")]))
      (.obj [("items", .arr [])]) [] ∧
    (ofJson (.str "\x7b\x7bitems\x7d\x7d")).SelectsAs (ofJson (.obj [("$exp", .str "items")]))
      (.obj [("items", .arr [.bool true])]) [] := by
  have hbrace : '\x7d' ∉ "items".toList := by decide
  have hline : '\n' ∉ "items".toList := by decide
  constructor
  · have hvalue : Expr.evaluate "items" (.obj [("items", .arr [])]) = .ok (some (.arr [])) := rfl
    exact fun h =>
      absurd (((template_agrees _).2 "items" _ _ hbrace hline hvalue rfl).1 h [] rfl) (by decide)
  · have hvalue : Expr.evaluate "items" (.obj [("items", .arr [.bool true])]) =
        .ok (some (.arr [.bool true])) := rfl
    exact ((template_agrees _).2 "items" _ _ hbrace hline hvalue rfl).2 fun _ _ => by decide

/-- Not all values agree with their texts, and not all expressions with the templates around
them. -/
theorem not_template_agrees :
    ¬ (∀ v : Value, Value.holds (some (.str v.text)) = v.holds) ∧
    ¬ ∀ (x : String) (context : Json) (transforms : Transforms) (v : Json),
      '\x7d' ∉ x.toList → '\n' ∉ x.toList → Expr.evaluate x context = .ok (some v) →
      (ofJson (.str ("\x7b\x7b" ++ x ++ "\x7d\x7d"))).SelectsAs (ofJson (.obj [("$exp", .str x)]))
        context transforms := by
  constructor
  · exact fun h => absurd (h (some (.arr []))) (by decide)
  · intro h
    have hbrace : '\x7d' ∉ "items".toList := by decide
    have hline : '\n' ∉ "items".toList := by decide
    have hvalue : Expr.evaluate "items" (.obj [("items", .arr [])]) = .ok (some (.arr [])) := rfl
    have hselects := h "items" _ [] _ hbrace hline hvalue
    rw [selectsAs_iff, holds_hole hbrace hline hvalue, holds_expression hvalue] at hselects
    exact absurd hselects (by decide)

end PropValue

end SchemaCanvas
