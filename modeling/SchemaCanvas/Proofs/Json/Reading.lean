import SchemaCanvas.Config
import SchemaCanvas.Proofs.Json.Numeral
import Mathlib.Data.List.Forall2

/-!
# Written JSON is read back

The writer puts every item of a list and every field on a line of its own, behind blanks that the
reader skips. Each part of a text is read back whatever follows it, so the parts of a longer text
are read one after the other. Numbers stand apart: what is written for a float are the shortest
digits that tell it from its neighbours, and reading them back is rounding.

* `Document.string?_stringText` : a written string is read back;
* `Document.reads_arr`, `Document.reads_obj` : lists and objects are read back if their entries are;
* `Document.read?_pretty` : a written value is read back, if its numbers are.
-/

namespace SchemaCanvas

namespace Document

variable {cs rest : List Char}

/-! ### Strings -/

theorem hexCode?_of_control {n : Nat} (h : n < 0x20) :
    hexCode? '0' '0' (Nat.digitChar (n / 16)) (Nat.digitChar (n % 16)) = some n := by
  have hall : ∀ n : Fin 0x20,
      hexCode? '0' '0' (Nat.digitChar (n / 16)) (Nat.digitChar (n % 16)) = some n.1 := by decide
  exact hall ⟨n, h⟩

theorem text?_control {c : Char} (h : c.toNat < 0x20) (us : List Unit) :
    text? (.code c.toNat :: us) = (text? us).map (c :: ·) := by
  rw [text?.eq_def]
  simp only []
  rw [if_neg (by omega), if_neg (by omega), Char.ofNat_toNat]

theorem units?_plain {c : Char} (hquote : c ≠ '"') (hbackslash : c ≠ '\\') (h : ¬ c.toNat < 0x20)
    (cs : List Char) :
    units? (c :: cs) = (units? cs).map fun (us, rest) => (.char c :: us, rest) := by
  rw [units?, if_neg h, Option.map_eq_bind]
  · rfl
  · exact hquote
  · exact fun _ _ _ _ _ heq _ => hbackslash heq
  · exact fun _ _ heq _ => hbackslash heq

/-- A written character is read as one entry, which means this character. -/
theorem exists_unit (c : Char) : ∃ u : Unit,
    (∀ cs us rest, units? cs = some (us, rest) →
      units? (Json.escapedChar c ++ cs) = some (u :: us, rest)) ∧
    ∀ us cs, text? us = some cs → text? (u :: us) = some (c :: cs) := by
  have hchar (us : List Unit) (cs : List Char) (h : text? us = some cs) :
      text? (.char c :: us) = some (c :: cs) := by rw [text?, h, Option.map_some]
  rw [Json.escapedChar.eq_def]
  split
  iterate 7
    · refine ⟨.char _, fun cs us rest h => ?_, hchar⟩
      simp [units?, escape?, h]
  · next hquote hbackslash _ _ _ _ _ =>
    split
    · next hcontrol =>
      refine ⟨.code c.toNat, fun cs us rest h => ?_, fun us cs h => ?_⟩
      · simp [units?, hexCode?_of_control hcontrol, h]
      · rw [text?_control hcontrol, h, Option.map_some]
    · next hplain =>
      refine ⟨.char c, fun cs us rest h => ?_, hchar⟩
      rw [List.singleton_append, units?_plain hquote hbackslash hplain, h, Option.map_some]

theorem exists_units (s : List Char) (rest : List Char) :
    ∃ us, units? (s.flatMap Json.escapedChar ++ '"' :: rest) = some (us, rest) ∧
      text? us = some s := by
  induction s with
  | nil => exact ⟨[], rfl, rfl⟩
  | cons c s ih =>
    obtain ⟨us, hunits, htext⟩ := ih
    obtain ⟨u, hu, hc⟩ := exists_unit c
    rw [List.flatMap_cons, List.append_assoc]
    exact ⟨u :: us, hu _ _ _ hunits, hc _ _ htext⟩

theorem toList_stringText (s : String) :
    (Json.stringText s).toList = '"' :: (s.toList.flatMap Json.escapedChar ++ ['"']) := by
  simp [Json.stringText]

/-- **A written string is read back.** -/
theorem string?_stringText (s : String) (rest : List Char) :
    string? (s.toList.flatMap Json.escapedChar ++ '"' :: rest) = some (some s, rest) := by
  obtain ⟨us, hunits, htext⟩ := exists_units s.toList rest
  rw [string?, hunits]
  simp [htext]

/-! ### Blanks -/

/-- Text of blanks only. -/
def Blank (cs : List Char) : Prop := ∀ c ∈ cs, c = ' ' ∨ c = '\n' ∨ c = '\t' ∨ c = '\r'

theorem skipBlanks_append {blanks : List Char} (h : Blank blanks) (cs : List Char) :
    skipBlanks (blanks ++ cs) = skipBlanks cs :=
  List.dropWhile_append_of_pos fun c hc => decide_eq_true (h c hc)

/-- Behind blanks no numeral goes on, if it does not go on without them. -/
theorem endsNumeral_append {blanks : List Char} (h : Blank blanks) (hcs : EndsNumeral cs) :
    EndsNumeral (blanks ++ cs) := by
  cases blanks with
  | nil => exact hcs
  | cons c blanks =>
    rw [List.cons_append, endsNumeral_cons]
    obtain rfl | rfl | rfl | rfl := h c List.mem_cons_self <;> decide

/-! ### Values -/

/-- Text that is read as a document, whatever follows it. -/
def Reads (cs : List Char) (d : Document) : Prop :=
  ∀ steps rest, 2 * cs.length ≤ steps → EndsNumeral rest →
    valueAt? steps (cs ++ rest) = some (d, rest)

theorem reads_of_succ {d : Document} (hne : cs ≠ [])
    (h : ∀ steps rest, EndsNumeral rest → valueAt? (steps + 1) (cs ++ rest) = some (d, rest)) :
    Reads cs d := by
  intro steps rest hsteps hrest
  have hpos := List.length_pos_of_ne_nil hne
  obtain ⟨steps, rfl⟩ : ∃ n, steps = n + 1 := ⟨steps - 1, by omega⟩
  exact h steps rest hrest

theorem reads_null : Reads "null".toList null := reads_of_succ (by simp) fun _ _ _ => rfl

theorem reads_bool (b : Bool) : Reads (if b then "true" else "false").toList (bool b) := by
  cases b <;> exact reads_of_succ (by simp) fun _ _ _ => rfl

theorem reads_arr_nil : Reads ("[" ++ "]").toList (arr []) :=
  reads_of_succ (by simp) fun _ _ _ => rfl

theorem reads_obj_nil : Reads ("\x7b" ++ "\x7d").toList (obj []) :=
  reads_of_succ (by simp) fun _ _ _ => rfl

theorem reads_num {n : Number} (h : n.Readable) : Reads n.text.toList (num (some n)) := by
  rw [Number.Readable] at h
  refine reads_of_succ (fun hnil => ?_) fun steps rest hrest => ?_
  · rw [hnil] at h
    cases h
  · have hread := numeral?_append hrest h
    rw [valueAt?.eq_def]
    simp only []
    split
    -- a numeral does not begin as any other value does
    iterate 6
      next heq =>
        rw [heq] at hread
        cases hread
    exact hread

theorem reads_str (s : String) : Reads (Json.stringText s).toList (str (some s)) := by
  rw [toList_stringText]
  refine reads_of_succ (by simp) fun steps rest _ => ?_
  simp [valueAt?, string?_stringText]

theorem Reads.skipBlanks_append {d : Document} (h : Reads cs d) (rest : List Char) :
    skipBlanks (cs ++ rest) = cs ++ rest ∧ ∀ rest', cs ++ rest ≠ ']' :: rest' := by
  have hread := h (2 * cs.length + 1) [] (by omega) endsNumeral_nil
  rw [List.append_nil] at hread
  cases cs with
  | nil => cases hread
  | cons c cs =>
    have hbracket : c ≠ ']' := by
      rintro rfl
      cases hread
    have hblank : ¬ (c = ' ' ∨ c = '\n' ∨ c = '\t' ∨ c = '\r') := by
      rintro (rfl | rfl | rfl | rfl) <;> cases hread
    refine ⟨?_, fun rest' heq => hbracket (List.cons.inj heq).1⟩
    rw [List.cons_append, skipBlanks, List.dropWhile_cons, if_neg (by simpa using hblank)]

variable {blanks final : List Char}

theorem endsNumeral_closing {c : Char} (hfinal : Blank final) (hc : c = ']' ∨ c = '\x7d') :
    EndsNumeral (final ++ c :: rest) := by
  refine endsNumeral_append hfinal (endsNumeral_cons.2 ?_)
  obtain rfl | rfl := hc <;> decide

theorem endsNumeral_comma : EndsNumeral (',' :: rest) := endsNumeral_cons.2 (by decide)

/-- **Items between blanks and commas are read one after the other.** -/
theorem itemsAt?_eq (hblanks : Blank blanks) (hfinal : Blank final) {texts : List (List Char)}
    {ds : List Document} (h : List.Forall₂ Reads texts ds) (hne : texts ≠ []) {before : List Char}
    (hbefore : Blank before) {steps : Nat}
    (hsteps : 2 * ((',' :: blanks).intercalate texts).length < steps) (rest : List Char) :
    itemsAt? steps (before ++ ((',' :: blanks).intercalate texts ++ (final ++ ']' :: rest))) =
      some (ds, rest) := by
  induction h generalizing before steps with
  | nil => exact absurd rfl hne
  | @cons cs d texts ds hcs hrest ih =>
    obtain ⟨steps, rfl⟩ : ∃ n, steps = n + 1 := ⟨steps - 1, by omega⟩
    cases texts with
    | nil =>
      cases hrest
      rw [List.intercalate_singleton] at hsteps ⊢
      have hread := hcs steps (final ++ ']' :: rest) (by omega)
        (endsNumeral_closing hfinal (.inl rfl))
      have hclosing : skipBlanks (final ++ ']' :: rest) = ']' :: rest := skipBlanks_append hfinal _
      rw [itemsAt?, skipBlanks_append hbefore, (hcs.skipBlanks_append _).1, hread]
      simp [hclosing]
    | cons text texts =>
      rw [List.intercalate_cons_cons] at hsteps ⊢
      simp only [List.append_assoc, List.cons_append, List.length_append,
        List.length_cons] at hsteps ⊢
      have hread (rest : List Char) := hcs steps (',' :: rest) (by omega) endsNumeral_comma
      have hnext : itemsAt? steps (blanks ++ ((',' :: blanks).intercalate (text :: texts) ++
          (final ++ ']' :: rest))) = some (ds, rest) := ih (by simp) hblanks (by omega)
      rw [itemsAt?, skipBlanks_append hbefore, (hcs.skipBlanks_append _).1, hread]
      simp [skipBlanks, hnext]

theorem skipBlanks_items (sep : List Char) {texts : List (List Char)} {ds : List Document}
    (h : List.Forall₂ Reads texts ds) (hne : texts ≠ []) (rest : List Char) :
    skipBlanks (sep.intercalate texts ++ rest) = sep.intercalate texts ++ rest ∧
      ∀ rest', sep.intercalate texts ++ rest ≠ ']' :: rest' := by
  cases h with
  | nil => exact absurd rfl hne
  | @cons cs d texts ds hcs _ =>
    cases texts with
    | nil =>
      rw [List.intercalate_singleton]
      exact hcs.skipBlanks_append rest
    | cons text texts =>
      rw [List.intercalate_cons_cons, List.append_assoc, List.append_assoc]
      exact hcs.skipBlanks_append _

theorem reads_arr (hblanks : Blank blanks) (hfinal : Blank final) {texts : List (List Char)}
    {ds : List Document} (h : List.Forall₂ Reads texts ds) (hne : texts ≠ []) :
    Reads ('[' :: (blanks ++ ((',' :: blanks).intercalate texts ++ (final ++ [']']))))
      (arr ds) := by
  intro steps rest hsteps _
  simp only [List.length_cons, List.length_append] at hsteps
  obtain ⟨steps, rfl⟩ : ∃ n, steps = n + 1 := ⟨steps - 1, by omega⟩
  have hitems : itemsAt? steps ((',' :: blanks).intercalate texts ++ (final ++ ']' :: rest)) =
      some (ds, rest) :=
    itemsAt?_eq hblanks hfinal h hne (List.forall_mem_nil _) (by omega) rest
  obtain ⟨hskip, hbracket⟩ := skipBlanks_items (',' :: blanks) h hne (final ++ ']' :: rest)
  simp only [List.cons_append, List.append_assoc, List.nil_append, valueAt?,
    skipBlanks_append hblanks, hskip]
  rw [hitems, Option.map_some]

/-! ### Fields -/

/-- Text that is read as a field: a name, a colon and a value. -/
def ReadsField (cs : List Char) (field : Option String × Document) : Prop :=
  ∃ name value, cs = (Json.stringText name).toList ++ ':' :: ' ' :: value ∧
    field.1 = some name ∧ Reads value field.2

/-- A field is read up to its value, and the rest as the rest of the fields. -/
theorem fieldsAt?_succ {field : Option String × Document} (h : ReadsField cs field) {steps : Nat}
    (hsteps : 2 * cs.length ≤ steps) (hrest : EndsNumeral rest) {before : List Char}
    (hbefore : Blank before) :
    fieldsAt? (steps + 1) (before ++ (cs ++ rest)) =
      match skipBlanks rest with
      | '\x7d' :: rest => some ([field], rest)
      | ',' :: rest => (fieldsAt? steps rest).map fun (fields, rest) => (field :: fields, rest)
      | _ => none := by
  obtain ⟨name, value, rfl, hname, hvalue⟩ := h
  rw [toList_stringText] at hsteps ⊢
  simp only [List.cons_append, List.append_assoc, List.length_cons, List.length_append] at hsteps ⊢
  have hread := hvalue steps rest (by omega) hrest
  have hskip := (hvalue.skipBlanks_append rest).1
  have hquote (cs : List Char) : skipBlanks ('"' :: cs) = '"' :: cs := rfl
  have hcolon (cs : List Char) : skipBlanks (':' :: cs) = ':' :: cs := rfl
  have hspace (cs : List Char) : skipBlanks (' ' :: cs) = skipBlanks cs := rfl
  have hfield : field = (some name, field.2) := Prod.ext hname rfl
  rw [fieldsAt?, skipBlanks_append hbefore, hquote]
  simp only [string?_stringText, List.nil_append, Option.bind_eq_bind, Option.bind_some, hcolon,
    hspace, hskip, hread]
  rw [hfield]
  generalize skipBlanks rest = after
  split
  · rfl
  · next rest =>
    change _ = (fieldsAt? steps rest).map fun result => ((some name, field.2) :: result.1, result.2)
    cases fieldsAt? steps rest <;> rfl
  · simp

/-- **Fields between blanks and commas are read one after the other.** -/
theorem fieldsAt?_eq (hblanks : Blank blanks) (hfinal : Blank final) {texts : List (List Char)}
    {fields : List (Option String × Document)} (h : List.Forall₂ ReadsField texts fields)
    (hne : texts ≠ []) {before : List Char} (hbefore : Blank before) {steps : Nat}
    (hsteps : 2 * ((',' :: blanks).intercalate texts).length < steps) (rest : List Char) :
    fieldsAt? steps (before ++ ((',' :: blanks).intercalate texts ++ (final ++ '\x7d' :: rest))) =
      some (fields, rest) := by
  induction h generalizing before steps with
  | nil => exact absurd rfl hne
  | @cons cs field texts fields hcs hrest ih =>
    obtain ⟨steps, rfl⟩ : ∃ n, steps = n + 1 := ⟨steps - 1, by omega⟩
    cases texts with
    | nil =>
      cases hrest
      rw [List.intercalate_singleton] at hsteps ⊢
      have hclosing : skipBlanks (final ++ '\x7d' :: rest) = '\x7d' :: rest :=
        skipBlanks_append hfinal _
      rw [fieldsAt?_succ hcs (by omega) (endsNumeral_closing hfinal (.inr rfl)) hbefore, hclosing]
      rfl
    | cons text texts =>
      rw [List.intercalate_cons_cons] at hsteps ⊢
      simp only [List.append_assoc, List.cons_append, List.length_append,
        List.length_cons] at hsteps ⊢
      have hcomma (cs : List Char) : skipBlanks (',' :: cs) = ',' :: cs := rfl
      have hnext : fieldsAt? steps (blanks ++ ((',' :: blanks).intercalate (text :: texts) ++
          (final ++ '\x7d' :: rest))) = some (fields, rest) := ih (by simp) hblanks (by omega)
      rw [fieldsAt?_succ hcs (by omega) endsNumeral_comma hbefore, hcomma]
      simp only [hnext, Option.map_some]

theorem exists_quote_of_readsField (sep : List Char) {texts : List (List Char)}
    {fields : List (Option String × Document)} (h : List.Forall₂ ReadsField texts fields)
    (hne : texts ≠ []) (rest : List Char) :
    ∃ more, sep.intercalate texts ++ rest = '"' :: more := by
  cases h with
  | nil => exact absurd rfl hne
  | @cons cs field texts fields hcs _ =>
    obtain ⟨name, value, rfl, -, -⟩ := hcs
    rw [toList_stringText]
    cases texts with
    | nil =>
      rw [List.intercalate_singleton]
      exact ⟨_, rfl⟩
    | cons text texts =>
      rw [List.intercalate_cons_cons]
      exact ⟨_, rfl⟩

theorem reads_obj (hblanks : Blank blanks) (hfinal : Blank final) {texts : List (List Char)}
    {fields : List (Option String × Document)} (h : List.Forall₂ ReadsField texts fields)
    (hne : texts ≠ []) :
    Reads ('\x7b' :: (blanks ++ ((',' :: blanks).intercalate texts ++ (final ++ ['\x7d']))))
      (obj fields) := by
  intro steps rest hsteps _
  simp only [List.length_cons, List.length_append] at hsteps
  obtain ⟨steps, rfl⟩ : ∃ n, steps = n + 1 := ⟨steps - 1, by omega⟩
  have hfields : fieldsAt? steps ((',' :: blanks).intercalate texts ++ (final ++ '\x7d' :: rest)) =
      some (fields, rest) :=
    fieldsAt?_eq hblanks hfinal h hne (List.forall_mem_nil _) (by omega) rest
  obtain ⟨more, hmore⟩ := exists_quote_of_readsField (',' :: blanks) h hne (final ++ '\x7d' :: rest)
  have hquote (cs : List Char) : skipBlanks ('"' :: cs) = '"' :: cs := rfl
  rw [hmore] at hfields
  simp only [List.cons_append, List.append_assoc, List.nil_append, valueAt?,
    skipBlanks_append hblanks, hmore, hquote]
  change (fieldsAt? steps ('"' :: more)).map _ = _
  rw [hfields, Option.map_some]

end Document

namespace Json

mutual

/-- All numbers in a value. -/
def numbers : Json → List Number
  | num n => [n]
  | arr items => numbersOfItems items
  | obj fields => numbersOfFields fields
  | _ => []

/-- All numbers in a list. -/
def numbersOfItems : List Json → List Number
  | [] => []
  | v :: rest => numbers v ++ numbersOfItems rest

/-- All numbers in fields. -/
def numbersOfFields : List (String × Json) → List Number
  | [] => []
  | (_, v) :: rest => numbers v ++ numbersOfFields rest

end

/-- All numbers in a value are read back as they were written. Integers always are. -/
def Readable (v : Json) : Prop := ∀ n ∈ v.numbers, n.Readable

/-- How deeply the lists and objects in a value are nested. -/
def nesting (v : Json) : Nat := (Document.ofJson v).nesting

end Json

namespace Document

/-- A line break and the blanks at the start of a line. -/
def indentation (level : Nat) : List Char := '\n' :: List.replicate (2 * level) ' '

theorem blank_indentation (level : Nat) : Blank (indentation level) := by
  intro c hc
  rcases List.mem_cons.1 hc with rfl | hc
  · exact .inr (.inl rfl)
  · exact .inl (List.eq_of_mem_replicate hc)

theorem toList_block (opening closing : String) (level : Nat) {entries : List String}
    (h : entries ≠ []) :
    (Json.block opening closing level entries).toList =
      opening.toList ++ (indentation (level + 1) ++
        ((',' :: indentation (level + 1)).intercalate (entries.map String.toList) ++
          (indentation level ++ closing.toList))) := by
  rw [Json.block, if_neg (by simpa using h)]
  simp [indentation]

mutual

theorem reads_prettyAt : ∀ (v : Json) (level : Nat), (∀ n ∈ v.numbers, n.Readable) →
    Reads (v.prettyAt level).toList (ofJson v)
  | .null, _, _ => reads_null
  | .bool b, _, _ => reads_bool b
  | .num n, _, h => reads_num (h n (List.mem_singleton_self n))
  | .str s, _, _ => reads_str s
  | .arr [], _, _ => reads_arr_nil
  | .arr (v :: rest), level, h => by
    have hitems := reads_prettyItems (v :: rest) (level + 1) h
    rw [Json.prettyAt, toList_block _ _ _ (by simp [Json.prettyItems])]
    exact reads_arr (blank_indentation _) (blank_indentation _) hitems (by simp [Json.prettyItems])
  | .obj [], _, _ => reads_obj_nil
  | .obj ((name, v) :: rest), level, h => by
    have hfields := reads_prettyFields ((name, v) :: rest) (level + 1) h
    rw [Json.prettyAt, toList_block _ _ _ (by simp [Json.prettyFields])]
    exact reads_obj (blank_indentation _) (blank_indentation _) hfields
      (by simp [Json.prettyFields])

theorem reads_prettyItems : ∀ (items : List Json) (level : Nat),
    (∀ n ∈ Json.numbersOfItems items, n.Readable) →
      List.Forall₂ Reads ((Json.prettyItems level items).map String.toList) (ofItems items)
  | [], _, _ => .nil
  | v :: rest, level, h =>
    have h := List.forall_mem_append.1 h
    .cons (reads_prettyAt v level h.1) (reads_prettyItems rest level h.2)

theorem reads_prettyFields : ∀ (fields : List (String × Json)) (level : Nat),
    (∀ n ∈ Json.numbersOfFields fields, n.Readable) →
      List.Forall₂ ReadsField ((Json.prettyFields level fields).map String.toList) (ofFields fields)
  | [], _, _ => .nil
  | (name, v) :: rest, level, h => by
    have h := List.forall_mem_append.1 h
    refine .cons ⟨name, (v.prettyAt level).toList, ?_, rfl, reads_prettyAt v level h.1⟩
      (reads_prettyFields rest level h.2)
    rw [String.toList_append, String.toList_append, List.append_assoc]
    rfl

end

/-- **Written text is read back,** whatever the order of its fields. -/
theorem read?_pretty {v : Json} (h : v.Readable) : read? v.pretty = some (ofJson v) := by
  have hreads := reads_prettyAt v 0 h
  have hread := hreads (2 * v.pretty.toList.length + 2) [] (by rw [Json.pretty]; omega)
    endsNumeral_nil
  obtain ⟨hskip, -⟩ := hreads.skipBlanks_append []
  rw [List.append_nil] at hread hskip
  rw [read?, Json.pretty, hskip]
  rw [Json.pretty] at hread
  rw [hread]
  rfl

end Document

end SchemaCanvas
