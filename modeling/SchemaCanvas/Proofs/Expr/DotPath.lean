import SchemaCanvas.Proofs.Expr.Chain
import SchemaCanvas.Proofs.Expr.Holes
import SchemaCanvas.Proofs.Expr.Reread

/-!
# Dot paths as expressions

A dot path of identifiers is also the text of an expression, a chain of members behind a name. What
the path leads to is the value of the expression: the first name of the path is a field of the
context, which comes before all other entries of the name and before the functions and constants of
the language, and each further name is a field of an object. So it makes no difference which of the
two kinds of holes a template has for it.

The converse fails, since an expression finds names deeper in the context, and the length of a list
or a text.

* `NamePath` : paths of identifiers, as a text and as an expression;
* `NamePath.parse?_text` : the text is read as the expression;
* `NamePath.evaluate_of_atPath?` : the value of the expression is the value at the path.
-/

namespace SchemaCanvas

namespace Token

/-! ### Identifiers -/

/-- An identifier. -/
def isIdentifier : List Char → Bool
  | [] => false
  | c :: rest => startsName c && rest.all continuesName

variable {cs rest : List Char} {c : Char}

theorem continuesName_of_mem (h : isIdentifier cs) (hc : c ∈ cs) : continuesName c := by
  cases cs with
  | nil => cases h
  | cons d cs =>
    rw [isIdentifier, Bool.and_eq_true, List.all_eq_true] at h
    rcases List.mem_cons.1 hc with rfl | hc
    · exact continuesName_of_startsName h.1
    · exact h.2 c hc

theorem isBlank_of_mem_identifier (h : isIdentifier cs) (hc : c ∈ cs) : Text.isBlank c = false :=
  isBlank_of_continuesName (continuesName_of_mem h hc)

theorem ne_of_mem_identifier {d : Char} (h : isIdentifier cs) (hc : c ∈ cs)
    (hd : continuesName d = false) : c ≠ d := by
  rintro rfl
  exact absurd (continuesName_of_mem h hc) (by simp [hd])

theorem not_isDigit_of_startsName (h : startsName c) : c.isDigit = false := by
  rw [Bool.eq_false_iff]
  intro hdigit
  simp only [startsName, Char.isAlpha, Char.isUpper, Char.isLower, Char.isDigit, Bool.or_eq_true,
    Bool.and_eq_true, decide_eq_true_eq, ge_iff_le, UInt32.le_iff_toNat_le] at h hdigit
  change 48 ≤ c.val.toNat ∧ c.val.toNat ≤ 57 at hdigit
  obtain ((⟨h, -⟩ | ⟨h, -⟩) | rfl) | rfl := h
  · change 65 ≤ c.val.toNat at h
    omega
  · change 97 ≤ c.val.toNat at h
    omega
  · exact absurd hdigit (by decide)
  · exact absurd hdigit (by decide)

theorem lexeme?_of_startsName (h : startsName c) (rest : List Char) :
    lexeme? c rest =
      some (.ident (String.ofList (c :: rest.takeWhile continuesName)),
        (rest.takeWhile continuesName).length) := by
  have hdot : c ≠ '.' := by
    rintro rfl
    exact absurd h (by decide)
  have hnumber : startsNumber (c :: rest) = false := by
    simp [startsNumber, hdot, not_isDigit_of_startsName h]
  have hquote : ¬ (c = '"' ∨ c = '\'') := by
    rintro (rfl | rfl)
    · exact absurd h (by decide)
    · exact absurd h (by decide)
  unfold lexeme? lexeme
  simp only [hnumber, hquote, h, Bool.false_eq_true, if_false, if_true]
  rfl

theorem tokens?_length_append (cs rest : List Char) :
    tokens? cs.length (cs ++ rest) = tokens? 0 rest := by
  induction cs with
  | nil => rfl
  | cons c cs ih => exact ih

theorem takeWhile_continuesName (h : ∀ d ∈ cs, continuesName d)
    (hrest : ∀ d ∈ rest.head?, continuesName d = false) :
    (cs ++ rest).takeWhile continuesName = cs := by
  rw [List.takeWhile_append_of_pos h]
  cases rest with
  | nil => simp
  | cons d rest => rw [List.takeWhile_cons_of_neg (by simp [hrest d rfl]), List.append_nil]

/-- **An identifier is one token,** if nothing continues it. -/
theorem tokens?_identifier (h : isIdentifier cs)
    (hrest : ∀ d ∈ rest.head?, continuesName d = false) :
    tokens? 0 (cs ++ rest) = (tokens? 0 rest).map (.ident (String.ofList cs) :: ·) := by
  cases cs with
  | nil => cases h
  | cons c cs =>
    have hspace : isSpace c = false := by
      have hblank := isBlank_of_mem_identifier h List.mem_cons_self
      have hne {d : Char} (hd : Text.isBlank d) : c ≠ d := by
        rintro rfl
        simp [hblank] at hd
      simp [isSpace, hne (by decide : Text.isBlank ' '), hne (by decide : Text.isBlank '\t'),
        hne (by decide : Text.isBlank '\n'), hne (by decide : Text.isBlank '\x0C'),
        hne (by decide : Text.isBlank '\r')]
    rw [isIdentifier, Bool.and_eq_true, List.all_eq_true] at h
    rw [List.cons_append, tokens?, hspace, lexeme?_of_startsName h.1,
      takeWhile_continuesName h.2 hrest]
    change (tokens? cs.length (cs ++ rest)).bind _ = _
    rw [tokens?_length_append]
    cases tokens? 0 rest <;> rfl

theorem tokens?_dot (h : startsNumber ('.' :: rest) = false) :
    tokens? 0 ('.' :: rest) = (tokens? 0 rest).map (.mark .dot :: ·) := by
  have hlexeme : lexeme? '.' rest = some (.mark .dot, 0) := by
    have hmark : Mark.find? ('.' :: rest) = some .dot := rfl
    have hname : startsName '.' = false := by decide
    unfold lexeme? lexeme
    simp only [h, hname, hmark]
    rfl
  rw [tokens?, hlexeme]
  change (tokens? 0 rest).bind _ = _
  cases tokens? 0 rest <;> rfl

end Token

/-! ### Paths -/

/-- A path of identifiers between points. Its first name is none that stands for something else than
a variable, and it has not more points than an expression may have members. -/
structure NamePath where
  first : String
  later : List String
  isIdentifier : ∀ name ∈ first :: later, Token.isIdentifier name.toList
  notReserved : first ∉ Expr.reservedNames
  length_le : later.length ≤ 256

namespace NamePath

variable (p : NamePath)

/-- The names of a path. -/
def names : List String := p.first :: p.later

/-- A path as it is written. -/
def text : String := ".".intercalate p.names

/-- A path as an expression. -/
def expr : Expr := p.later.foldl (fun e name => .member e name false) (.ident p.first)

theorem toList_text : p.text.toList = ['.'].intercalate (p.names.map String.toList) := by
  rw [text, String.toList_intercalate]
  rfl

/-- The names behind the first, each with the point before it. -/
theorem toList_text_eq : p.text.toList =
    p.first.toList ++ p.later.flatMap fun name => '.' :: name.toList := by
  rw [toList_text, names]
  generalize p.first = first
  induction p.later generalizing first with
  | nil => simp
  | cons name later ih =>
    rw [List.map_cons, List.map_cons, List.intercalate_cons_cons, ← List.map_cons, ih]
    simp

theorem mem_text {c : Char} (h : c ∈ p.text.toList) :
    c = '.' ∨ ∃ name ∈ p.names, c ∈ name.toList := by
  rw [toList_text_eq, List.mem_append, List.mem_flatMap] at h
  rcases h with h | ⟨name, hname, h⟩
  · exact .inr ⟨p.first, List.mem_cons_self, h⟩
  · rcases List.mem_cons.1 h with rfl | h
    · exact .inl rfl
    · exact .inr ⟨name, List.mem_cons_of_mem _ hname, h⟩

theorem notMem_text {c : Char} (hdot : c ≠ '.') (h : Token.continuesName c = false) :
    c ∉ p.text.toList := by
  intro hc
  obtain rfl | ⟨name, hname, hc⟩ := p.mem_text hc
  · exact hdot rfl
  · exact Token.ne_of_mem_identifier (p.isIdentifier name hname) hc h rfl

theorem trim_text : Text.trim p.text = p.text := by
  rw [Text.trim, Text.trimmed_of_forall, String.ofList_toList]
  intro c hc
  obtain rfl | ⟨name, hname, hc⟩ := p.mem_text hc
  · decide
  · exact Token.isBlank_of_mem_identifier (p.isIdentifier name hname) hc

/-! ### Reading -/

theorem not_continuesName_of_mem_head? (names : List String) :
    ∀ d ∈ (names.flatMap fun name => '.' :: name.toList).head?, Token.continuesName d = false := by
  cases names with
  | nil => exact nofun
  | cons =>
    rintro d ⟨⟩
    decide

theorem tokens?_later {names : List String}
    (h : ∀ name ∈ names, Token.isIdentifier name.toList) :
    Token.tokens? 0 (names.flatMap fun name => '.' :: name.toList) =
      some (names.flatMap fun name => [.mark .dot, .ident name]) := by
  induction names with
  | nil => rfl
  | cons name later ih =>
    obtain ⟨hname, hlater⟩ := List.forall_mem_cons.1 h
    have hpoint : Token.startsNumber ('.' :: (name.toList ++
        later.flatMap fun name => '.' :: name.toList)) = false := by
      cases hcs : name.toList with
      | nil =>
        rw [hcs] at hname
        cases hname
      | cons c cs =>
        rw [hcs, Token.isIdentifier, Bool.and_eq_true] at hname
        exact Token.not_isDigit_of_startsName hname.1
    rw [List.flatMap_cons, List.cons_append, Token.tokens?_dot hpoint,
      Token.tokens?_identifier hname (not_continuesName_of_mem_head? later), ih hlater,
      String.ofList_toList]
    rfl

theorem tokens_foldl_member {e : Expr} (h : 9 ≤ e.level) (names : List String) :
    (names.foldl (fun e name => .member e name false) e).tokens =
      e.tokens ++ names.flatMap fun name => [.mark .dot, .ident name] := by
  induction names generalizing e with
  | nil => simp
  | cons name later ih =>
    have hmember : (Expr.member e name false).tokens = e.tokens ++ [.mark .dot, .ident name] := by
      have hlevel : ¬ e.level < 9 := Nat.not_lt.2 h
      simp [Expr.tokens, Expr.parenthesized, hlevel, Expr.dot]
    rw [List.foldl_cons, ih (e := .member e name false) (Nat.le_refl 9), hmember, List.append_assoc]
    rfl

/-- A path as an expression can be read, is not nested, and has one member for every point. -/
theorem readable_foldl_member {e : Expr} (h : Expr.Readable e) (hlevel : 9 ≤ e.level)
    (hnesting : e.nesting = 0) (names : List String) :
    let chain := names.foldl (fun e name => .member e name false) e
    Expr.Readable chain ∧ chain.nesting = 0 ∧ chain.composites = e.composites + names.length := by
  induction names generalizing e with
  | nil => exact ⟨h, hnesting, rfl⟩
  | cons name later ih =>
    have hmember : (Expr.member e name false).nesting = 0 := by
      have hlevel : ¬ e.level < 9 := Nat.not_lt.2 hlevel
      simp [Expr.nesting, Expr.enclosed, hlevel, hnesting]
    obtain ⟨hread, hnone, hcount⟩ := ih (h.member name false) (Nat.le_refl 9) hmember
    refine ⟨hread, hnone, hcount.trans ?_⟩
    rw [Expr.composites, List.length_cons]
    omega

/-- **The text of a path is read as a chain of members.** -/
theorem parse?_text : Expr.parse? p.text = .ok p.expr := by
  have hfirst := p.isIdentifier p.first List.mem_cons_self
  have hlater : ∀ name ∈ p.later, Token.isIdentifier name.toList := fun name hname =>
    p.isIdentifier name (List.mem_cons_of_mem _ hname)
  refine Expr.parse?_of_tokens ?_ ?_
  · rw [toList_text_eq, Token.tokens?_identifier hfirst (not_continuesName_of_mem_head? p.later),
      tokens?_later hlater, String.ofList_toList, expr,
      tokens_foldl_member (e := .ident p.first) (Nat.le_succ 9)]
    rfl
  · obtain ⟨hread, hnesting, hcount⟩ :=
      readable_foldl_member (.ident p.notReserved) (Nat.le_succ 9) rfl p.later
    refine Parser.run_of_readable hread ?_ ?_ ?_
    · exact hnesting.trans_lt (by decide)
    · exact hcount.trans_le ((Nat.zero_add _).trans_le p.length_le)
    · rw [List.map_map]
      exact List.map_id _

/-! ### Values -/

theorem atPath?_text (data : Json) :
    Json.atPath? p.text data =
      (p.names.map String.toList).foldlM (fun v name => v.step? name) data := by
  have hne : p.text.toList ≠ [] := by
    rw [toList_text_eq]
    intro hnil
    have hfirst := p.isIdentifier p.first List.mem_cons_self
    rw [(List.append_eq_nil_iff.1 hnil).1] at hfirst
    cases hfirst
  have htrim : Text.trimmed p.text.toList = p.text.toList := by
    have := congrArg String.toList p.trim_text
    rwa [Text.trim, String.toList_ofList] at this
  have hsteps : Json.pathSteps p.text.toList = p.names.map String.toList := by
    rw [Json.pathSteps, toList_text, List.splitOn_intercalate, List.map_map]
    · refine List.map_congr_left fun name hname => Text.trimmed_of_forall fun c hc => ?_
      exact Token.isBlank_of_mem_identifier (p.isIdentifier name hname) hc
    · intro cs hcs hdot
      obtain ⟨name, hname, rfl⟩ := List.mem_map.1 hcs
      exact Token.ne_of_mem_identifier (p.isIdentifier name hname) hdot (by decide) rfl
    · exact List.cons_ne_nil _ _
  rw [Json.atPath?, htrim, hsteps]
  simp [hne]

/-- An identifier names the field of an object, not the position of an item. -/
theorem exists_of_step? {name : String} (h : Token.isIdentifier name.toList) {data v : Json}
    (hstep : data.step? name.toList = some v) :
    ∃ fields, data = .obj fields ∧ fields.lookup name = some v := by
  cases data with
  | obj fields =>
    rw [Json.step?, String.ofList_toList] at hstep
    exact ⟨fields, rfl, hstep⟩
  | arr items =>
    cases hcs : name.toList with
    | nil =>
      rw [hcs] at h
      cases h
    | cons c cs =>
      rw [hcs, Token.isIdentifier, Bool.and_eq_true] at h
      simp [Json.step?, hcs, Token.not_isDigit_of_startsName h.1] at hstep
  | _ => cases hstep

variable {env : Env}

/-- **Behind what has a value, members lead where names do.** -/
theorem eval_foldl_member {e : Expr} {data v : Json} (he : e.eval env = .ok (some data))
    {names : List String} (hnames : ∀ name ∈ names, Token.isIdentifier name.toList)
    (h : (names.map String.toList).foldlM (fun v name => v.step? name) data = some v) :
    (names.foldl (fun e name => .member e name false) e).eval env = .ok (some v) := by
  induction names generalizing e data with
  | nil =>
    obtain rfl := Option.some.inj h
    exact he
  | cons name later ih =>
    obtain ⟨hname, hlater⟩ := List.forall_mem_cons.1 hnames
    rw [List.map_cons, List.foldlM_cons] at h
    obtain ⟨inner, hstep, hbehind⟩ := Option.bind_eq_some_iff.1 h
    obtain ⟨fields, rfl, hlookup⟩ := exists_of_step? hname hstep
    refine ih ?_ hlater hbehind
    -- a member of what has a value is no constant of the language
    rw [Expr.eval_eq, Expr.evalOnce, Env.constant?_of_eval he, he]
    exact congrArg Except.ok hlookup

theorem find_of_lookup {fields : Entries Json} {name : String} {v : Json}
    (h : fields.lookup name = some v) :
    Env.find ⟨Scope.ofContext (.obj fields), []⟩ name = .ok (some v) := by
  have hscope : (Scope.ofContext (.obj fields)).lookup name = some v := by
    have hfirst : Scope.ofContext (.obj fields) = [fields].flatten ++
        (List.range' 1 7).flatMap fun depth => (Scope.objectsAt (.obj fields) depth).flatten := rfl
    rw [hfirst, List.lookup_append, List.flatten_singleton, h]
    rfl
  rw [Env.find]
  simp only [List.lookup_nil, hscope]

/-- **Where a path of identifiers leads to a value, the expression has this value,** and both kinds
of holes are filled with its text. -/
theorem evaluate_of_atPath? (p : NamePath) {context v : Json}
    (h : Json.atPath? p.text context = some v) :
    Expr.evaluate p.text context = .ok (some v) ∧
    Template.interpolate ("$\x7b" ++ p.text ++ "\x7d") context = Value.text (some v) ∧
    Template.interpolate ("\x7b\x7b" ++ p.text ++ "\x7d\x7d") context = Value.text (some v) := by
  have hvalue : Expr.evaluate p.text context = .ok (some v) := by
    have hpath := h
    rw [atPath?_text, names, List.map_cons, List.foldlM_cons] at hpath
    obtain ⟨data, hstep, hbehind⟩ := Option.bind_eq_some_iff.1 hpath
    obtain ⟨fields, rfl, hlookup⟩ :=
      exists_of_step? (p.isIdentifier p.first List.mem_cons_self) hstep
    rw [Expr.evaluate, trim_text, parse?_text]
    refine eval_foldl_member ?_ (fun name hname => ?_) hbehind
    · rw [Expr.eval, find_of_lookup hlookup]
    · exact p.isIdentifier name (List.mem_cons_of_mem _ hname)
  have hclose : '\x7d' ∉ p.text.toList := p.notMem_text (by decide) (by decide)
  have hline : '\n' ∉ p.text.toList := p.notMem_text (by decide) (by decide)
  refine ⟨hvalue, ?_, Template.interpolate_hole hclose hline hvalue⟩
  have hfilled := Template.filled_path context p.text hclose
  rw [h] at hfilled
  exact hfilled

/-- A path of names that the language has as well. -/
def lengthPath : NamePath where
  first := "Math"
  later := ["String", "length"]
  isIdentifier := by decide
  notReserved := by decide
  length_le := by decide

theorem evaluate_of_atPath?_lengthPath :
    let context := Json.obj [("Math", .obj [("String", .obj [("length", .str "long")])])]
    Json.atPath? lengthPath.text context = some (.str "long") ∧
      Expr.evaluate lengthPath.text context = .ok (some (.str "long")) ∧
      Template.interpolate ("\x7b\x7b" ++ lengthPath.text ++ "\x7d\x7d") context = "long" := by
  intro context
  have hpath : Json.atPath? lengthPath.text context = some (.str "long") := by
    rw [atPath?_text]
    rfl
  obtain ⟨hvalue, -, hfilled⟩ := evaluate_of_atPath? lengthPath hpath
  exact ⟨hpath, hvalue, hfilled⟩

end NamePath

end SchemaCanvas
