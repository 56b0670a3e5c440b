import SchemaCanvas.Proofs.Expr.Reader
import SchemaCanvas.Text.Blank

/-!
# Expressions between blanks

Between its tokens the text of an expression may have ASCII white space, and trimming removes blank
characters of any script. No token contains a blank outside of quotes, so blanks behind a text do
not change its tokens: they are skipped if all of them are white space of the language, and no token
otherwise.

* `Token.tokens?` : the tokens of a text without their places;
* `Token.tokens?_append` and `Token.tokens?_prepend` : blanks behind and before a text;
* `Expr.parse?_eq_ok_iff_trim` : a text is read if it can be read without its outer blanks and these
  are white space of the language.
-/

namespace SchemaCanvas

/-! ### Blanks -/

namespace Text

/-- Every character is blank. -/
def AllBlank (cs : List Char) : Prop := ∀ c ∈ cs, isBlank c

/-- The blanks at both ends of a text. -/
def outerBlanks (s : String) : List Char :=
  s.toList.takeWhile isBlank ++ ((trimLeft s.toList).reverse.takeWhile isBlank).reverse

variable {c : Char} {cs trail : List Char}

theorem not_isBlank_of_le (h : 0x21 ≤ c.toNat) (h' : c.toNat ≤ 0x7E) : isBlank c = false := by
  simp only [isBlank, Bool.or_eq_false_iff, Bool.and_eq_false_iff, decide_eq_false_iff_not,
    beq_eq_false_iff_ne]
  omega

theorem ne_of_isBlank {d : Char} (hc : isBlank c) (hd : isBlank d = false) : c ≠ d := by
  rintro rfl
  rw [hd] at hc
  cases hc

theorem AllBlank.head (h : AllBlank (c :: cs)) : isBlank c := h c List.mem_cons_self

theorem AllBlank.tail (h : AllBlank (c :: cs)) : AllBlank cs :=
  fun d hd => h d (List.mem_cons_of_mem c hd)

section

variable {p : Char → Bool} (hp : ∀ c, p c → isBlank c = false) (htrail : AllBlank trail)

include hp htrail

theorem takeWhile_append_blank (cs : List Char) :
    (cs ++ trail).takeWhile p = cs.takeWhile p := by
  induction cs with
  | nil =>
    cases trail with
    | nil => rfl
    | cons c rest =>
      have hc : ¬ p c := fun h => ne_of_isBlank htrail.head (hp c h) rfl
      exact List.takeWhile_cons_of_neg hc
  | cons c cs ih =>
    rw [List.cons_append, List.takeWhile_cons, List.takeWhile_cons, ih]

theorem dropWhile_append_blank (cs : List Char) :
    (cs ++ trail).dropWhile p = cs.dropWhile p ++ trail := by
  induction cs with
  | nil =>
    cases trail with
    | nil => rfl
    | cons c rest =>
      have hc : ¬ p c := fun h => ne_of_isBlank htrail.head (hp c h) rfl
      exact List.dropWhile_cons_of_neg hc
  | cons c cs ih =>
    rw [List.cons_append, List.dropWhile_cons, List.dropWhile_cons, ih]
    split <;> rfl

end

end Text

namespace Token

open Text

variable {c : Char} {cs trail : List Char}

theorem isBlank_of_isDigit (h : c.isDigit) : isBlank c = false := by
  simp only [Char.isDigit, Bool.and_eq_true, decide_eq_true_eq, ge_iff_le,
    UInt32.le_iff_toNat_le] at h
  change 48 ≤ c.toNat ∧ c.toNat ≤ 57 at h
  exact not_isBlank_of_le (by omega) (by omega)

theorem isBlank_of_isAlpha (h : c.isAlpha) : isBlank c = false := by
  obtain h | h := (Bool.or_eq_true _ _).mp h
  · have hupper : 65 ≤ c.toNat ∧ c.toNat ≤ 90 := of_decide_eq_true h
    exact not_isBlank_of_le (by omega) (by omega)
  · have hlower : 97 ≤ c.toNat ∧ c.toNat ≤ 122 :=
      ((Bool.and_eq_true _ _).mp h).imp of_decide_eq_true of_decide_eq_true
    exact not_isBlank_of_le (by omega) (by omega)

theorem continuesName_of_startsName (h : startsName c) : continuesName c := by
  simp only [startsName, continuesName, Char.isAlphanum, Bool.or_eq_true] at h ⊢
  exact h.imp_left (Or.imp_left .inl)

theorem isBlank_of_continuesName (h : continuesName c) : isBlank c = false := by
  simp only [continuesName, Char.isAlphanum, Bool.or_eq_true, decide_eq_true_eq] at h
  obtain ((h | h) | rfl) | rfl := h
  · exact isBlank_of_isAlpha h
  · exact isBlank_of_isDigit h
  · decide
  · decide

theorem isBlank_of_inNumber (h : c.isDigit || c = '.') : isBlank c = false := by
  simp only [Bool.or_eq_true, decide_eq_true_eq] at h
  obtain h | rfl := h
  · exact isBlank_of_isDigit h
  · decide

/-! ### Lexemes before blanks -/

section

variable (htrail : AllBlank trail)

include htrail

theorem exponentPart_append (cs : List Char) : exponentPart (cs ++ trail) = exponentPart cs := by
  have hdigits (cs : List Char) :
      (cs ++ trail).takeWhile Char.isDigit = cs.takeWhile Char.isDigit :=
    takeWhile_append_blank (fun _ => isBlank_of_isDigit) htrail cs
  match cs with
  | [] =>
    cases trail with
    | nil => rfl
    | cons t rest =>
      have he : t ≠ 'e' := ne_of_isBlank htrail.head (by decide)
      have hE : t ≠ 'E' := ne_of_isBlank htrail.head (by decide)
      exact if_neg (not_or.2 ⟨he, hE⟩)
  | [c] =>
    -- an exponent without digits, where a blank could be taken for a sign
    cases trail with
    | nil => rfl
    | cons t rest =>
      have hplus : t ≠ '+' := ne_of_isBlank htrail.head (by decide)
      have hminus : t ≠ '-' := ne_of_isBlank htrail.head (by decide)
      have hnone : (t :: rest).takeWhile Char.isDigit = [] := hdigits []
      simp [exponentPart, hplus, hminus, hnone]
  | c :: d :: cs =>
    have hbehind := hdigits cs
    have hall : (d :: (cs ++ trail)).takeWhile Char.isDigit = (d :: cs).takeWhile Char.isDigit :=
      hdigits (d :: cs)
    rw [List.cons_append, List.cons_append]
    unfold exponentPart
    by_cases hplus : d = '+'
    · simp [hplus, hbehind]
    · by_cases hminus : d = '-'
      · simp [hminus, hbehind]
      · simp [hplus, hminus, hall]

theorem numberPart_append (cs : List Char) : numberPart (cs ++ trail) = numberPart cs := by
  have hp (c : Char) := isBlank_of_inNumber (c := c)
  rw [numberPart, numberPart, takeWhile_append_blank hp htrail, dropWhile_append_blank hp htrail,
    exponentPart_append htrail]

theorem startsNumber_append (c : Char) (cs : List Char) :
    startsNumber (c :: (cs ++ trail)) = startsNumber (c :: cs) := by
  by_cases hc : c = '.'
  · subst hc
    cases cs with
    | cons => rfl
    | nil =>
      cases trail with
      | nil => rfl
      | cons t rest =>
        have ht : t.isDigit = false := Bool.eq_false_iff.2 fun h =>
          ne_of_isBlank htrail.head (isBlank_of_isDigit h) rfl
        exact ht
  · simp [startsNumber, hc]

omit htrail in
theorem ne_backslash (hnil : c = '\\' → cs = [] → False)
    (hcons : ∀ d rest, c = '\\' → cs = d :: rest → False) : c ≠ '\\' := by
  intro h
  cases cs with
  | nil => exact hnil h rfl
  | cons d rest => exact hcons d rest h rfl

omit htrail in
theorem stringBody_cons {quote : Char} (h : c ≠ '\\') : stringBody quote (c :: cs) =
    if c = quote then some ([], 1)
    else (stringBody quote cs).map fun (s, n) => (c :: s, n + 1) := by
  rw [stringBody]
  · exact fun h' => absurd h' h
  · exact fun _ _ h' => absurd h' h

/-- No quote closes in blanks. -/
theorem stringBody_blank {quote : Char} (hquote : isBlank quote = false) :
    stringBody quote trail = none := by
  induction trail with
  | nil => rfl
  | cons c rest ih =>
    have hslash : c ≠ '\\' := ne_of_isBlank htrail.head (by decide)
    rw [stringBody_cons hslash, if_neg (ne_of_isBlank htrail.head hquote), ih htrail.tail]
    rfl

theorem stringBody_append {quote : Char} (hquote : isBlank quote = false) (cs : List Char) :
    stringBody quote (cs ++ trail) = stringBody quote cs := by
  induction cs using stringBody.induct quote with
  | case1 => exact stringBody_blank htrail hquote
  | case2 =>
    -- a backslash at the end takes a blank with it
    cases trail with
    | nil => rfl
    | cons t rest =>
      change (stringBody quote rest).map _ = none
      rw [stringBody_blank htrail.tail hquote]
      rfl
  | case3 c rest ih => rw [List.cons_append, List.cons_append, stringBody, stringBody, ih]
  | case4 rest hnil hcons =>
    have hslash := ne_backslash hnil hcons
    rw [List.cons_append, stringBody_cons hslash, stringBody_cons hslash, if_pos rfl, if_pos rfl]
  | case5 c rest hnil hcons hne ih =>
    have hslash := ne_backslash hnil hcons
    rw [List.cons_append, stringBody_cons hslash, stringBody_cons hslash, if_neg hne, if_neg hne,
      ih]

theorem isPrefixOf_append {p : List Char} (hp : ∀ c ∈ p, isBlank c = false) (cs : List Char) :
    p.isPrefixOf (cs ++ trail) = p.isPrefixOf cs := by
  induction p generalizing cs with
  | nil => rfl
  | cons d p ih =>
    obtain ⟨hd, hp⟩ := List.forall_mem_cons.1 hp
    cases cs with
    | nil =>
      cases trail with
      | nil => rfl
      | cons t rest =>
        have ht : d ≠ t := (ne_of_isBlank htrail.head hd).symm
        rw [List.nil_append, List.isPrefixOf_cons_cons, beq_false_of_ne ht]
        rfl
    | cons c cs =>
      rw [List.cons_append, List.isPrefixOf_cons_cons, List.isPrefixOf_cons_cons, ih hp]

theorem fits_append (m : Mark) (cs : List Char) : m.fits (cs ++ trail) = m.fits cs := by
  have hall : m.text.toList.all fun c => !isBlank c := by cases m <;> rfl
  have htext : ∀ c ∈ m.text.toList, isBlank c = false := by simpa using hall
  -- a question mark and a point are two marks before a digit, and a blank is no digit
  have hdigit : (((cs ++ trail).drop 2).head?.map Char.isDigit).getD false =
      ((cs.drop 2).head?.map Char.isDigit).getD false := by
    rw [List.drop_append, List.head?_append]
    cases (cs.drop 2).head? with
    | some c => rfl
    | none =>
      cases hhead : (trail.drop (2 - cs.length)).head? with
      | none => rfl
      | some t =>
        have ht : isBlank t := htrail t (List.mem_of_mem_drop (List.mem_of_mem_head? hhead))
        exact Bool.eq_false_iff.2 fun h => ne_of_isBlank ht (isBlank_of_isDigit h) rfl
  rw [Mark.fits, Mark.fits, isPrefixOf_append htrail htext, hdigit]

/-- Blanks behind a text do not change the token at its start. -/
theorem lexeme_append (offset : Nat) (c : Char) (cs : List Char) :
    lexeme offset c (cs ++ trail) = lexeme offset c cs := by
  have hnumber : numberPart (c :: (cs ++ trail)) = numberPart (c :: cs) :=
    numberPart_append htrail (c :: cs)
  have hname : (cs ++ trail).takeWhile continuesName = cs.takeWhile continuesName :=
    takeWhile_append_blank (fun _ => isBlank_of_continuesName) htrail cs
  have hmark : Mark.find? (c :: (cs ++ trail)) = Mark.find? (c :: cs) :=
    congrArg (Mark.all.find? ·) (funext fun m => fits_append htrail m (c :: cs))
  unfold lexeme
  rw [startsNumber_append htrail, hnumber, hname, hmark]
  by_cases hquote : c = '"' ∨ c = '\''
  · have hblank : isBlank c = false := by obtain rfl | rfl := hquote <;> decide
    rw [stringBody_append htrail hblank]
  · simp only [if_neg hquote]

end

/-! ### Tokens without their places -/

/-- The token that starts with `c`, and how many characters it has behind `c`. -/
def lexeme? (c : Char) (rest : List Char) : Option (Token × Nat) := (lexeme 0 c rest).toOption

theorem toOption_lexeme (offset : Nat) (c : Char) (rest : List Char) :
    (lexeme offset c rest).toOption = lexeme? c rest := by
  unfold lexeme? lexeme
  dsimp only
  split
  · cases Numeral.read? (numberPart (c :: rest)) <;> rfl
  · split
    · cases stringBody c rest <;> rfl
    · split
      · rfl
      · cases Mark.find? (c :: rest) <;> rfl

theorem length_exponentPart_le (cs : List Char) : (exponentPart cs).length ≤ cs.length := by
  unfold exponentPart
  split
  · next c rest =>
    split
    · split
      next sign behind heq =>
      have hsign : sign.length + behind.length = rest.length := by
        split at heq
        all_goals
          cases heq
          simp [Nat.add_comm]
      have hdigits := (List.takeWhile_sublist (l := behind) Char.isDigit).length_le
      dsimp only
      split
      · exact Nat.zero_le _
      · simp only [List.cons_append, List.length_cons, List.length_append]
        omega
    · exact Nat.zero_le _
  · exact Nat.le_refl _

theorem length_numberPart_le (cs : List Char) : (numberPart cs).length ≤ cs.length := by
  let inNumber := fun c : Char => c.isDigit || c = '.'
  have hexponent := length_exponentPart_le (cs.dropWhile inNumber)
  have hsplit := congrArg List.length (List.takeWhile_append_dropWhile (p := inNumber) (l := cs))
  rw [List.length_append] at hsplit
  change (cs.takeWhile inNumber ++ exponentPart (cs.dropWhile inNumber)).length ≤ _
  rw [List.length_append]
  omega

theorem le_length_of_stringBody {quote : Char} {s : List Char} {more : Nat}
    (h : stringBody quote cs = some (s, more)) : more ≤ cs.length := by
  induction cs using stringBody.induct quote generalizing s more with
  | case1 | case2 => cases h
  | case3 c rest ih =>
    obtain ⟨⟨s, n⟩, hrest, heq⟩ := Option.map_eq_some_iff.1 h
    cases heq
    exact Nat.add_le_add_right (ih hrest) 2
  | case4 rest hnil hcons =>
    rw [stringBody_cons (ne_backslash hnil hcons), if_pos rfl] at h
    cases h
    exact Nat.succ_pos _
  | case5 c rest hnil hcons hne ih =>
    rw [stringBody_cons (ne_backslash hnil hcons), if_neg hne] at h
    obtain ⟨⟨s, n⟩, hrest, heq⟩ := Option.map_eq_some_iff.1 h
    cases heq
    exact Nat.succ_le_succ (ih hrest)

theorem length_le_of_find? {m : Mark} (h : Mark.find? cs = some m) :
    m.text.length ≤ cs.length := by
  have hfits := List.find?_some h
  rw [Mark.fits, Bool.and_eq_true] at hfits
  rw [← String.length_toList]
  exact (List.isPrefixOf_iff_prefix.1 hfits.1).length_le

theorem le_length_of_lexeme? {rest : List Char} {t : Token} {more : Nat}
    (h : lexeme? c rest = some (t, more)) : more ≤ rest.length := by
  unfold lexeme? lexeme at h
  dsimp only at h
  split at h
  · have hlength := length_numberPart_le (c :: rest)
    cases hread : Numeral.read? (numberPart (c :: rest)) with
    | none =>
      rw [hread] at h
      cases h
    | some x =>
      rw [hread] at h
      cases h
      exact Nat.sub_le_of_le_add hlength
  · split at h
    · cases hbody : stringBody c rest with
      | none =>
        rw [hbody] at h
        cases h
      | some body =>
        rw [hbody] at h
        cases h
        exact le_length_of_stringBody hbody
    · split at h
      · cases h
        exact (List.takeWhile_sublist _).length_le
      · cases hfind : Mark.find? (c :: rest) with
        | none =>
          rw [hfind] at h
          cases h
        | some m =>
          rw [hfind] at h
          cases h
          exact Nat.sub_le_of_le_add (length_le_of_find? hfind)

/-- The tokens of a text, where the first `skip` characters belong to a token already read. -/
def tokens? : Nat → List Char → Option (List Token)
  | _, [] => some []
  | skip + 1, _ :: rest => tokens? skip rest
  | 0, c :: rest =>
    if isSpace c then tokens? 0 rest
    else do
      let (token, more) ← lexeme? c rest
      let tokens ← tokens? more rest
      some (token :: tokens)

/-- **Places aside, scanning finds these tokens.** -/
theorem scanFrom_tokens (offset skip : Nat) (cs : List Char) :
    (scanFrom offset skip cs).toOption.map (·.map (·.token)) = tokens? skip cs := by
  induction cs generalizing offset skip with
  | nil => cases skip <;> rfl
  | cons c rest ih =>
    cases skip with
    | succ skip => exact ih _ _
    | zero =>
      rw [scanFrom, tokens?]
      split
      · exact ih _ _
      · rw [← toOption_lexeme offset]
        cases lexeme offset c rest with
        | error => rfl
        | ok r =>
          obtain ⟨token, more⟩ := r
          change (((scanFrom _ more rest).bind _).toOption.map _) = (tokens? more rest).bind _
          rw [← ih (offset + c.utf8Size) more]
          cases scanFrom (offset + c.utf8Size) more rest <;> rfl

/-! ### Blanks around a text -/

/-- A blank that is no white space of the language starts no token. -/
theorem lexeme?_eq_none (hblank : isBlank c) (rest : List Char) : lexeme? c rest = none := by
  have hdigit : c.isDigit = false :=
    Bool.eq_false_iff.2 fun h => ne_of_isBlank hblank (isBlank_of_isDigit h) rfl
  have hdot : c ≠ '.' := ne_of_isBlank hblank (by decide)
  have hnumber : startsNumber (c :: rest) = false := by simp [startsNumber, hdot, hdigit]
  have hquote : ¬ (c = '"' ∨ c = '\'') :=
    not_or.2 ⟨ne_of_isBlank hblank (by decide), ne_of_isBlank hblank (by decide)⟩
  have hname : startsName c = false := Bool.eq_false_iff.2 fun h => by
    exact ne_of_isBlank hblank (isBlank_of_continuesName (continuesName_of_startsName h)) rfl
  have hmark : Mark.find? (c :: rest) = none := by
    refine List.find?_eq_none.2 fun m _ hfits => ?_
    have htext : ∃ d more, m.text.toList = d :: more ∧ isBlank d = false := by
      cases m <;> exact ⟨_, _, rfl, by decide⟩
    obtain ⟨d, more, htext, hd⟩ := htext
    rw [Mark.fits, htext, List.isPrefixOf_cons_cons, Bool.and_eq_true, Bool.and_eq_true] at hfits
    exact ne_of_isBlank hblank hd (eq_of_beq hfits.1.1).symm
  rw [lexeme?, lexeme]
  simp only [hnumber, hquote, hname, hmark]
  rfl

theorem tokens?_prepend {lead : List Char} (hlead : AllBlank lead) (cs : List Char) :
    tokens? 0 (lead ++ cs) = if lead.all isSpace then tokens? 0 cs else none := by
  induction lead with
  | nil => rfl
  | cons c lead ih =>
    rw [List.cons_append, tokens?, List.all_cons]
    cases hspace : isSpace c with
    | true =>
      rw [if_pos rfl, ih hlead.tail]
      rfl
    | false =>
      rw [lexeme?_eq_none hlead.head]
      rfl

theorem tokens?_append (htrail : AllBlank trail) {skip : Nat} (hskip : skip ≤ cs.length) :
    tokens? skip (cs ++ trail) = if trail.all isSpace then tokens? skip cs else none := by
  induction cs generalizing skip with
  | nil =>
    obtain rfl := Nat.le_zero.1 hskip
    have := tokens?_prepend htrail []
    rwa [List.append_nil] at this
  | cons c rest ih =>
    -- what is skipped lies before the blanks, so these are reached with nothing left to skip
    cases skip with
    | succ skip => exact ih (Nat.le_of_succ_le_succ hskip)
    | zero =>
      rw [List.cons_append, tokens?, tokens?]
      cases hspace : isSpace c with
      | true => exact ih (Nat.zero_le _)
      | false =>
        have hlexeme : lexeme? c (rest ++ trail) = lexeme? c rest :=
          congrArg Except.toOption (lexeme_append htrail 0 c rest)
        rw [hlexeme]
        cases hnext : lexeme? c rest with
        | none => simp
        | some next =>
          have := ih (le_length_of_lexeme? hnext)
          change (tokens? next.2 (rest ++ trail)).bind _ =
            if _ then (tokens? next.2 rest).bind _ else none
          rw [this]
          split <;> rfl

end Token

/-! ### Whole texts -/

namespace Text

theorem exists_outerBlanks (s : String) : ∃ lead trail, AllBlank lead ∧ AllBlank trail ∧
    outerBlanks s = lead ++ trail ∧ s.toList = lead ++ ((trim s).toList ++ trail) := by
  have htake (cs : List Char) : AllBlank (cs.takeWhile isBlank) :=
    List.all_eq_true.1 List.all_takeWhile
  have htrail : trimRight (trimLeft s.toList) ++
      ((trimLeft s.toList).reverse.takeWhile isBlank).reverse = trimLeft s.toList := by
    rw [trimRight, ← List.reverse_append, List.takeWhile_append_dropWhile, List.reverse_reverse]
  refine ⟨_, _, htake _, fun c hc => htake _ c (List.mem_reverse.1 hc), rfl, ?_⟩
  rw [trim, String.toList_ofList, trimmed, htrail, trimLeft, List.takeWhile_append_dropWhile]

end Text

namespace Expr

variable {e : Expr} {text : String}

theorem parse?_eq_ok_iff : parse? text = .ok e ↔
    ∃ ts, Token.tokens? 0 text.toList = some ts ∧ Parser.run (ts.map (⟨·, 0⟩)) 0 = .ok e := by
  rw [parse?, ← Token.scanFrom_tokens 0 0, Token.scan]
  cases Token.scanFrom 0 0 text.toList with
  | error => exact ⟨nofun, nofun⟩
  | ok placed =>
    have htokens : placed.map (·.token) =
        ((placed.map (·.token)).map (PlacedToken.mk · 0)).map (·.token) := by simp
    constructor
    · exact fun h => ⟨_, rfl, Parser.run_of_tokens htokens h⟩
    · rintro ⟨ts, hts, h⟩
      cases hts
      exact Parser.run_of_tokens htokens.symm h

/-- **Outer blanks of the language make no difference, and others make a text unreadable.** -/
theorem parse?_eq_ok_iff_trim : parse? text = .ok e ↔
    parse? (Text.trim text) = .ok e ∧ ∀ c ∈ Text.outerBlanks text, Token.isSpace c := by
  obtain ⟨lead, trail, hlead, htrail, houter, htext⟩ := Text.exists_outerBlanks text
  rw [parse?_eq_ok_iff, parse?_eq_ok_iff, houter, htext, Token.tokens?_prepend hlead,
    Token.tokens?_append htrail (Nat.zero_le _)]
  simp only [List.forall_mem_append, ← List.all_eq_true]
  cases lead.all Token.isSpace <;> cases trail.all Token.isSpace <;> simp

/-- A text cannot be read if it cannot be read without its outer blanks, or if one of these is no
white space of the language. -/
theorem exists_error_iff_trim : (∃ err, parse? text = .error err) ↔
    (∃ err, parse? (Text.trim text) = .error err) ∨
      ¬ ∀ c ∈ Text.outerBlanks text, Token.isSpace c := by
  have hiff (text : String) :
      (∃ err, parse? text = .error err) ↔ ¬ ∃ e, parse? text = .ok e := by
    cases parse? text with
    | error err => exact ⟨fun _ => nofun, fun _ => ⟨err, rfl⟩⟩
    | ok e => exact ⟨nofun, fun h => absurd ⟨e, rfl⟩ h⟩
  rw [hiff, hiff, ← Classical.not_and_iff_not_or_not, ← exists_and_right]
  exact not_congr (exists_congr fun e => parse?_eq_ok_iff_trim)

end Expr

end SchemaCanvas
