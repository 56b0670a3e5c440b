import SchemaCanvas.Proofs.Expr.DotPath

/-!
# Lexemes

A token is read from the characters at the start of a text: a numeral, a string in quotes, an
identifier or a mark. What is read are characters of the text, in front, and if nothing else is
there the same token is read from them.

* `Token.lexeme_of_startsNumber`, `Token.lexeme_of_isQuote`, `Token.lexeme_of_not` : the kinds of
  tokens beside identifiers;
* `Token.lexeme?_take` : a token is read from its own characters;
* `Token.tokens?_lexeme` : a text that begins with a token.
-/

namespace SchemaCanvas.Token

variable {cs : List Char} {c : Char} {rest : List Char} {t : Token} {more : Nat}

theorem cons_take_of_prefix {part : List Char} (hne : part ≠ []) (h : part <+: c :: rest) :
    c :: rest.take (part.length - 1) = part := by
  cases part with
  | nil => exact absurd rfl hne
  | cons d part =>
    obtain ⟨rfl, hpart⟩ := List.cons_prefix_cons.1 h
    rw [List.length_cons, Nat.add_sub_cancel, ← List.prefix_iff_eq_take.1 hpart]

/-- The offset of a token makes a difference to faults only. -/
theorem lexeme_eq_ok_iff {offset : Nat} :
    lexeme offset c rest = .ok (t, more) ↔ lexeme? c rest = some (t, more) := by
  rw [← toOption_lexeme offset]
  cases lexeme offset c rest with
  | error => exact ⟨nofun, nofun⟩
  | ok next => exact ⟨fun h => congrArg Except.toOption h, fun h => congrArg _ (Option.some.inj h)⟩

/-! ### Numbers -/

/-- A sign of an exponent. -/
def isSign (c : Char) : Bool := c = '+' || c = '-'

/-- The sign at the start of a text, if there is one. -/
def signPart (cs : List Char) : List Char := (cs.head?.filter isSign).toList

/-- **An exponent is a letter, a sign or none, and digits.** -/
theorem exponentPart_cons (hc : c = 'e' ∨ c = 'E') (rest : List Char) :
    ∃ digits, rest = signPart rest ++ digits ∧
      exponentPart (c :: rest) = if (digits.takeWhile Char.isDigit).isEmpty then []
        else c :: (signPart rest ++ digits.takeWhile Char.isDigit) := by
  match rest with
  | [] => exact ⟨[], rfl, if_pos hc⟩
  | d :: rest =>
    unfold exponentPart
    by_cases hplus : d = '+'
    · subst hplus
      have hsign : signPart ('+' :: rest) = ['+'] := rfl
      exact ⟨rest, rfl, by simp [hc, hsign]⟩
    · by_cases hminus : d = '-'
      · subst hminus
        have hsign : signPart ('-' :: rest) = ['-'] := rfl
        exact ⟨rest, rfl, by simp [hc, hsign]⟩
      · have hsign : signPart (d :: rest) = [] := by simp [signPart, isSign, hplus, hminus]
        exact ⟨d :: rest, by rw [hsign]; rfl, by simp [hc, hplus, hminus, hsign]⟩

theorem exponentPart_of_ne (hc : ¬ (c = 'e' ∨ c = 'E')) (rest : List Char) :
    exponentPart (c :: rest) = [] := if_neg hc

theorem exponentPart_isPrefix (cs : List Char) : exponentPart cs <+: cs := by
  cases cs with
  | nil => exact List.prefix_refl _
  | cons c rest =>
    by_cases hc : c = 'e' ∨ c = 'E'
    · obtain ⟨digits, hrest, hpart⟩ := exponentPart_cons hc rest
      rw [hpart]
      split
      · exact List.nil_prefix
      · conv => rhs; rw [hrest]
        refine List.cons_prefix_cons.2 ⟨rfl, ?_⟩
        exact (List.prefix_append_right_inj _).2 (List.takeWhile_prefix _)
    · rw [exponentPart_of_ne hc]
      exact List.nil_prefix

theorem signPart_append {digits : List Char} (hne : digits ≠ []) (h : ∀ d ∈ digits, d.isDigit) :
    signPart (signPart rest ++ digits) = signPart rest := by
  have hdigits : signPart digits = [] := by
    cases digits with
    | nil => exact absurd rfl hne
    | cons d digits =>
      have hd := h d List.mem_cons_self
      have hplus : d ≠ '+' := by rintro rfl; exact absurd hd (by decide)
      have hminus : d ≠ '-' := by rintro rfl; exact absurd hd (by decide)
      simp [signPart, isSign, hplus, hminus]
  cases hsign : rest.head?.filter isSign with
  | none =>
    have hnone : signPart rest = [] := by rw [signPart, hsign]; rfl
    rw [hnone, List.nil_append, hdigits]
  | some s =>
    have hsome : signPart rest = [s] := by rw [signPart, hsign]; rfl
    have hs : isSign s := (Option.filter_eq_some_iff.1 hsign).2
    rw [hsome]
    simp [signPart, hs]

theorem exponentPart_exponentPart (cs : List Char) :
    exponentPart (exponentPart cs) = exponentPart cs := by
  cases cs with
  | nil => rfl
  | cons c rest =>
    by_cases hc : c = 'e' ∨ c = 'E'
    · obtain ⟨digits, -, hpart⟩ := exponentPart_cons hc rest
      rw [hpart]
      split
      · rfl
      · next hne =>
        obtain ⟨digits', hrest', hpart'⟩ :=
          exponentPart_cons hc (signPart rest ++ digits.takeWhile Char.isDigit)
        have hall : ∀ d ∈ digits.takeWhile Char.isDigit, d.isDigit :=
          List.all_eq_true.1 List.all_takeWhile
        have hne' : digits.takeWhile Char.isDigit ≠ [] := by simpa using hne
        rw [signPart_append hne' hall] at hrest' hpart'
        obtain rfl := List.append_cancel_left hrest'
        rw [hpart', List.takeWhile_eq_self_iff.2 hall, if_neg hne]
    · rw [exponentPart_of_ne hc]
      rfl

/-- A digit or a point, as in a number before its exponent. -/
def inNumber (c : Char) : Bool := c.isDigit || c = '.'

theorem numberPart_isPrefix (cs : List Char) : numberPart cs <+: cs := by
  have hsplit := List.takeWhile_append_dropWhile (p := inNumber) (l := cs)
  have hpart := (List.prefix_append_right_inj (cs.takeWhile inNumber)).2
    (exponentPart_isPrefix (cs.dropWhile inNumber))
  rwa [hsplit] at hpart

theorem startsNumber_cons (c : Char) (rest : List Char) : startsNumber (c :: rest) =
    (c.isDigit || (decide (c = '.') && rest.head?.any Char.isDigit)) := by
  by_cases hdot : c = '.'
  · subst hdot
    cases rest <;> rfl
  · simp [startsNumber, hdot]

theorem numberPart_cons (h : inNumber c) (rest : List Char) :
    numberPart (c :: rest) = c :: numberPart rest := by
  change (c :: rest).takeWhile inNumber ++ exponentPart ((c :: rest).dropWhile inNumber) = _
  rw [List.takeWhile_cons_of_pos h, List.dropWhile_cons_of_pos h]
  rfl

theorem numberPart_of_not_inNumber (h : inNumber c = false) (rest : List Char) :
    numberPart (c :: rest) = exponentPart (c :: rest) := by
  have hneg : ¬ inNumber c := Bool.eq_false_iff.1 h
  change (c :: rest).takeWhile inNumber ++ exponentPart ((c :: rest).dropWhile inNumber) = _
  rw [List.takeWhile_cons_of_neg hneg, List.dropWhile_cons_of_neg hneg, List.nil_append]

theorem exists_numberPart_eq (h : startsNumber (c :: rest)) :
    ∃ more, numberPart (c :: rest) = c :: more ∧ startsNumber (c :: more) := by
  rw [startsNumber_cons, Bool.or_eq_true, Bool.and_eq_true] at h
  obtain hdigit | ⟨hdot, hdigit⟩ := h
  · refine ⟨_, numberPart_cons (by simp [inNumber, hdigit]) rest, ?_⟩
    rw [startsNumber_cons, hdigit, Bool.true_or]
  · cases rest with
    | nil => cases hdigit
    | cons d rest =>
      replace hdigit : d.isDigit := hdigit
      obtain rfl := of_decide_eq_true hdot
      refine ⟨d :: numberPart rest, ?_, hdigit⟩
      rw [numberPart_cons (by decide), numberPart_cons (by simp [inNumber, hdigit])]

theorem numberPart_ne_nil (h : startsNumber (c :: rest)) : numberPart (c :: rest) ≠ [] := by
  obtain ⟨more, hpart, -⟩ := exists_numberPart_eq h
  rw [hpart]
  exact List.cons_ne_nil _ _

theorem numberPart_numberPart (cs : List Char) : numberPart (numberPart cs) = numberPart cs := by
  induction cs with
  | nil => rfl
  | cons c rest ih =>
    cases hin : inNumber c with
    | true => rw [numberPart_cons hin, numberPart_cons hin, ih]
    | false =>
      rw [numberPart_of_not_inNumber hin]
      cases hpart : exponentPart (c :: rest) with
      | nil => rfl
      | cons d more =>
        obtain ⟨rfl, -⟩ := List.cons_prefix_cons.1 (hpart ▸ exponentPart_isPrefix (c :: rest))
        rw [numberPart_of_not_inNumber hin, ← hpart, exponentPart_exponentPart]

/-- **A number,** or what is wrong with it. -/
theorem lexeme_of_startsNumber (offset : Nat) (h : startsNumber (c :: rest)) :
    lexeme offset c rest =
      match Numeral.read? (numberPart (c :: rest)) with
      | some x => .ok (.num x, (numberPart (c :: rest)).length - 1)
      | none => .error ⟨.invalidNumber (String.ofList (numberPart (c :: rest))), offset⟩ :=
  if_pos h

theorem lexeme?_of_startsNumber (h : startsNumber (c :: rest)) :
    lexeme? c rest = (Numeral.read? (numberPart (c :: rest))).map fun x =>
      (.num x, (numberPart (c :: rest)).length - 1) := by
  rw [lexeme?, lexeme_of_startsNumber 0 h]
  cases Numeral.read? (numberPart (c :: rest)) <;> rfl

/-! ### Strings -/

/-- A quote that opens a string. -/
def isQuote (c : Char) : Bool := c = '"' || c = '\''

theorem startsNumber_of_isQuote (h : isQuote c) (rest : List Char) :
    startsNumber (c :: rest) = false := by
  simp only [isQuote, Bool.or_eq_true, decide_eq_true_eq] at h
  obtain rfl | rfl := h <;> rfl

/-- **A string,** or that it has no end. -/
theorem lexeme_of_isQuote (offset : Nat) (h : isQuote c) (rest : List Char) :
    lexeme offset c rest =
      match stringBody c rest with
      | some (s, n) => .ok (.str (String.ofList s), n)
      | none => .error ⟨.unterminatedString, offset⟩ := by
  have hquote : c = '"' ∨ c = '\'' := by simpa [isQuote] using h
  refine (if_neg (Bool.eq_false_iff.1 (startsNumber_of_isQuote h rest))).trans ?_
  exact if_pos hquote

theorem lexeme?_of_isQuote (h : isQuote c) (rest : List Char) :
    lexeme? c rest =
      (stringBody c rest).map fun (s, n) => (.str (String.ofList s), n) := by
  rw [lexeme?, lexeme_of_isQuote 0 h]
  cases stringBody c rest <;> rfl

theorem stringBody_take {quote : Char} {s : List Char} (h : stringBody quote cs = some (s, more)) :
    stringBody quote (cs.take more) = some (s, more) := by
  induction cs using stringBody.induct quote generalizing s more with
  | case1 | case2 => cases h
  | case3 c rest ih =>
    obtain ⟨⟨s, n⟩, hrest, heq⟩ := Option.map_eq_some_iff.1 h
    cases heq
    rw [List.take_succ_cons, List.take_succ_cons, stringBody, ih hrest]
    rfl
  | case4 rest hnil hcons =>
    have hslash := ne_backslash hnil hcons
    rw [stringBody_cons hslash, if_pos rfl] at h
    cases h
    rw [List.take_succ_cons, stringBody_cons hslash, if_pos rfl]
  | case5 c rest hnil hcons hne ih =>
    have hslash := ne_backslash hnil hcons
    rw [stringBody_cons hslash, if_neg hne] at h
    obtain ⟨⟨s, n⟩, hrest, heq⟩ := Option.map_eq_some_iff.1 h
    cases heq
    rw [List.take_succ_cons, stringBody_cons hslash, if_neg hne, ih hrest]
    rfl

/-! ### Marks -/

theorem toList_text_ne_nil (m : Mark) : m.text.toList ≠ [] := by cases m <;> decide

theorem text_prefix_of_find? {m : Mark} (h : Mark.find? cs = some m) : m.text.toList <+: cs := by
  have hfits := List.find?_some h
  rw [Mark.fits, Bool.and_eq_true] at hfits
  exact List.isPrefixOf_iff_prefix.1 hfits.1

/-- **A mark is read,** if it stands alone or a blank follows. -/
theorem exists_lexeme?_text (m : Mark) {behind : List Char} (h : ∀ d ∈ behind.head?, d = ' ') :
    ∃ c rest, m.text.toList = c :: rest ∧ isSpace c = false ∧
      lexeme? c (rest ++ behind) = some (.mark m, rest.length) := by
  cases behind with
  | nil => cases m <;> exact ⟨_, _, rfl, rfl, rfl⟩
  | cons d behind =>
    obtain rfl := h d rfl
    cases m <;> exact ⟨_, _, rfl, rfl, rfl⟩

/-- **A mark,** if none of the other tokens starts here, or that there is no token. -/
theorem lexeme_of_not (offset : Nat) (hnumber : startsNumber (c :: rest) = false)
    (hquote : isQuote c = false) (hname : startsName c = false) :
    lexeme offset c rest =
      match Mark.find? (c :: rest) with
      | some m => .ok (.mark m, m.text.length - 1)
      | none => .error ⟨.unexpectedCharacter c, offset⟩ := by
  have hquote' : ¬ (c = '"' ∨ c = '\'') := by simpa [isQuote] using hquote
  refine (if_neg (Bool.eq_false_iff.1 hnumber)).trans ((if_neg hquote').trans ?_)
  exact if_neg (Bool.eq_false_iff.1 hname)

theorem lexeme?_of_not (hnumber : startsNumber (c :: rest) = false) (hquote : isQuote c = false)
    (hname : startsName c = false) :
    lexeme? c rest = (Mark.find? (c :: rest)).map fun m => (.mark m, m.text.length - 1) := by
  rw [lexeme?, lexeme_of_not 0 hnumber hquote hname]
  cases Mark.find? (c :: rest) <;> rfl

/-! ### Tokens by themselves -/

/-- **A token is read from its own characters:** what follows them makes no difference. -/
theorem lexeme?_take (h : lexeme? c rest = some (t, more)) :
    lexeme? c (rest.take more) = some (t, more) := by
  cases hnumber : startsNumber (c :: rest) with
  | true =>
    rw [lexeme?_of_startsNumber hnumber] at h
    obtain ⟨x, hread, heq⟩ := Option.map_eq_some_iff.1 h
    cases heq
    obtain ⟨behind, hpart, hstarts⟩ := exists_numberPart_eq hnumber
    have htake := cons_take_of_prefix (numberPart_ne_nil hnumber) (numberPart_isPrefix (c :: rest))
    have hown : numberPart (c :: rest.take ((numberPart (c :: rest)).length - 1)) =
        numberPart (c :: rest) := by
      rw [htake, numberPart_numberPart]
    rw [← hpart, ← htake] at hstarts
    rw [lexeme?_of_startsNumber hstarts, hown, hread]
    rfl
  | false =>
    cases hquote : isQuote c with
    | true =>
      rw [lexeme?_of_isQuote hquote] at h ⊢
      obtain ⟨⟨s, n⟩, hbody, heq⟩ := Option.map_eq_some_iff.1 h
      cases heq
      rw [stringBody_take hbody]
      rfl
    | false =>
      cases hname : startsName c with
      | true =>
        rw [lexeme?_of_startsName hname] at h ⊢
        cases h
        have htake : rest.take (rest.takeWhile continuesName).length =
            rest.takeWhile continuesName :=
          (List.prefix_iff_eq_take.1 (List.takeWhile_prefix _)).symm
        have hall : ∀ d ∈ rest.takeWhile continuesName, continuesName d :=
          List.all_eq_true.1 List.all_takeWhile
        rw [htake, List.takeWhile_eq_self_iff.2 hall]
      | false =>
        rw [lexeme?_of_not hnumber hquote hname] at h
        obtain ⟨m, hfind, heq⟩ := Option.map_eq_some_iff.1 h
        cases heq
        have htake := cons_take_of_prefix (toList_text_ne_nil m) (text_prefix_of_find? hfind)
        have hends : ∀ d ∈ ([] : List Char).head?, d = ' ' := nofun
        obtain ⟨d, behind, htext, -, hlexeme⟩ := exists_lexeme?_text m hends
        rw [String.length_toList, htext] at htake
        obtain ⟨rfl, hbehind⟩ := List.cons_eq_cons.1 htake
        have hlength : m.text.length - 1 = behind.length := by
          rw [← String.length_toList, htext]
          rfl
        rw [hbehind, hlength]
        simpa using hlexeme

theorem tokens?_lexeme {behind : List Char} (hspace : isSpace c = false)
    (h : lexeme? c (cs ++ behind) = some (t, cs.length)) :
    tokens? 0 (c :: (cs ++ behind)) = (tokens? 0 behind).map (t :: ·) := by
  rw [tokens?, hspace, h]
  change (tokens? cs.length (cs ++ behind)).bind _ = _
  rw [tokens?_length_append]
  cases tokens? 0 behind <;> rfl

end SchemaCanvas.Token
