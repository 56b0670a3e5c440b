import SchemaCanvas.Proofs.Expr.Lexemes
import SchemaCanvas.Proofs.Text.Slice

/-!
# Scanning by bytes

Tokens are scanned character by character, which never leaves a text between two bytes of a
character. Here they are scanned with a cursor on the bytes instead: a turn at a position looks at
single bytes, passes over bytes as long as these have a property, and takes parts of the text from
one position to another. Nothing in this says that the positions stand between characters, or that
a turn moves the cursor forward. Both are proved, from what one turn does.

* `Token.Cursor.turn?` : one turn; none if a part is asked for that begins or ends inside a
  character or goes on behind the end;
* `Token.Cursor.turn?_append` : a turn at a character finds white space, the token or the fault that
  is found there character by character.
-/

namespace SchemaCanvas.Token.Cursor

open Text

/-! ### One turn -/

/-- What is found at a position: one byte of white space, a token and where it stops, or a fault. -/
inductive Turn where
  | space
  | token (t : Token) (stop : Nat)
  | fault (e : SyntaxError)

variable (text : List Char)

/-- Where the exponent of a number stops; without a digit there is none. -/
def exponentEnd (i : Nat) : Nat :=
  if byteIs text (fun c => c = 'e' || c = 'E') i then
    let digits := if byteIs text isSign (i + 1) then i + 1 + 1 else i + 1
    if byteIs text Char.isDigit digits then skipWhile text Char.isDigit digits else i
  else i

/-- Where a number stops that starts at a position. -/
def numberEnd (i : Nat) : Nat :=
  exponentEnd text (skipWhile text inNumber i)

/-- A number that starts at a position. -/
def number? (i : Nat) : Option Turn := do
  let stop := numberEnd text i
  let numeral ← slice? i stop text
  match Numeral.read? numeral with
  | some x => some (.token (num x) stop)
  | none => some (.fault ⟨.invalidNumber (String.ofList numeral), i⟩)

/-- The contents of a string, and the bytes up to and with the closing quote. A backslash gives the
next character another meaning. -/
def closing? (quote : Char) (escaped : Bool) (bytes : Nat) (contents : List Char) :
    List Char → Option (List Char × Nat)
  | [] => none
  | c :: rest =>
    let bytes := bytes + c.utf8Size
    if escaped then closing? quote false bytes (contents ++ [unescaped c]) rest
    else if c = '\\' then closing? quote true bytes contents rest
    else if c = quote then some (contents, bytes)
    else closing? quote false bytes (contents ++ [c]) rest

/-- A string that starts with a quote at a position. -/
def string? (quote : Char) (i : Nat) : Option Turn := do
  let rest ← from? (i + 1) text
  match closing? quote false 0 [] rest with
  | some (contents, bytes) => some (.token (str (String.ofList contents)) (i + 1 + bytes))
  | none => some (.fault ⟨.unterminatedString, i⟩)

/-- A name that starts at a position. -/
def name? (i : Nat) : Option Turn := do
  let stop := skipWhile text continuesName i
  let name ← slice? i stop text
  some (.token (ident (String.ofList name)) stop)

/-- A mark stands at the start of a text. To tell a decimal from `?.`, the text two bytes further on
is looked at. -/
def fits? (rest : List Char) (m : Mark) : Option Bool :=
  if m.text.toList.isPrefixOf rest then
    if m = .optionalDot then do
      let behind ← from? 2 rest
      some !(behind.head?.any Char.isDigit)
    else some true
  else some false

/-- A mark at a position. -/
def mark? (i : Nat) : Option Turn := do
  let rest ← from? i text
  match ← Mark.all.findM? (fits? rest) with
  | some m => some (.token (mark m) (i + m.text.utf8ByteSize))
  | none => some (.fault ⟨.unexpectedCharacter (rest.head?.getD '?'), i⟩)

/-- What is found at a position. -/
def turn? (i : Nat) : Option Turn :=
  if byteIs text isSpace i then some .space
  else if byteIs text Char.isDigit i ||
      (byteIs text (· = '.') i && byteIs text Char.isDigit (i + 1)) then number? text i
  else if byteIs text (· = '"') i then string? text '"' i
  else if byteIs text (· = '\'') i then string? text '\'' i
  else if byteIs text startsName i then name? text i
  else mark? text i

/-! ### Properties of ASCII characters -/

theorem onAscii_eq {d : Char} (h : d.toNat < 128) : OnAscii (· = d) := by
  intro c hc
  rwa [of_decide_eq_true hc]

theorem onAscii_or {p q : Char → Bool} (hp : OnAscii p) (hq : OnAscii q) :
    OnAscii fun c => p c || q c := by
  intro c hc
  obtain hc | hc := (Bool.or_eq_true _ _).mp hc
  · exact hp c hc
  · exact hq c hc

theorem onAscii_isDigit : OnAscii Char.isDigit := by
  intro c hc
  simp only [Char.isDigit, Bool.and_eq_true, decide_eq_true_eq, ge_iff_le,
    UInt32.le_iff_toNat_le] at hc
  exact Nat.lt_of_le_of_lt hc.2 (by decide)

theorem onAscii_isAlpha : OnAscii Char.isAlpha := by
  intro c hc
  obtain h | h := (Bool.or_eq_true _ _).mp hc
  · have hupper : 65 ≤ c.toNat ∧ c.toNat ≤ 90 := of_decide_eq_true h
    omega
  · have hlower : 97 ≤ c.toNat ∧ c.toNat ≤ 122 :=
      ((Bool.and_eq_true _ _).mp h).imp of_decide_eq_true of_decide_eq_true
    omega

theorem onAscii_continuesName : OnAscii continuesName :=
  onAscii_or (onAscii_or (onAscii_or onAscii_isAlpha onAscii_isDigit) (onAscii_eq (by decide)))
    (onAscii_eq (by decide))

theorem onAscii_startsName : OnAscii startsName := fun c h =>
  onAscii_continuesName c (continuesName_of_startsName h)

theorem onAscii_isSpace : OnAscii isSpace := by
  intro c hc
  simp only [isSpace, Bool.or_eq_true, decide_eq_true_eq] at hc
  obtain (((rfl | rfl) | rfl) | rfl) | rfl := hc <;> decide

theorem onAscii_isSign : OnAscii isSign :=
  onAscii_or (onAscii_eq (by decide)) (onAscii_eq (by decide))

theorem onAscii_isQuote : OnAscii isQuote :=
  onAscii_or (onAscii_eq (by decide)) (onAscii_eq (by decide))

theorem onAscii_inNumber : OnAscii inNumber := onAscii_or onAscii_isDigit (onAscii_eq (by decide))

/-! ### Numbers -/

section

variable {text} {before cs : List Char} {c : Char} {rest : List Char}

theorem isEmpty_takeWhile (p : Char → Bool) (cs : List Char) :
    (cs.takeWhile p).isEmpty = !(cs.head?.any p) := by
  cases cs with
  | nil => rfl
  | cons c cs =>
    rw [List.takeWhile_cons, List.head?_cons, Option.any_some]
    cases p c <;> rfl

theorem digitsEnd_append (before cs : List Char) (fallback : Nat) :
    (if byteIs (before ++ cs) Char.isDigit (size before) then
      skipWhile (before ++ cs) Char.isDigit (size before) else fallback) =
      if (cs.takeWhile Char.isDigit).isEmpty then fallback
      else size (before ++ cs.takeWhile Char.isDigit) := by
  rw [byteIs_append onAscii_isDigit, skipWhile_append onAscii_isDigit, isEmpty_takeWhile]
  cases cs.head?.any Char.isDigit <;> rfl

theorem size_signPart (cs : List Char) :
    size (signPart cs) = if cs.head?.any isSign then 1 else 0 := by
  cases cs with
  | nil => rfl
  | cons c cs =>
    cases h : isSign c with
    | true => simp [signPart, Option.filter, h, utf8Size_of_onAscii onAscii_isSign h]
    | false => simp [signPart, Option.filter, h]

/-- **An exponent stops where its characters end.** -/
theorem exponentEnd_append (before cs : List Char) :
    exponentEnd (before ++ cs) (size before) = size (before ++ exponentPart cs) := by
  have he : OnAscii fun c => c = 'e' || c = 'E' :=
    onAscii_or (onAscii_eq (by decide)) (onAscii_eq (by decide))
  rw [exponentEnd, byteIs_append he]
  cases cs with
  | nil => simp [exponentPart]
  | cons c rest =>
    by_cases hc : c = 'e' ∨ c = 'E'
    · have hmark : (decide (c = 'e') || decide (c = 'E')) = true := by simpa using hc
      have hnext : size before + 1 = size (before ++ [c]) := by
        rw [size_append, size_cons, utf8Size_of_onAscii he hmark, size_nil]
      obtain ⟨digits, hrest, hpart⟩ := exponentPart_cons hc rest
      have hsigned : byteIs (before ++ c :: rest) isSign (size before + 1) =
          rest.head?.any isSign := by
        rw [hnext, List.append_cons, byteIs_append onAscii_isSign]
      have hdigits : (if rest.head?.any isSign then size before + 1 + 1 else size before + 1) =
          size (before ++ [c] ++ signPart rest) := by
        rw [hnext, size_append (before ++ [c]), size_signPart]
        split <;> rfl
      have htext : before ++ c :: rest = before ++ [c] ++ signPart rest ++ digits := by
        conv => lhs; rw [hrest]
        simp
      rw [List.head?_cons, Option.any_some, if_pos hmark, hsigned]
      dsimp only
      rw [hdigits, htext, digitsEnd_append, hpart]
      split
      · rw [List.append_nil]
      · simp
    · have hmark : (decide (c = 'e') || decide (c = 'E')) = false := by simpa using hc
      rw [List.head?_cons, Option.any_some, hmark, exponentPart_of_ne hc, List.append_nil]
      rfl

/-- **A number stops where its characters end.** -/
theorem numberEnd_append (before cs : List Char) :
    numberEnd (before ++ cs) (size before) = size (before ++ numberPart cs) := by
  have htext : before ++ cs = before ++ cs.takeWhile inNumber ++ cs.dropWhile inNumber := by
    rw [List.append_assoc, List.takeWhile_append_dropWhile]
  have hpart : before ++ numberPart cs =
      before ++ cs.takeWhile inNumber ++ exponentPart (cs.dropWhile inNumber) := by
    rw [List.append_assoc]
    rfl
  rw [numberEnd, skipWhile_append onAscii_inNumber, hpart, ← exponentEnd_append, ← htext]

/-! ### Strings -/

/-- **A string closes where its contents end.** -/
theorem closing?_eq (quote : Char) (bytes : Nat) (contents cs : List Char) :
    closing? quote false bytes contents cs =
      (stringBody quote cs).map fun (s, n) => (contents ++ s, bytes + size (cs.take n)) := by
  induction cs using stringBody.induct quote generalizing bytes contents with
  | case1 => rfl
  | case2 => rfl
  | case3 c rest ih =>
    have hslash : closing? quote false bytes contents ('\\' :: c :: rest) =
        closing? quote false (bytes + 1 + c.utf8Size) (contents ++ [unescaped c]) rest := rfl
    rw [hslash, ih, stringBody, Option.map_map]
    refine congrArg (Option.map · _) (funext fun body => ?_)
    obtain ⟨s, n⟩ := body
    have hone : '\\'.utf8Size = 1 := by decide
    simp [hone, Nat.add_assoc]
  | case4 rest hnil hcons =>
    have hslash := ne_backslash hnil hcons
    rw [closing?, stringBody_cons hslash]
    simp [hslash]
  | case5 c rest hnil hcons hne ih =>
    have hslash := ne_backslash hnil hcons
    rw [closing?, stringBody_cons hslash, if_neg hne]
    simp only [Bool.false_eq_true, if_false, hslash, hne, ih, Option.map_map]
    refine congrArg (Option.map · _) (funext fun body => ?_)
    obtain ⟨s, n⟩ := body
    simp [Nat.add_assoc]

/-! ### Marks -/

theorem fits?_eq (rest : List Char) (m : Mark) : fits? rest m = some (m.fits rest) := by
  rw [fits?, Mark.fits]
  split
  · next hfits =>
    split
    · next hmark =>
      subst hmark
      obtain ⟨behind, rfl⟩ := List.isPrefixOf_iff_prefix.1 hfits
      have hbehind : from? 2 (Mark.optionalDot.text.toList ++ behind) = some behind :=
        from?_append ['?', '.'] behind
      have hdigit : (((Mark.optionalDot.text.toList ++ behind).drop 2).head?.map
          Char.isDigit).getD false = behind.head?.any Char.isDigit := by
        change (behind.head?.map Char.isDigit).getD false = _
        cases behind.head? <;> rfl
      rw [hbehind, hfits, hdigit]
      rfl
    · next hmark => simp [hfits, hmark]
  · next hfits => simp [hfits]

theorem findM?_fits (rest : List Char) : Mark.all.findM? (fits? rest) = some (Mark.find? rest) := by
  have hfits : fits? rest = fun m => pure (m.fits rest) := funext (fits?_eq rest)
  rw [hfits, List.findM?_pure]
  rfl

/-! ### Turns at a character -/

theorem slice?_of_prefix {part : List Char} (before : List Char) (h : part <+: cs) :
    slice? (size before) (size (before ++ part)) (before ++ cs) = some part := by
  obtain ⟨behind, rfl⟩ := h
  rw [size_append, slice?_append]

/-- The turn at the character `c`, if `rest` follows and this token is read or this fault found. -/
def turnOf (before : List Char) (c : Char) (rest : List Char) :
    Except SyntaxError (Token × Nat) → Turn
  | .ok (t, more) => .token t (size (before ++ c :: rest.take more))
  | .error e => .fault e

/-- What is found at the character `c` if `rest` follows. -/
def turnAt (before : List Char) (c : Char) (rest : List Char) : Turn :=
  if isSpace c then .space else turnOf before c rest (lexeme (size before) c rest)

section

variable (before : List Char)

theorem number?_append (h : startsNumber (c :: rest)) :
    number? (before ++ c :: rest) (size before) =
      some (turnOf before c rest (lexeme (size before) c rest)) := by
  have hpart := cons_take_of_prefix (numberPart_ne_nil h) (numberPart_isPrefix (c :: rest))
  rw [number?, numberEnd_append, slice?_of_prefix before (numberPart_isPrefix (c :: rest)),
    lexeme_of_startsNumber _ h, Option.bind_eq_bind, Option.bind_some]
  cases Numeral.read? (numberPart (c :: rest)) with
  | none => rfl
  | some x =>
    dsimp only [turnOf]
    rw [hpart]

theorem string?_append (h : isQuote c) (rest : List Char) :
    string? (before ++ c :: rest) c (size before) =
      some (turnOf before c rest (lexeme (size before) c rest)) := by
  have hnext : size before + 1 = size (before ++ [c]) := by
    rw [size_append, size_cons, utf8Size_of_onAscii onAscii_isQuote h, size_nil]
  rw [string?, List.append_cons, hnext, from?_append, lexeme_of_isQuote _ h, Option.bind_eq_bind,
    Option.bind_some, closing?_eq]
  cases stringBody c rest with
  | none => rfl
  | some body => simp [turnOf, Nat.add_assoc]

theorem name?_append (h : startsName c) (rest : List Char) :
    name? (before ++ c :: rest) (size before) =
      some (turnOf before c rest (lexeme (size before) c rest)) := by
  have htake : (c :: rest).takeWhile continuesName = c :: rest.takeWhile continuesName :=
    List.takeWhile_cons_of_pos (continuesName_of_startsName h)
  have hmore := List.prefix_iff_eq_take.1 (List.takeWhile_prefix continuesName (l := rest))
  rw [name?, skipWhile_append onAscii_continuesName, htake,
    slice?_of_prefix before (htake ▸ List.takeWhile_prefix continuesName),
    lexeme_eq_ok_iff.2 (lexeme?_of_startsName h rest), turnOf, ← hmore]
  rfl

theorem mark?_append (hnumber : startsNumber (c :: rest) = false) (hquote : isQuote c = false)
    (hname : startsName c = false) : mark? (before ++ c :: rest) (size before) =
      some (turnOf before c rest (lexeme (size before) c rest)) := by
  rw [mark?, from?_append, lexeme_of_not _ hnumber hquote hname, Option.bind_eq_bind,
    Option.bind_some, findM?_fits, Option.bind_eq_bind, Option.bind_some]
  cases hfind : Mark.find? (c :: rest) with
  | none => rfl
  | some m =>
    have hpart := cons_take_of_prefix (toList_text_ne_nil m) (text_prefix_of_find? hfind)
    rw [String.length_toList] at hpart
    dsimp only [turnOf]
    rw [hpart, size_append, size_toList]

/-- **A turn at a character finds what is found there character by character.** -/
theorem turn?_append (c : Char) (rest : List Char) :
    turn? (before ++ c :: rest) (size before) = some (turnAt before c rest) := by
  have his {p : Char → Bool} (hp : OnAscii p) :
      byteIs (before ++ c :: rest) p (size before) = p c := byteIs_append hp before (c :: rest)
  have hstarts : (byteIs (before ++ c :: rest) Char.isDigit (size before) ||
      (byteIs (before ++ c :: rest) (· = '.') (size before) &&
        byteIs (before ++ c :: rest) Char.isDigit (size before + 1))) =
      startsNumber (c :: rest) := by
    rw [his onAscii_isDigit, his (onAscii_eq (by decide)), startsNumber_cons]
    by_cases hdot : c = '.'
    · have hnext : size before + 1 = size (before ++ [c]) := by
        subst hdot
        rw [size_append]
        rfl
      rw [hnext, List.append_cons, byteIs_append onAscii_isDigit]
    · simp [hdot]
  rw [turn?, his onAscii_isSpace, hstarts, his (onAscii_eq (by decide)),
    his (onAscii_eq (by decide)), his onAscii_startsName, turnAt]
  cases isSpace c with
  | true => rfl
  | false =>
    cases hnumber : startsNumber (c :: rest) with
    | true => exact number?_append before hnumber
    | false =>
      by_cases hdouble : c = '"'
      · subst hdouble
        exact string?_append before (by decide) rest
      · by_cases hsingle : c = '\''
        · subst hsingle
          exact string?_append before (by decide) rest
        · rw [decide_eq_false hdouble, decide_eq_false hsingle]
          cases hname : startsName c with
          | true => exact name?_append before hname rest
          | false =>
            have hquote : isQuote c = false := by simp [isQuote, hdouble, hsingle]
            exact mark?_append before hnumber hquote hname

end

end

end SchemaCanvas.Token.Cursor
