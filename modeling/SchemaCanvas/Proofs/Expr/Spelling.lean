import SchemaCanvas.Proofs.Expr.Lexemes
import SchemaCanvas.Proofs.Number.Digits

/-!
# Tokens as they are written

Every identifier, every string, every natural number below `2 ^ 53` and every mark can be written
as a text. Between spaces it is read again as the one token that was written, whatever stands on
the other sides of the spaces: a number does not go on into an exponent, `?.` keeps its point, and
no character of a string closes its quotes.

* `Spelling` : tokens together with the way in which they are written;
* `Spelling.tokens?_text` : a text that begins with a token as it is written;
* `Spelling.scan_intercalate` : tokens that are written between spaces are scanned again.
-/

namespace SchemaCanvas

/-! ### Spellings -/

/-- The quotes in which strings are written. -/
inductive Quote where
  | single | double

/-- The character that opens and closes a string. -/
def Quote.char : Quote → Char
  | single => '\''
  | double => '"'

/-- The characters of a string with a backslash before every backslash and every quote. -/
def Quote.escaped (quote : Quote) (cs : List Char) : List Char :=
  cs.flatMap fun c => if c = '\\' ∨ c = quote.char then ['\\', c] else [c]

/-- A token that is written as a text. A string is written in quotes of either kind. -/
inductive Spelling where
  | ident (name : String) (h : Token.isIdentifier name.toList)
  | string (contents : String) (quote : Quote)
  | natural (n : Nat) (h : n < 2 ^ 53)
  | mark (m : Mark)

namespace Spelling

/-- The token. -/
def token : Spelling → Token
  | ident name _ => .ident name
  | string contents _ => .str contents
  | natural n _ => .num (Float.ofNat n)
  | mark m => .mark m

/-- How it is written. -/
def text : Spelling → String
  | ident name _ => name
  | string contents quote =>
    String.ofList (quote.char :: (quote.escaped contents.toList ++ [quote.char]))
  | natural n _ => toString n
  | mark m => m.text

end Spelling

namespace Token

variable {cs behind : List Char}

theorem isBlank_of_isSpace {c : Char} (h : isSpace c) : Text.isBlank c := by
  simp only [isSpace, Bool.or_eq_true, decide_eq_true_eq] at h
  obtain (((rfl | rfl) | rfl) | rfl) | rfl := h <;> decide

/-! ### Strings -/

/-- **A string ends at its own quote:** none of those before it stands without a backslash. -/
theorem stringBody_escaped (quote : Quote) (cs behind : List Char) :
    stringBody quote.char (quote.escaped cs ++ quote.char :: behind) =
      some (cs, (quote.escaped cs).length + 1) := by
  have hquote : quote.char ≠ '\\' := by cases quote <;> decide
  have hunescaped : unescaped quote.char = quote.char := by cases quote <;> rfl
  induction cs with
  | nil => exact (stringBody_cons hquote).trans (if_pos rfl)
  | cons c cs ih =>
    by_cases hc : c = '\\' ∨ c = quote.char
    · have hsame : unescaped c = c := by
        obtain rfl | rfl := hc
        · rfl
        · exact hunescaped
      have hescaped : quote.escaped (c :: cs) = '\\' :: c :: quote.escaped cs := by
        rw [Quote.escaped, List.flatMap_cons, if_pos hc]
        rfl
      rw [hescaped, List.cons_append, List.cons_append, stringBody, ih, hsame]
      rfl
    · have hescaped : quote.escaped (c :: cs) = c :: quote.escaped cs := by
        rw [Quote.escaped, List.flatMap_cons, if_neg hc]
        rfl
      rw [not_or] at hc
      rw [hescaped, List.cons_append, stringBody_cons hc.1, if_neg hc.2, ih]
      rfl

/-! ### Numbers -/

theorem numberPart_digits (h : ∀ c ∈ cs, c.isDigit) (hbehind : ∀ d ∈ behind.head?, d = ' ') :
    numberPart (cs ++ behind) = cs := by
  induction cs with
  | nil =>
    cases behind with
    | nil => rfl
    | cons d behind =>
      obtain rfl := hbehind d rfl
      exact (numberPart_of_not_inNumber (by decide) behind).trans
        (exponentPart_of_ne (by decide) behind)
  | cons c cs ih =>
    obtain ⟨hc, h⟩ := List.forall_mem_cons.1 h
    rw [List.cons_append, numberPart_cons (by simp [inNumber, hc]), ih h]

end Token

namespace Spelling

open Token

variable {behind : List Char}

/-! ### Reading -/

theorem tokens?_text (w : Spelling) (h : ∀ d ∈ behind.head?, d = ' ') :
    tokens? 0 (w.text.toList ++ behind) = (tokens? 0 behind).map (w.token :: ·) := by
  cases w with
  | ident name hname =>
    have hends : ∀ d ∈ behind.head?, continuesName d = false := by
      intro d hd
      rw [h d hd]
      decide
    have hread := tokens?_identifier hname hends
    rwa [String.ofList_toList] at hread
  | string contents quote =>
    have hspace : isSpace quote.char = false := by cases quote <;> rfl
    have hquote : isQuote quote.char := by cases quote <;> rfl
    have hlexeme : lexeme? quote.char (quote.escaped contents.toList ++ [quote.char] ++ behind) =
        some (.str contents, (quote.escaped contents.toList ++ [quote.char]).length) := by
      rw [lexeme?_of_isQuote hquote, List.append_assoc]
      exact (congrArg (Option.map _) (stringBody_escaped quote contents.toList behind)).trans
        (by simp)
    rw [text, String.toList_ofList]
    exact tokens?_lexeme hspace hlexeme
  | natural n hn =>
    obtain ⟨c, cs, hdigits⟩ := List.exists_cons_of_ne_nil (Numeral.toList_toString_ne_nil n)
    have hall : ∀ d ∈ c :: cs, d.isDigit :=
      fun d hd => Numeral.isDigit_of_mem_toString (hdigits ▸ hd)
    have hc : c.isDigit := hall c List.mem_cons_self
    have hspace : isSpace c = false :=
      Bool.eq_false_iff.2 fun hs => by simpa [isBlank_of_isDigit hc] using isBlank_of_isSpace hs
    have hstart : startsNumber (c :: (cs ++ behind)) := by
      rw [startsNumber_cons, hc, Bool.true_or]
    have hlexeme : lexeme? c (cs ++ behind) = some (.num (Float.ofNat n), cs.length) := by
      rw [lexeme?_of_startsNumber hstart, ← List.cons_append, numberPart_digits hall h, ← hdigits,
        Numeral.read?_toString, hdigits]
      rfl
    rw [text, hdigits]
    exact tokens?_lexeme hspace hlexeme
  | mark m =>
    obtain ⟨c, cs, hmark, hspace, hlexeme⟩ := exists_lexeme?_text m h
    rw [text, hmark]
    exact tokens?_lexeme hspace hlexeme

theorem tokens?_intercalate (ws : List Spelling) :
    tokens? 0 (" ".intercalate (ws.map text)).toList = some (ws.map token) := by
  induction ws with
  | nil => rfl
  | cons w ws ih =>
    cases ws with
    | nil =>
      have hends : ∀ d ∈ ([] : List Char).head?, d = ' ' := nofun
      have hread := w.tokens?_text hends
      rw [List.append_nil] at hread
      rw [List.map_singleton, String.intercalate_singleton, hread]
      rfl
    | cons w' ws =>
      rw [List.map_cons] at ih
      rw [List.map_cons, List.map_cons, String.intercalate_cons_cons, String.toList_append,
        String.toList_append, List.append_assoc, tokens?_text]
      · change (tokens? 0 (" ".intercalate (w'.text :: ws.map text)).toList).map _ = _
        rw [ih]
        rfl
      · rintro d ⟨⟩
        rfl

/-- **Tokens that are written between spaces are scanned again,** each as the one that it was. -/
theorem scan_intercalate (ws : List Spelling) :
    ∃ placed, scan (" ".intercalate (ws.map text)).toList = .ok placed ∧
      placed.map (·.token) = ws.map token := by
  have htokens := tokens?_intercalate ws
  rw [← scanFrom_tokens 0] at htokens
  rw [scan]
  cases hscan : scanFrom 0 0 (" ".intercalate (ws.map text)).toList with
  | error e =>
    rw [hscan] at htokens
    cases htokens
  | ok placed =>
    rw [hscan] at htokens
    exact ⟨placed, rfl, Option.some.inj htokens⟩

end Spelling

end SchemaCanvas
