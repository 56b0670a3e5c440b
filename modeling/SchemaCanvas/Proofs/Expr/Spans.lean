import SchemaCanvas.Proofs.Expr.Cursor

/-!
# The bytes of a scanned text

Every byte of a text that is scanned belongs to one token or is white space between tokens. The
cursor moves over the whole text and stands between characters after each turn, so no turn asks for
a part of the text that is not there, and the turns end. A fault is reported where a turn began.

* `Token.Cursor.run?` : turns of the cursor, none if they do not suffice or one of them fails;
* `Token.Cursor.Accounts` : spans that account for the bytes of a text;
* `Token.Cursor.accounted_scan` : scanning accounts for every byte.
-/

namespace SchemaCanvas.Token

open Text

/-- A token and the byte offsets between which it stands. -/
structure Span where
  token : Token
  start : Nat
  stop : Nat

/-- The token at the offset where it starts. -/
def Span.placed (s : Span) : PlacedToken := ⟨s.token, s.start⟩

/-! ### Scanning by characters -/

section

variable {offset more : Nat} {c : Char} {cs rest : List Char} {t : Token} {e : SyntaxError}

theorem offset_of_lexeme (h : lexeme offset c rest = .error e) : e.offset = offset := by
  unfold lexeme at h
  dsimp only at h
  split at h
  · cases hread : Numeral.read? (numberPart (c :: rest)) <;> rw [hread] at h <;> cases h
    rfl
  · split at h
    · cases hbody : stringBody c rest <;> rw [hbody] at h <;> cases h
      rfl
    · split at h
      · cases h
      · cases hfind : Mark.find? (c :: rest) <;> rw [hfind] at h <;> cases h
        rfl

theorem scanFrom_length_append (offset : Nat) (cs rest : List Char) :
    scanFrom offset cs.length (cs ++ rest) = scanFrom (offset + size cs) 0 rest := by
  induction cs generalizing offset with
  | nil => rfl
  | cons c cs ih =>
    change scanFrom (offset + c.utf8Size) cs.length (cs ++ rest) = _
    rw [ih, size_cons, Nat.add_assoc]

theorem scanFrom_of_isSpace (offset : Nat) (hspace : isSpace c) (rest : List Char) :
    scanFrom offset 0 (c :: rest) = scanFrom (offset + c.utf8Size) 0 rest := by
  rw [scanFrom, if_pos hspace]

theorem scanFrom_of_error (hspace : isSpace c = false) (h : lexeme offset c rest = .error e) :
    scanFrom offset 0 (c :: rest) = .error e := by
  rw [scanFrom, hspace, h]
  rfl

/-- **A token, and what follows its characters.** -/
theorem scanFrom_of_ok (hspace : isSpace c = false)
    (h : lexeme offset c (cs ++ rest) = .ok (t, cs.length)) :
    scanFrom offset 0 (c :: (cs ++ rest)) =
      (scanFrom (offset + size (c :: cs)) 0 rest).map (⟨t, offset⟩ :: ·) := by
  rw [scanFrom, hspace, h]
  change (scanFrom (offset + c.utf8Size) cs.length (cs ++ rest)).bind _ = _
  rw [scanFrom_length_append, Nat.add_assoc, ← size_cons]
  cases scanFrom (offset + size (c :: cs)) 0 rest <;> rfl

/-- The characters of a token are a text with this token only. -/
theorem scan_of_lexeme? (hspace : isSpace c = false) (h : lexeme? c cs = some (t, cs.length)) :
    scan (c :: cs) = .ok [⟨t, 0⟩] := by
  have hlexeme : lexeme 0 c (cs ++ []) = .ok (t, cs.length) := by
    rw [List.append_nil]
    exact lexeme_eq_ok_iff.2 h
  have hscan := scanFrom_of_ok hspace hlexeme
  rwa [List.append_nil] at hscan

end

namespace Cursor

/-! ### Turns -/

/-- The tokens from a position on, with at most so many turns. None if the turns do not suffice, or
if one of them asks for a part of the text that is not there. -/
def run? (text : List Char) : Nat → Nat → Option (Except SyntaxError (List Span))
  | 0, i => if i < size text then none else some (.ok [])
  | turns + 1, i =>
    if i < size text then do
      match ← turn? text i with
      | .space => run? text turns (i + 1)
      | .token t stop =>
        let later ← run? text turns stop
        some (later.map (⟨t, i, stop⟩ :: ·))
      | .fault e => some (.error e)
    else some (.ok [])

/-- Spans account for the bytes of a text from a position on. They have bytes, stand one behind the
other between characters, and hold the characters of their tokens; and what is outside of all of
them is white space. -/
structure Accounts (text : List Char) (first : Nat) (spans : List Span) : Prop where
  first_le : ∀ s ∈ spans, first ≤ s.start
  nonempty : ∀ s ∈ spans, s.start < s.stop
  ordered : spans.Pairwise fun s s' => s.stop ≤ s'.start
  boundary : ∀ s ∈ spans, IsBoundary text s.start ∧ IsBoundary text s.stop
  reads : ∀ s ∈ spans, ∃ part, slice? s.start s.stop text = some part ∧
    scan part = .ok [⟨s.token, 0⟩]
  blank : ∀ i, first ≤ i → i < size text → (∀ s ∈ spans, i < s.start ∨ s.stop ≤ i) →
    byteIs text isSpace i

/-- What is found accounts for a text: spans do, and a fault stands at a character of it. -/
def Accounted (text : List Char) (first : Nat) : Except SyntaxError (List Span) → Prop
  | .ok spans => Accounts text first spans
  | .error e => IsBoundary text e.offset ∧ e.offset < size text

section

variable {text : List Char} {first stop : Nat} {spans : List Span} {t : Token}

theorem accounts_nil (h : size text ≤ first) : Accounts text first [] where
  first_le := nofun
  nonempty := nofun
  ordered := .nil
  boundary := nofun
  reads := nofun
  blank _ hfirst hi := absurd (Nat.le_trans h hfirst) (Nat.not_le.2 hi)

theorem Accounts.space (hspace : byteIs text isSpace first) (h : Accounts text (first + 1) spans) :
    Accounts text first spans where
  first_le s hs := Nat.le_of_succ_le (h.first_le s hs)
  nonempty := h.nonempty
  ordered := h.ordered
  boundary := h.boundary
  reads := h.reads
  blank i hfirst hi hout := by
    obtain rfl | hlt := Nat.eq_or_lt_of_le hfirst
    · exact hspace
    · exact h.blank i hlt hi hout

theorem Accounts.cons {part : List Char} (hpos : first < stop)
    (hslice : slice? first stop text = some part) (hscan : scan part = .ok [⟨t, 0⟩])
    (h : Accounts text stop spans) : Accounts text first (⟨t, first, stop⟩ :: spans) where
  first_le := List.forall_mem_cons.2
    ⟨Nat.le_refl _, fun s hs => Nat.le_trans (Nat.le_of_lt hpos) (h.first_le s hs)⟩
  nonempty := List.forall_mem_cons.2 ⟨hpos, h.nonempty⟩
  ordered := .cons h.first_le h.ordered
  boundary := List.forall_mem_cons.2 ⟨isBoundary_of_slice? hslice, h.boundary⟩
  reads := List.forall_mem_cons.2 ⟨⟨part, hslice, hscan⟩, h.reads⟩
  blank i hfirst hi hout := by
    obtain ⟨hlt | hle, hout⟩ := List.forall_mem_cons.1 hout
    · exact absurd hfirst (Nat.not_le.2 hlt)
    · exact h.blank i hle hi hout

theorem Accounted.space {result : Except SyntaxError (List Span)}
    (hspace : byteIs text isSpace first) (h : Accounted text (first + 1) result) :
    Accounted text first result := by
  cases result with
  | ok spans => exact Accounts.space hspace h
  | error e => exact h

theorem Accounted.cons {part : List Char} {result : Except SyntaxError (List Span)}
    (hpos : first < stop) (hslice : slice? first stop text = some part)
    (hscan : scan part = .ok [⟨t, 0⟩]) (h : Accounted text stop result) :
    Accounted text first (result.map (⟨t, first, stop⟩ :: ·)) := by
  cases result with
  | ok spans => exact Accounts.cons hpos hslice hscan h
  | error e => exact h

end

/-! ### Runs -/

section

variable {before cs rest : List Char} {c : Char} {turns : Nat}

theorem turnAt_of_isSpace (hspace : isSpace c) : turnAt before c rest = .space := if_pos hspace

theorem turnAt_of_error {e : SyntaxError} (hspace : isSpace c = false)
    (h : lexeme (size before) c rest = .error e) : turnAt before c rest = .fault e := by
  rw [turnAt, hspace, h]
  rfl

theorem turnAt_of_ok {t : Token} (hspace : isSpace c = false)
    (h : lexeme (size before) c (cs ++ rest) = .ok (t, cs.length)) :
    turnAt before c (cs ++ rest) = .token t (size (before ++ c :: cs)) := by
  rw [turnAt, hspace, h, if_neg Bool.false_ne_true, turnOf, List.take_left]

theorem run?_nil (before : List Char) (turns : Nat) :
    run? before turns (size before) = some (.ok []) := by
  cases turns with
  | zero => exact if_neg (Nat.lt_irrefl _)
  | succ turns => exact if_neg (Nat.lt_irrefl _)

theorem run?_cons (before : List Char) (c : Char) (rest : List Char) (turns : Nat) :
    run? (before ++ c :: rest) (turns + 1) (size before) =
      match turnAt before c rest with
      | .space => run? (before ++ c :: rest) turns (size before + 1)
      | .token t stop => (run? (before ++ c :: rest) turns stop).map
          fun later => later.map (⟨t, size before, stop⟩ :: ·)
      | .fault e => some (.error e) := by
  have hlt : size before < size (before ++ c :: rest) := by
    have := c.utf8Size_pos
    rw [size_append, size_cons]
    omega
  rw [run?, if_pos hlt, turn?_append]
  change (match turnAt before c rest with | .space => _ | .token t stop => _ | .fault e => _) = _
  cases turnAt before c rest with
  | space => rfl
  | token t stop =>
    dsimp only
    cases run? (before ++ c :: rest) turns stop <;> rfl
  | fault e => rfl

theorem exists_run?_nil (before : List Char) (turns : Nat) : ∃ result,
    run? (before ++ []) turns (size before) = some result ∧
      scanFrom (size before) 0 [] = result.map (·.map Span.placed) ∧
      Accounted (before ++ []) (size before) result := by
  rw [List.append_nil]
  exact ⟨.ok [], run?_nil before turns, rfl, accounts_nil (Nat.le_refl _)⟩

/-- **A run over the rest of a text:** it ends, finds what is found character by character, and
accounts for every byte. -/
theorem exists_run? (before : List Char) (h : size cs ≤ turns) : ∃ result,
    run? (before ++ cs) turns (size before) = some result ∧
      scanFrom (size before) 0 cs = result.map (·.map Span.placed) ∧
      Accounted (before ++ cs) (size before) result := by
  -- each turn takes a byte at least, so as many turns as bytes suffice
  induction turns generalizing before cs with
  | zero =>
    cases cs with
    | nil => exact exists_run?_nil before 0
    | cons c rest =>
      have := c.utf8Size_pos
      rw [size_cons] at h
      omega
  | succ turns ih =>
    cases cs with
    | nil => exact exists_run?_nil before (turns + 1)
    | cons c rest =>
      have hpos := c.utf8Size_pos
      rw [size_cons] at h
      rw [run?_cons]
      cases hspace : isSpace c with
      | true =>
        have hone : c.utf8Size = 1 := utf8Size_of_onAscii onAscii_isSpace hspace
        have hnext : size (before ++ [c]) = size before + 1 := by simp [hone]
        have hbyte : byteIs (before ++ c :: rest) isSpace (size before) := by
          rw [byteIs_append onAscii_isSpace]
          exact hspace
        have hrest : size rest ≤ turns := by omega
        obtain ⟨result, hrun, hscan, haccounted⟩ := ih (before ++ [c]) hrest
        rw [← List.append_cons, hnext] at hrun haccounted
        rw [hnext] at hscan
        rw [turnAt_of_isSpace hspace, scanFrom_of_isSpace _ hspace, hone, hscan]
        exact ⟨result, hrun, rfl, haccounted.space hbyte⟩
      | false =>
        cases hlexeme : lexeme (size before) c rest with
        | error e =>
          rw [turnAt_of_error hspace hlexeme, scanFrom_of_error hspace hlexeme]
          refine ⟨.error e, rfl, rfl, ?_⟩
          rw [Accounted, offset_of_lexeme hlexeme, size_append, size_cons]
          exact ⟨isBoundary_append _ _, by omega⟩
        | ok next =>
          obtain ⟨t, more⟩ := next
          have hle := le_length_of_lexeme? (lexeme_eq_ok_iff.1 hlexeme)
          have hown := lexeme?_take (lexeme_eq_ok_iff.1 hlexeme)
          -- the characters of the token, and the text that is left behind it
          obtain ⟨part, left, rfl, rfl⟩ : ∃ part left, rest = part ++ left ∧ more = part.length :=
            ⟨rest.take more, rest.drop more, (List.take_append_drop _ _).symm,
              (List.length_take_of_le hle).symm⟩
          rw [List.take_left] at hown
          have hslice : slice? (size before) (size (before ++ c :: part))
              (before ++ c :: (part ++ left)) = some (c :: part) :=
            slice?_of_prefix before ⟨left, rfl⟩
          have hlt : size before < size (before ++ c :: part) := by
            rw [size_append, size_cons]
            omega
          have hleft : size left ≤ turns := by
            rw [size_append] at h
            omega
          obtain ⟨result, hrun, hscan, haccounted⟩ := ih (before ++ c :: part) hleft
          rw [List.append_assoc, List.cons_append] at hrun haccounted
          rw [turnAt_of_ok hspace hlexeme, scanFrom_of_ok hspace hlexeme, ← size_append, hscan]
          refine ⟨_, congrArg (Option.map _) hrun, ?_,
            haccounted.cons hlt hslice (scan_of_lexeme? hspace hown)⟩
          cases result <;> rfl

/-- **Scanning accounts for every byte of a text.** The cursor comes to an end in at most as many
turns as the text has bytes, and no turn begins or ends a part inside a character. What it finds are
the tokens at the places where they start, or the fault. -/
theorem accounted_scan (text : String) : ∃ result,
    run? text.toList text.utf8ByteSize 0 = some result ∧
      scan text.toList = result.map (·.map Span.placed) ∧
      Accounted text.toList 0 result :=
  exists_run? [] (Nat.le_of_eq (size_toList text))

end

end Cursor

end SchemaCanvas.Token
