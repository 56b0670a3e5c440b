import SchemaCanvas.Schema.PropValue
import SchemaCanvas.Proofs.Text.Occurrence
import Mathlib.Data.String.Basic

/-!
# Templates piece by piece

A template that is put together from plain texts and holes is taken apart at the same places, and
each hole is filled as if it stood alone. What is filled in is not read again, so it may look like a
hole itself.

A hole for a path ends at the first closing brace, and a hole for an expression at the first two.
So the text in a hole must not have these, and a text in a hole for an expression must not end with
a brace, which would be taken for the first of the two behind it.

* `Template.Piece` : plain texts and holes;
* `Template.segments_join` : a template is taken apart into its pieces;
* `Template.interpolate_join` : it is filled piece by piece, and a text in a schema is filled
  whether or not it has a hole.
-/

namespace SchemaCanvas

namespace Template

/-! ### Pieces -/

/-- A text for a hole for an expression: on one line, without two closing braces in a row, and
without one at its end. -/
structure Enclosable (e : List Char) : Prop where
  line : '\n' ∉ e
  braces : ¬ ['\x7d', '\x7d'] <:+: e
  last : e.getLast? ≠ some '\x7d'

/-- A piece of a template. -/
inductive Piece where
  /-- a text in which no hole begins -/
  | text (s : String) (dollar : '$' ∉ s.toList) (brace : '\x7b' ∉ s.toList)
  /-- a hole for the value at a dot path -/
  | path (p : String) (brace : '\x7d' ∉ p.toList)
  /-- a hole for the value of an expression -/
  | expr (e : String) (enclosable : Enclosable e.toList)

namespace Piece

/-- The text of a piece. -/
def write : Piece → String
  | text s _ _ => s
  | path p _ => "$\x7b" ++ p ++ "\x7d"
  | expr e _ => "\x7b\x7b" ++ e ++ "\x7d\x7d"

/-- The segments of a piece: its characters, or one hole. -/
def segments : Piece → List Segment
  | text s _ _ => s.toList.map .char
  | path p _ => [.path p.toList]
  | expr e _ => [.expr e.toList]

/-- A piece by itself in a context. A plain text stays, and a hole is filled. -/
def filled (context : Json) : Piece → String
  | text s _ _ => s
  | path p h => interpolate (path p h).write context
  | expr e h => interpolate (expr e h).write context

end Piece

/-! ### Where a hole ends -/

theorem Enclosable.tail {c : Char} {e : List Char} (h : Enclosable (c :: e)) : Enclosable e where
  line hmem := h.line (List.mem_cons_of_mem c hmem)
  braces hpart := h.braces (hpart.trans (List.suffix_cons c e).isInfix)
  last hlast := h.last (by
    cases e with
    | nil => cases hlast
    | cons => rwa [List.getLast?_cons_cons])

/-- The first two closing braces are those behind the text of the hole. -/
theorem untilClose_append {e : List Char} (h : Enclosable e) (rest : List Char) :
    untilClose (e ++ '\x7d' :: '\x7d' :: rest) = some e := by
  induction e with
  | nil => rfl
  | cons c e ih =>
    have hline : c ≠ '\n' := by
      rintro rfl
      exact h.line List.mem_cons_self
    -- a brace in the text has something else behind it, so it closes nothing
    have hopen : ∀ behind, c = '\x7d' → e ++ '\x7d' :: '\x7d' :: rest ≠ '\x7d' :: behind := by
      rintro behind rfl heq
      cases e with
      | nil => exact h.last rfl
      | cons d e =>
        cases (List.cons_eq_cons.1 heq).1
        exact h.braces (List.prefix_append _ e).isInfix
    rw [List.cons_append, untilClose, if_neg hline, ih h.tail]
    · rfl
    · exact hopen

theorem takeWhile_append {p : List Char} (h : '\x7d' ∉ p) (rest : List Char) :
    (p ++ '\x7d' :: rest).takeWhile (· ≠ '\x7d') = p := by
  rw [List.takeWhile_append_of_pos]
  · simp
  · intro c hc
    simp only [ne_eq, decide_eq_true_eq]
    rintro rfl
    exact h hc

theorem segmentsFrom_append (cs rest : List Char) :
    segmentsFrom cs.length (cs ++ rest) = segmentsFrom 0 rest := by
  induction cs with
  | nil => rfl
  | cons c cs ih => exact ih

theorem segmentsFrom_text {cs : List Char} (hdollar : '$' ∉ cs) (hbrace : '\x7b' ∉ cs)
    (rest : List Char) : segmentsFrom 0 (cs ++ rest) = cs.map .char ++ segmentsFrom 0 rest := by
  induction cs with
  | nil => rfl
  | cons c cs ih =>
    simp only [List.mem_cons, not_or] at hdollar hbrace
    have hhole : hole? (c :: (cs ++ rest)) = none := by
      rw [hole?]
      · intro _ heq
        exact hdollar.1 (List.cons_eq_cons.1 heq).1.symm
      · intro _ heq
        exact hbrace.1 (List.cons_eq_cons.1 heq).1.symm
    rw [List.cons_append, segmentsFrom, hhole, ih hdollar.2 hbrace.2]
    rfl

theorem segmentsFrom_hole {cs rest : List Char} {hole : Segment} (hne : cs ≠ [])
    (h : hole? (cs ++ rest) = some (hole, cs.length)) :
    segmentsFrom 0 (cs ++ rest) = hole :: segmentsFrom 0 rest := by
  cases cs with
  | nil => exact absurd rfl hne
  | cons c cs =>
    rw [List.cons_append] at h ⊢
    rw [segmentsFrom, h]
    exact congrArg (hole :: ·) (segmentsFrom_append cs rest)

/-- **A piece ends where it was written to end,** whatever follows. -/
theorem segmentsFrom_piece (piece : Piece) (rest : List Char) :
    segmentsFrom 0 (piece.write.toList ++ rest) = piece.segments ++ segmentsFrom 0 rest := by
  cases piece with
  | text s hdollar hbrace => exact segmentsFrom_text hdollar hbrace rest
  | path p h =>
    refine segmentsFrom_hole (by simp [Piece.write]) ?_
    have htext : (Piece.path p h).write.toList ++ rest =
        '$' :: '\x7b' :: (p.toList ++ '\x7d' :: rest) := by
      simp [Piece.write, String.toList_append]
    rw [htext, hole?]
    simp only [takeWhile_append h]
    rw [if_pos (by simp)]
    simp [Piece.write]
  | expr e h =>
    refine segmentsFrom_hole (by simp [Piece.write]) ?_
    have htext : (Piece.expr e h).write.toList ++ rest =
        '\x7b' :: '\x7b' :: (e.toList ++ '\x7d' :: '\x7d' :: rest) := by
      simp [Piece.write, String.toList_append]
    rw [htext, hole?, untilClose_append h]
    simp [Piece.write]

/-! ### Whole templates -/

/-- **A template is taken apart into its pieces,** and every hole of it is one segment. -/
theorem segments_join (pieces : List Piece) :
    segments (String.join (pieces.map Piece.write)) = pieces.flatMap Piece.segments := by
  rw [segments, String.toList_join, List.flatMap_map]
  induction pieces with
  | nil => rfl
  | cons piece rest ih =>
    rw [List.flatMap_cons, segmentsFrom_piece, ih, List.flatMap_cons]

theorem segments_write (piece : Piece) : segments piece.write = piece.segments := by
  have := segments_join [piece]
  simpa [String.join_cons, String.join_nil] using this

theorem join_fill_char (context : Json) (cs : List Char) :
    String.join ((cs.map Segment.char).map (Segment.fill context)) = String.ofList cs := by
  refine String.toList_inj.1 ?_
  rw [String.toList_join, List.map_map, List.flatMap_map, String.toList_ofList]
  have hchar : ∀ c, ((Segment.fill context ∘ Segment.char) c).toList = [c] := by
    intro c
    simp [Segment.fill]
  simp only [hchar, List.flatMap_singleton']

theorem join_fill_segments (context : Json) (piece : Piece) :
    String.join (piece.segments.map (Segment.fill context)) = piece.filled context := by
  cases piece with
  | text s hdollar hbrace =>
    rw [Piece.segments, join_fill_char, String.ofList_toList]
    rfl
  | path p h => rw [Piece.filled, interpolate, segments_write]
  | expr e h => rw [Piece.filled, interpolate, segments_write]

theorem filled_path (context : Json) (p : String) (h : '\x7d' ∉ p.toList) :
    (Piece.path p h).filled context = Value.text (Json.atPath? p context) := by
  rw [← join_fill_segments]
  simp [Piece.segments, Segment.fill, String.join_cons, String.join_nil]

theorem filled_expr (context : Json) (e : String) (h : Enclosable e.toList) :
    (Piece.expr e h).filled context = exprText (Text.trim e) context := by
  rw [← join_fill_segments]
  simp [Piece.segments, Segment.fill, Text.trim, String.join_cons, String.join_nil]

/-! ### Texts without holes -/

theorem isHole_of_hole? {cs : List Char} {hole : Segment} {length : Nat}
    (h : hole? cs = some (hole, length)) : hole.isHole := by
  unfold hole? at h
  split at h
  · dsimp only at h
    split at h
    · cases h
      rfl
    · cases h
  · obtain ⟨_, _, heq⟩ := Option.map_eq_some_iff.1 h
    cases heq
    rfl
  · cases h

theorem segmentsFrom_of_not_isHole {cs : List Char}
    (h : (segmentsFrom 0 cs).any Segment.isHole = false) : segmentsFrom 0 cs = cs.map .char := by
  induction cs with
  | nil => rfl
  | cons c cs ih =>
    rw [segmentsFrom] at h ⊢
    cases hhole : hole? (c :: cs) with
    | none =>
      rw [hhole] at h
      exact congrArg (Segment.char c :: ·) (ih (by simpa [Segment.isHole] using h))
    | some found =>
      rw [hhole] at h
      simp [isHole_of_hole? hhole] at h

theorem interpolate_of_not_hasHole {s : String} (h : hasHole s = false) (context : Json) :
    interpolate s context = s := by
  rw [interpolate, segments, segmentsFrom_of_not_isHole h, join_fill_char, String.ofList_toList]

theorem contains_of_isPrefixOf {sep cs : List Char} (h : sep.isPrefixOf cs) :
    Text.contains sep cs :=
  Text.isSome_cut_iff.2 (List.isPrefixOf_iff_prefix.1 h).isInfix

theorem contains_cons {sep cs : List Char} (c : Char) (h : Text.contains sep cs) :
    Text.contains sep (c :: cs) :=
  Text.isSome_cut_iff.2 (List.infix_cons (Text.isSome_cut_iff.1 h))

/-- A text in which a hole may begin. -/
def mayHaveHole (cs : List Char) : Bool :=
  Text.contains ['$', '\x7b'] cs || Text.contains ['\x7b', '\x7b'] cs

theorem mayHaveHole_of_hole? {cs : List Char} {found : Segment × Nat} (h : hole? cs = some found) :
    mayHaveHole cs := by
  unfold hole? at h
  split at h
  · exact Bool.or_eq_true_iff.2 (.inl (contains_of_isPrefixOf rfl))
  · exact Bool.or_eq_true_iff.2 (.inr (contains_of_isPrefixOf rfl))
  · cases h

/-- A text with a hole has the beginning of one. -/
theorem mayHaveHole_of_isHole {skip : Nat} {cs : List Char}
    (h : (segmentsFrom skip cs).any Segment.isHole) : mayHaveHole cs := by
  have hcons {c : Char} {cs : List Char} (h : mayHaveHole cs) : mayHaveHole (c :: cs) := by
    rw [mayHaveHole, Bool.or_eq_true] at h ⊢
    exact h.imp (contains_cons c) (contains_cons c)
  induction cs generalizing skip with
  | nil => cases skip <;> cases h
  | cons c cs ih =>
    cases skip with
    | succ skip => exact hcons (ih h)
    | zero =>
      rw [segmentsFrom] at h
      cases hhole : hole? (c :: cs) with
      | none =>
        rw [hhole] at h
        exact hcons (ih (by simpa [Segment.isHole] using h))
      | some found => exact mayHaveHole_of_hole? hhole

theorem resolve_text (s : String) (context : Json) (transforms : Transforms) :
    (PropValue.literal (.str s)).resolve context transforms =
      some (.str (interpolate s context)) := by
  rw [PropValue.resolve, PropValue.resolveLiteral]
  split
  · rfl
  · next hnone => rw [interpolate_of_not_hasHole (Bool.eq_false_iff.2 hnone)]

/-- **A template is filled piece by piece.** Plain texts stay, and each hole is filled as it is by
itself, with the value at its path or with the value of its expression, whatever that looks like. A
text in a schema is filled in the same way: neither looking for a hole before it is filled nor
looking for the beginning of one before that makes a difference. -/
theorem interpolate_join (context : Json) :
    (∀ pieces : List Piece,
      segments (String.join (pieces.map Piece.write)) = pieces.flatMap Piece.segments ∧
      interpolate (String.join (pieces.map Piece.write)) context =
        String.join (pieces.map (Piece.filled context))) ∧
    (∀ p h, (Piece.path p h).filled context = Value.text (Json.atPath? p context)) ∧
    (∀ e h, (Piece.expr e h).filled context = exprText (Text.trim e) context) ∧
    ∀ (s : String) (transforms : Transforms),
      (PropValue.literal (.str s)).resolve context transforms =
        some (.str (interpolate s context)) ∧
      (mayHaveHole s.toList && hasHole s) = hasHole s := by
  refine ⟨fun pieces => ⟨segments_join pieces, ?_⟩, filled_path context, filled_expr context, ?_⟩
  · rw [interpolate, segments_join, List.map_flatMap]
    induction pieces with
    | nil => rfl
    | cons piece rest ih =>
      rw [List.flatMap_cons, String.join_append, join_fill_segments, ih, List.map_cons,
        String.join_cons]
  · intro s transforms
    refine ⟨resolve_text s context transforms, ?_⟩
    rw [Bool.and_eq_right_iff_imp]
    exact mayHaveHole_of_isHole

/-- What looks like a hole in the text of a hole stays. -/
example : interpolate "$\x7ba\x7d or \x7b\x7ba\x7d\x7d" (.obj [("a", .str "$\x7ba\x7d")]) =
    "$\x7ba\x7d or $\x7ba\x7d" := by decide +kernel

end Template

end SchemaCanvas
