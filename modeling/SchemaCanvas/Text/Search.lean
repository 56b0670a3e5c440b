/-!
# Occurrences in a text

`Text.cut sep text` splits a text at the first occurrence of `sep`. Position, replacement and
splitting are read off it, so all of them see the same occurrences. Positions count characters.
-/

namespace SchemaCanvas.Text

/-- The text before and after the first occurrence of `sep`. -/
def cut (sep : List Char) : List Char → Option (List Char × List Char)
  | [] => if sep.isEmpty then some ([], []) else none
  | c :: cs =>
    if sep.isPrefixOf (c :: cs) then some ([], (c :: cs).drop sep.length)
    else (cut sep cs).map fun (before, after) => (c :: before, after)

theorem eq_of_cut {sep text before after : List Char} (h : cut sep text = some (before, after)) :
    text = before ++ sep ++ after := by
  induction text generalizing before after with
  | nil =>
    simp only [cut, List.isEmpty_iff] at h
    split at h
    · simp_all
    · simp at h
  | cons c cs ih =>
    rw [cut] at h
    split at h
    · next hp =>
      obtain ⟨rest, hrest⟩ := List.isPrefixOf_iff_prefix.1 hp
      simp only [Option.some.injEq, Prod.mk.injEq] at h
      rw [← h.1, ← h.2, ← hrest]
      simp
    · simp only [Option.map_eq_some_iff, Prod.mk.injEq] at h
      obtain ⟨⟨b, a⟩, hcut, hb, ha⟩ := h
      rw [← hb, ← ha, ih hcut]
      simp

theorem length_lt_of_cut {sep text before after : List Char} (hs : sep ≠ [])
    (h : cut sep text = some (before, after)) : after.length < text.length := by
  have := List.length_pos_iff.2 hs
  rw [eq_of_cut h]
  simp only [List.length_append]
  omega

/-- `sep` occurs in the text. -/
def contains (sep text : List Char) : Bool := (cut sep text).isSome

/-- The position of the first occurrence. -/
def position? (sep text : List Char) : Option Nat := (cut sep text).map fun p => p.1.length

/-- Replace the first occurrence. -/
def replaceFirst (sep new text : List Char) : List Char :=
  match cut sep text with
  | some (before, after) => before ++ new ++ after
  | none => text

/-- The pieces between the occurrences of a separator; without a separator, the characters. -/
def split (sep text : List Char) : List (List Char) :=
  if _ : sep = [] then text.map ([·])
  else
    match _ : cut sep text with
    | none => [text]
    | some (before, after) => before :: split sep after
termination_by text.length
decreasing_by exact length_lt_of_cut ‹_› ‹_›

/-- `sep` stands at the end of the text. -/
def endsWith (sep text : List Char) : Bool := sep.isSuffixOf text

end SchemaCanvas.Text
