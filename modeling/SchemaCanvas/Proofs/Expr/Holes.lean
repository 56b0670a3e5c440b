import SchemaCanvas.Proofs.Expr.Segments
import Mathlib.Data.List.DropRight

/-!
# Filled holes

A hole for an expression is filled with the text of its value. The expression is trimmed when it is
taken from the hole and again when it is read, which makes no difference.

* `Template.fill_expr` : a hole for an expression that has a value;
* `Template.interpolate_hole` : a text that is nothing but such a hole.
-/

namespace SchemaCanvas

namespace Text

theorem trimmed_of_forall {cs : List Char} (h : ∀ c ∈ cs, isBlank c = false) :
    trimmed cs = cs := by
  have hdrop {cs : List Char} (h : ∀ c ∈ cs, isBlank c = false) : cs.dropWhile isBlank = cs := by
    cases cs with
    | nil => rfl
    | cons c cs => exact List.dropWhile_cons_of_neg (Bool.eq_false_iff.1 (h c List.mem_cons_self))
  have hreverse : ∀ c ∈ cs.reverse, isBlank c = false := fun c hc => h c (List.mem_reverse.1 hc)
  rw [trimmed, trimLeft, hdrop h, trimRight, hdrop hreverse, List.reverse_reverse]

theorem trimmed_trimmed (cs : List Char) : trimmed (trimmed cs) = trimmed cs := by
  -- the text that is left begins as the text without leading blanks does
  have hleft : trimLeft (trimmed cs) = trimmed cs := by
    obtain ⟨rest, hrest⟩ : trimmed cs <+: trimLeft cs := List.rdropWhile_prefix isBlank _
    cases h : trimmed cs with
    | nil => rfl
    | cons c kept =>
      rw [h] at hrest
      have hhead : isBlank c = false := by
        have := List.head_dropWhile_not isBlank (l := cs)
        change ∀ w : trimLeft cs ≠ [], isBlank ((trimLeft cs).head w) = false at this
        rw [← hrest] at this
        exact this (List.cons_ne_nil _ _)
      exact List.dropWhile_cons_of_neg (Bool.eq_false_iff.1 hhead)
  rw [trimmed, hleft, trimmed]
  exact List.rdropWhile_idempotent isBlank _

@[simp]
theorem trim_trim (s : String) : trim (trim s) = trim s := by
  rw [trim, trim, String.toList_ofList, trimmed_trimmed]

end Text

namespace Expr

variable {text : String} {context : Json} {v : Value}

theorem evaluate_trim (text : String) (context : Json) :
    evaluate (Text.trim text) context = evaluate text context := by
  rw [evaluate, evaluate, Text.trim_trim]

theorem trim_ne_empty (h : evaluate text context = .ok v) : Text.trim text ≠ "" := by
  intro hempty
  rw [evaluate, hempty] at h
  cases h

end Expr

namespace Template

/-- **A hole for an expression that has a value is filled with its text.** -/
theorem fill_expr {e : List Char} {context : Json} {v : Json}
    (h : Expr.evaluate (String.ofList e) context = .ok (some v)) :
    (Segment.expr e).fill context = Value.text (some v) := by
  have htrim : String.ofList (Text.trimmed e) = Text.trim (String.ofList e) := by
    rw [Text.trim, String.toList_ofList]
  have hne := Expr.trim_ne_empty h
  rw [Segment.fill, htrim, exprText, if_neg (by simpa using hne), Expr.evaluate_trim, h]

variable {x : String}

theorem Enclosable.of_notMem (h : '\x7d' ∉ x.toList) (h' : '\n' ∉ x.toList) :
    Enclosable x.toList where
  line := h'
  braces hpart := h (hpart.subset List.mem_cons_self)
  last hlast := h (List.mem_of_getLast? hlast)

/-- A text that is nothing but a hole for an expression. -/
theorem segments_hole (h : '\x7d' ∉ x.toList) (h' : '\n' ∉ x.toList) :
    segments ("\x7b\x7b" ++ x ++ "\x7d\x7d") = [.expr x.toList] :=
  segments_write (.expr x (.of_notMem h h'))

theorem hasHole_hole (h : '\x7d' ∉ x.toList) (h' : '\n' ∉ x.toList) :
    hasHole ("\x7b\x7b" ++ x ++ "\x7d\x7d") := by
  rw [hasHole, segments_hole h h']
  rfl

/-- **A text that is nothing but a hole becomes the text of the value.** -/
theorem interpolate_hole {context v : Json} (h : '\x7d' ∉ x.toList) (h' : '\n' ∉ x.toList)
    (hvalue : Expr.evaluate x context = .ok (some v)) :
    interpolate ("\x7b\x7b" ++ x ++ "\x7d\x7d") context = Value.text (some v) := by
  rw [← String.ofList_toList (s := x)] at hvalue
  rw [interpolate, segments_hole h h', List.map_singleton, fill_expr hvalue]
  simp [String.join]

end Template

end SchemaCanvas
