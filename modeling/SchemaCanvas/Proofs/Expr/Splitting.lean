import SchemaCanvas.Expr.Method
import SchemaCanvas.Proofs.Text.Occurrence
import Mathlib.Data.List.Basic

/-!
# Splitting and joining

A text is split at the occurrences of a separator from the left, each after the end of the one
before, and without a separator into its characters. No piece has an occurrence of the separator in
it, and the pieces with the separator between them are the text again.

* `Text.intercalate_split`, `Text.not_isInfix_of_mem_split` : the pieces of characters;
* `Json.join_split` : the two methods.
-/

namespace SchemaCanvas

namespace Text

variable {sep text piece : List Char}

theorem split_ne_nil (hsep : sep ≠ []) : split sep text ≠ [] := by
  rw [split, dif_neg hsep]
  split <;> exact List.cons_ne_nil _ _

theorem intercalate_nil_map (cs : List Char) : [].intercalate (cs.map ([·])) = cs := by
  induction cs with
  | nil => rfl
  | cons c cs ih =>
    cases cs with
    | nil => rfl
    | cons d cs =>
      rw [List.map_cons] at ih
      rw [List.map_cons, List.map_cons, List.intercalate_cons_cons, ih]
      rfl

theorem intercalate_split (sep text : List Char) : sep.intercalate (split sep text) = text := by
  fun_induction split sep text with
  | case1 text hsep => rw [hsep, intercalate_nil_map]
  | case2 text hsep hcut => exact List.intercalate_singleton
  | case3 text hsep before after hcut ih =>
    rw [List.intercalate_cons_of_ne_nil (split_ne_nil hsep), ih, eq_of_cut hcut]

/-- **The separator does not occur in a piece.** -/
theorem not_isInfix_of_mem_split (hsep : sep ≠ []) (h : piece ∈ split sep text) :
    ¬ sep <:+: piece := by
  fun_induction split sep text with
  | case1 => contradiction
  | case2 text _ hcut =>
    obtain rfl := List.mem_singleton.1 h
    rw [← isSome_cut_iff, hcut]
    nofun
  | case3 text _ before after hcut ih =>
    rcases List.mem_cons.1 h with rfl | hmem
    · -- an occurrence in the first piece would begin before the one that was found
      rintro ⟨front, behind, rfl⟩
      obtain ⟨rfl, hfirst⟩ := cut_eq_some_iff.1 hcut
      have hpos := List.length_pos_iff.2 hsep
      refine hfirst front.length (by simp only [List.length_append]; omega) ?_
      rw [List.append_assoc, List.append_assoc, List.append_assoc, List.drop_left]
      exact List.prefix_append _ _
    · exact ih hmem

end Text

namespace Json

theorem callMethod_includes_of_mem_split {d : String} {text piece : List Char} (hd : d ≠ "")
    (h : piece ∈ Text.split d.toList text) :
    (str (String.ofList piece)).callMethod "includes" [some (str d)] =
      .ok (some (bool false)) := by
  have hsep : d.toList ≠ [] := mt String.toList_eq_nil_iff.1 hd
  have hnone : Text.contains d.toList piece = false :=
    Bool.eq_false_iff.2 (mt Text.isSome_cut_iff.1 (Text.not_isInfix_of_mem_split hsep h))
  have hcall : (str (String.ofList piece)).callMethod "includes" [some (str d)] =
      .ok (some (bool (Text.contains d.toList (String.ofList piece).toList))) := rfl
  rw [hcall, String.toList_ofList, hnone]

theorem callMethod_join_pieces (s d : String) :
    (arr (TextMethod.pieces s (some (str d)))).callMethod "join" [some (str d)] =
      .ok (some (str s)) := by
  have htexts : (TextMethod.pieces s (some (str d))).map (fun v => Value.text (some v)) =
      (Text.split d.toList s.toList).map String.ofList := by
    rw [TextMethod.pieces, List.map_map]
    rfl
  have hjoin : d.intercalate ((Text.split d.toList s.toList).map String.ofList) = s := by
    have hid : String.toList ∘ String.ofList = id := funext fun _ => String.toList_ofList
    rw [← String.toList_inj, String.toList_intercalate, List.map_map, hid, List.map_id,
      Text.intercalate_split]
  exact congrArg (fun s => Except.ok (some (str s))) ((congrArg d.intercalate htexts).trans hjoin)

/-- **A text that is split is put together by joining the pieces with the same separator.** The
pieces are texts, and there is no separator in them. -/
theorem join_split (s d : String) : ∃ pieces,
    (str s).callMethod "split" [some (str d)] = .ok (some (arr pieces)) ∧
    (arr pieces).callMethod "join" [some (str d)] = .ok (some (str s)) ∧
    ∀ piece ∈ pieces, ∃ text, piece = str text ∧
      (d ≠ "" → (str text).callMethod "includes" [some (str d)] = .ok (some (bool false))) := by
  refine ⟨TextMethod.pieces s (some (str d)), rfl, callMethod_join_pieces s d, fun piece h => ?_⟩
  obtain ⟨text, htext, rfl⟩ := List.mem_map.1 h
  exact ⟨_, rfl, fun hd => callMethod_includes_of_mem_split hd htext⟩

/-- The second of two occurrences that overlap separates nothing. -/
theorem join_split_banana : ∃ pieces,
    (str "banana").callMethod "split" [some (str "ana")] = .ok (some (arr pieces)) ∧
      pieces = [str "b", str "na"] ∧
      (arr pieces).callMethod "join" [some (str "ana")] = .ok (some (str "banana")) ∧
      (str "na").callMethod "includes" [some (str "ana")] = .ok (some (bool false)) := by
  obtain ⟨pieces, hsplit, hjoin, hpieces⟩ := join_split "banana" "ana"
  have hbanana : Text.split "ana".toList "banana".toList = [['b'], ['n', 'a']] := by decide +kernel
  have htexts : TextMethod.pieces "banana" (some (str "ana")) = [str "b", str "na"] :=
    congrArg (List.map fun piece => str (String.ofList piece)) hbanana
  obtain rfl : [str "b", str "na"] = pieces :=
    htexts.symm.trans (arr.inj (Option.some.inj (Except.ok.inj hsplit)))
  obtain ⟨text, htext, hincludes⟩ := hpieces (str "na") (by simp)
  exact ⟨_, hsplit, rfl, hjoin, str.inj htext ▸ hincludes (by decide)⟩

end Json

end SchemaCanvas
