import SchemaCanvas.Text.Search
import SchemaCanvas.Proofs.Text.Slice

/-!
# The first occurrence

`Text.cut` finds the first occurrence of a text in another, by characters. A search through the
bytes of the two finds the same one: the bytes of a text never occur from inside a character on,
since the first byte of a character is none of the later bytes of another.

* `Text.cut_eq_some_iff` : the occurrence that is found is the first by characters;
* `Text.cut_eq_some_iff_encoded` : it is the first by bytes;
* `Text.of_position?`, `Text.exists_of_position?` : its position, which counts characters.
-/

namespace SchemaCanvas.Text

variable {sep text before after : List Char} {i : ℕ}

/-! ### By characters -/

theorem cut_of_isPrefix (h : sep <+: text) : cut sep text = some ([], text.drop sep.length) := by
  cases text with
  | nil =>
    obtain rfl := List.prefix_nil.1 h
    rfl
  | cons c cs => rw [cut, if_pos (List.isPrefixOf_iff_prefix.2 h)]

theorem cut_cons_of_not_isPrefix {c : Char} {cs : List Char} (h : ¬ sep <+: c :: cs) :
    cut sep (c :: cs) = (cut sep cs).map fun (before, after) => (c :: before, after) := by
  rw [cut, if_neg (mt List.isPrefixOf_iff_prefix.1 h)]

theorem not_isPrefix_drop_of_cut (h : cut sep text = some (before, after)) :
    ∀ j < before.length, ¬ sep <+: text.drop j := by
  induction text generalizing before with
  | nil =>
    obtain rfl : before = [] := by
      have := eq_of_cut h
      simp_all
    nofun
  | cons c cs ih =>
    by_cases hprefix : sep <+: c :: cs
    · cases (cut_of_isPrefix hprefix).symm.trans h
      nofun
    · rw [cut_cons_of_not_isPrefix hprefix, Option.map_eq_some_iff] at h
      obtain ⟨⟨rest, _⟩, hrest, heq⟩ := h
      cases heq
      rintro (_ | j) hj
      · exact hprefix
      · exact ih hrest j (Nat.lt_of_succ_lt_succ hj)

theorem cut_append (h : ∀ j < before.length, ¬ sep <+: (before ++ sep ++ after).drop j) :
    cut sep (before ++ sep ++ after) = some (before, after) := by
  induction before with
  | nil => rw [List.nil_append, cut_of_isPrefix (List.prefix_append _ _), List.drop_left]
  | cons c before ih =>
    have hfirst : ¬ sep <+: c :: (before ++ sep ++ after) := h 0 (Nat.zero_lt_succ _)
    have hrest := ih fun j hj => h (j + 1) (Nat.succ_lt_succ hj)
    rw [List.cons_append, List.cons_append, cut_cons_of_not_isPrefix hfirst, hrest]
    rfl

/-- **The occurrence that is found is the first:** the text does not go on with `sep` from any
position before. -/
theorem cut_eq_some_iff : cut sep text = some (before, after) ↔
    text = before ++ sep ++ after ∧ ∀ j < before.length, ¬ sep <+: text.drop j := by
  refine ⟨fun h => ⟨eq_of_cut h, not_isPrefix_drop_of_cut h⟩, ?_⟩
  rintro ⟨rfl, hfirst⟩
  exact cut_append hfirst

theorem isSome_cut_iff : (cut sep text).isSome ↔ sep <:+: text := by
  induction text with
  | nil => cases sep <;> simp [cut]
  | cons c cs ih =>
    rw [List.infix_cons_iff]
    by_cases hprefix : sep <+: c :: cs
    · rw [cut_of_isPrefix hprefix]
      exact iff_of_true rfl (.inl hprefix)
    · rw [cut_cons_of_not_isPrefix hprefix, Option.isSome_map, ih]
      exact (or_iff_right hprefix).symm

theorem of_position? (h : position? sep text = some i) :
    i + sep.length ≤ text.length ∧ (text.drop i).take sep.length = sep ∧
      ∀ j < i, (text.drop j).take sep.length ≠ sep := by
  obtain ⟨⟨before, after⟩, hcut, rfl⟩ := Option.map_eq_some_iff.1 h
  obtain ⟨rfl, hfirst⟩ := cut_eq_some_iff.1 hcut
  refine ⟨by simp, by simp, fun j hj htake => ?_⟩
  exact hfirst j hj (List.prefix_iff_eq_take.2 htake.symm)

/-! ### By bytes -/

theorem encoded_isPrefix_iff : encoded sep <+: encoded text ↔ sep <+: text := by
  constructor
  · intro h
    induction sep generalizing text with
    | nil => exact List.nil_prefix
    | cons c sep ih =>
      obtain ⟨rest, hrest⟩ := h
      cases text with
      | nil =>
        have hsize := congrArg List.length hrest
        rw [List.length_append, ← size, size_cons] at hsize
        exact absurd hsize (by have := c.utf8Size_pos; simp [encoded]; omega)
      | cons d text =>
        have hbytes : String.utf8EncodeChar c ++ (encoded sep ++ rest) =
            String.utf8EncodeChar d ++ encoded text := by
          rw [← List.append_assoc]
          exact hrest
        rcases lt_trichotomy c d with hlt | rfl | hgt
        · have := lex_utf8EncodeChar hlt (encoded sep ++ rest) (encoded text)
          exact absurd (hbytes ▸ this) (Std.Irrefl.irrefl _)
        · exact (List.cons_prefix_cons.2 ⟨rfl, ih ⟨rest, List.append_cancel_left hbytes⟩⟩)
        · have := lex_utf8EncodeChar hgt (encoded text) (encoded sep ++ rest)
          exact absurd (hbytes ▸ this) (Std.Irrefl.irrefl _)
  · rintro ⟨after, rfl⟩
    exact ⟨encoded after, (encoded_append _ _).symm⟩

theorem isUTF8FirstByte_of_isPrefix {bytes : List UInt8} {b : UInt8} (hsep : sep ≠ [])
    (h : encoded sep <+: bytes) (hb : bytes[0]? = some b) : b.IsUTF8FirstByte := by
  obtain ⟨d, sep, rfl⟩ := List.exists_cons_of_ne_nil hsep
  obtain ⟨rest, rfl⟩ := h
  have hpos : 0 < (String.utf8EncodeChar d).length := by
    rw [String.length_utf8EncodeChar]
    exact d.utf8Size_pos
  have hfirst : (encoded (d :: sep) ++ rest)[0]? = some (String.utf8EncodeChar d)[0] := by
    rw [encoded, List.flatMap_cons, List.append_assoc, List.getElem?_append_left hpos,
      List.getElem?_eq_getElem hpos]
  cases hfirst.symm.trans hb
  exact UInt8.isUTF8FirstByte_getElem_zero_utf8EncodeChar

/-- **The bytes of a text occur only where a character begins,** and where the text itself does. -/
theorem encoded_isPrefix_drop_iff (hsep : sep ≠ []) :
    encoded sep <+: (encoded text).drop i ↔
      ∃ before behind, text = before ++ behind ∧ i = size before ∧ sep <+: behind := by
  constructor
  · intro h
    induction text generalizing i with
    | nil =>
      refine absurd (?_ : sep <+: []) (mt List.prefix_nil.1 hsep)
      rw [← encoded_isPrefix_iff]
      simpa [encoded] using h
    | cons c cs ih =>
      rcases Nat.eq_zero_or_pos i with rfl | hpos
      · exact ⟨[], c :: cs, rfl, rfl, encoded_isPrefix_iff.1 h⟩
      rcases Nat.lt_or_ge i c.utf8Size with hinside | hbehind
      · -- a later byte of `c` is no first byte
        have hlength : i < (String.utf8EncodeChar c).length := by
          rwa [String.length_utf8EncodeChar]
        have hbyte : ((encoded (c :: cs)).drop i)[0]? = some (String.utf8EncodeChar c)[i] := by
          rw [encoded, List.flatMap_cons, List.getElem?_drop, Nat.add_zero,
            List.getElem?_append_left hlength, List.getElem?_eq_getElem hlength]
        have hfirst := isUTF8FirstByte_of_isPrefix hsep h hbyte
        exact absurd (UInt8.isUTF8FirstByte_getElem_utf8EncodeChar.1 hfirst) hpos.ne'
      · obtain ⟨before, behind, rfl, hi, hprefix⟩ := ih (i := i - c.utf8Size) (by
          have hdrop : (encoded (c :: cs)).drop i = (encoded cs).drop (i - c.utf8Size) := by
            rw [encoded, List.flatMap_cons, List.drop_append, String.length_utf8EncodeChar,
              List.drop_of_length_le (by rwa [String.length_utf8EncodeChar]), List.nil_append]
            rfl
          rwa [← hdrop])
        exact ⟨c :: before, behind, rfl, by rw [size_cons]; omega, hprefix⟩
  · rintro ⟨before, behind, rfl, rfl, hprefix⟩
    rw [encoded_append, size, List.drop_left]
    exact encoded_isPrefix_iff.2 hprefix

theorem size_lt_iff {before' after' : List Char} (h : before ++ after = before' ++ after') :
    size before < size before' ↔ before.length < before'.length := by
  obtain ⟨rest, rfl, -⟩ | ⟨rest, rfl, -⟩ := List.append_eq_append_iff.1 h
  · cases rest with
    | nil => simp
    | cons c rest =>
      have := c.utf8Size_pos
      simp only [size_append, size_cons, List.length_append, List.length_cons]
      omega
  · simp

/-- **The first occurrence by characters is the first by bytes.** -/
theorem cut_eq_some_iff_encoded : cut sep text = some (before, after) ↔
    text = before ++ sep ++ after ∧
      ∀ i < size before, ¬ encoded sep <+: (encoded text).drop i := by
  rw [cut_eq_some_iff]
  refine and_congr_right fun heq => ⟨fun hfirst i hi hprefix => ?_, fun hfirst j hj hprefix => ?_⟩
  · rcases eq_or_ne sep [] with rfl | hsep
    · cases before with
      | nil => exact absurd hi (Nat.not_lt_zero _)
      | cons => exact hfirst 0 (Nat.zero_lt_succ _) List.nil_prefix
    · obtain ⟨front, behind, rfl, rfl, hprefix⟩ := (encoded_isPrefix_drop_iff hsep).1 hprefix
      have hlt := (size_lt_iff (heq.trans (List.append_assoc _ _ _))).1 hi
      exact hfirst _ hlt (by rwa [List.drop_left])
  · have hsplit : text.take j ++ text.drop j = before ++ (sep ++ after) := by
      rw [List.take_append_drop, heq, List.append_assoc]
    have hlt := (size_lt_iff hsplit).2 (Nat.lt_of_le_of_lt (List.length_take_le _ _) hj)
    refine hfirst _ hlt ?_
    rw [← List.take_append_drop j text, encoded_append, size, List.take_append_drop, List.drop_left]
    exact encoded_isPrefix_iff.2 hprefix

theorem exists_of_position? (h : position? sep text = some i) :
    ∃ before after, text = before ++ sep ++ after ∧ before.length = i ∧
      ∀ b < size before, ¬ encoded sep <+: (encoded text).drop b := by
  obtain ⟨⟨before, after⟩, hcut, rfl⟩ := Option.map_eq_some_iff.1 h
  obtain ⟨htext, hfirst⟩ := cut_eq_some_iff_encoded.1 hcut
  exact ⟨before, after, htext, rfl, hfirst⟩

end SchemaCanvas.Text
