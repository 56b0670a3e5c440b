import SchemaCanvas.Expr.Eval
import SchemaCanvas.Proofs.Expr.Ranges
import SchemaCanvas.Proofs.Number.Written
import SchemaCanvas.Proofs.Text.Occurrence

/-!
# Positions

A position counts characters in a text and items in a list, from zero on, and all that give or take
positions agree on it: a text that is found is the slice from its position on, a character is the
same as the result of a method and as a property, and a text or list that is cut in two at any
number is put together again by its two parts.

* `Json.indexOf_spec` : a search gives the first position;
* `Json.charAt_eq_property` : characters;
* `Json.slices_of_text`, `Json.slices_of_list` : the two parts;
* `Json.positions_agree` : all of it.
-/

namespace SchemaCanvas

open Binary

variable {n : ℕ}

/-! ### Positions as values -/

namespace Json

theorem exists_ofNat_eq (h : n < 2 ^ 53) : ∃ hn, ofNat n = num (.int n hn) := by
  have hrange : Word.minSigned ≤ n ∧ n ≤ Word.maxUnsigned := by
    rw [Word.minSigned, Word.maxUnsigned]
    omega
  exact ⟨hrange, by rw [ofNat, ofInt, Number.ofInt?, dif_pos hrange]; rfl⟩

theorem toFloat_ofNat (h : n < 2 ^ 53) : (ofNat n).toFloat = Float.ofNat n := by
  obtain ⟨hn, heq⟩ := exists_ofNat_eq h
  rw [heq]
  rfl

theorem isTextual_ofNat (h : n < 2 ^ 53) : Value.isTextual (some (ofNat n)) = false := by
  obtain ⟨hn, heq⟩ := exists_ofNat_eq h
  rw [heq]
  rfl

/-- A computed float is an integer if it is one below `2 ^ 53`. -/
theorem computed_of_whole? {x : Float} (hx : (Binary.ofFloat x).whole? = some (n : ℤ))
    (h : n < 2 ^ 53) : computed x = ofNat n := by
  have hn : (n : ℤ).natAbs < 0x20000000000000 := by
    rw [Int.natAbs_natCast]
    exact h
  rw [computed, hx]
  exact if_pos hn

theorem add_ofNat {m : ℕ} (h : m + n < 2 ^ 53) :
    BinaryOp.add.apply (some (ofNat m)) (some (ofNat n)) = ofNat (m + n) := by
  have hm : m < 2 ^ 53 := by omega
  have hn : n < 2 ^ 53 := by omega
  have hsum := whole?_add (whole?_ofNat hm) (whole?_ofNat hn) (abs_lt.2 ⟨by omega, by omega⟩)
  rw [BinaryOp.apply, Value.add, isTextual_ofNat hm, isTextual_ofNat hn, Value.toFloat,
    Value.toFloat, toFloat_ofNat hm, toFloat_ofNat hn]
  exact computed_of_whole? (hsum.trans (by push_cast; rfl)) h

theorem zero_le_ofNat (h : n < 2 ^ 53) :
    BinaryOp.ge.apply (some (ofNat n)) (some (ofNat 0)) = bool true := by
  obtain ⟨hn, heq⟩ := exists_ofNat_eq h
  have hle : 0 ≤ Float.ofNat n := (zero_le_iff (value?_ofNat h)).2 (Nat.cast_nonneg n)
  rw [heq]
  exact congrArg bool (decide_eq_true hle)

end Json

theorem sliceEnd_ofNat {length : ℕ} (h : length < 2 ^ 53) (hn : n ≤ length) (fallback : ℕ) :
    sliceEnd length fallback (some (.ofNat n)) = n := by
  have hn' : n < 2 ^ 53 := by omega
  have hfloor : SliceRule.truncated n = n := by
    rw [SliceRule.truncated, if_pos (Nat.cast_nonneg n)]
    exact Int.floor_natCast n
  rw [sliceEnd_some, Json.toFloat_ofNat hn',
    countedEnd_of_nonneg h (value?_ofNat hn') (Nat.cast_nonneg n), hfloor, SliceRule.position,
    if_neg (not_lt.2 (Int.natCast_nonneg n))]
  omega

theorem sliceBounds_ofNat {length m : ℕ} (h : length < 2 ^ 53) (hm : m ≤ n) (hn : n ≤ length) :
    sliceBounds length (some (.ofNat m)) (some (.ofNat n)) = (m, n) := by
  rw [sliceBounds_eq, sliceEnd_ofNat h (hm.trans hn), sliceEnd_ofNat h hn, max_eq_right hm]

namespace Json

/-! ### Search -/

/-- The slice of a text from a position on that is as long as another text. -/
def window (s t : String) (i : ℕ) : Except EvalError Value := do
  let length ← Value.property (some (str t)) "length" false
  (str s).callMethod "slice" [some (ofNat i), some (BinaryOp.add.apply (some (ofNat i)) length)]

variable {s : String}

theorem window_eq (h : s.length < 2 ^ 53) {t : String} (hn : n + t.length ≤ s.length) :
    window s t n =
      .ok (some (str (String.ofList ((s.toList.drop n).take t.toList.length)))) := by
  have hslice : window s t n = .ok (some (str (String.ofList (between (sliceBounds s.toList.length
      (some (ofNat n)) (some (BinaryOp.add.apply (some (ofNat n)) (some (ofNat t.length)))))
        s.toList)))) := rfl
  rw [hslice, add_ofNat (by omega), String.length_toList,
    sliceBounds_ofNat h (Nat.le_add_right _ _) hn, between, Nat.add_sub_cancel_left,
    String.length_toList]

/-- **A search gives the first position** from which the other text is a slice, and a number below
zero only if the text is not contained. The position counts the characters before the first place at
which the bytes of the text occur. -/
theorem indexOf_spec (h : s.length < 2 ^ 53) (t : String) :
    ∃ position,
      (str s).callMethod "indexOf" [some (str t)] = .ok (some position) ∧
      (str s).callMethod "includes" [some (str t)] =
        .ok (some (BinaryOp.ge.apply (some position) (some (ofNat 0)))) ∧
      (BinaryOp.ge.apply (some position) (some (ofNat 0)) = bool true → ∃ i, position = ofNat i ∧
        window s t i = .ok (some (str t)) ∧ (∀ j < i, window s t j ≠ .ok (some (str t))) ∧
        ∃ before after, s.toList = before ++ t.toList ++ after ∧ before.length = i ∧
          ∀ b < Text.size before,
            ¬ Text.encoded t.toList <+: (Text.encoded s.toList).drop b) := by
  refine ⟨TextMethod.positionOrNone (Text.position? t.toList s.toList), rfl, ?_⟩
  have hincludes : (str s).callMethod "includes" [some (str t)] =
      .ok (some (bool (Text.position? t.toList s.toList).isSome)) := by
    rw [Text.position?, Option.isSome_map]
    rfl
  rw [hincludes]
  cases hposition : Text.position? t.toList s.toList with
  | none =>
    have hlt : ¬ Float.ofInt 0 ≤ Float.ofInt (-1) := by decide +kernel
    have hge : BinaryOp.ge.apply (some (ofInt (-1))) (some (ofNat 0)) = bool false :=
      congrArg bool (decide_eq_false hlt)
    rw [TextMethod.positionOrNone, hge]
    exact ⟨rfl, nofun⟩
  | some i =>
    obtain ⟨hle, htake, hfirst⟩ := Text.of_position? hposition
    rw [String.length_toList, String.length_toList] at hle
    refine ⟨by rw [TextMethod.positionOrNone, zero_le_ofNat (by omega)]; rfl,
      fun _ => ⟨i, rfl, ?_, fun j hj hwindow => hfirst j hj ?_,
        Text.exists_of_position? hposition⟩⟩
    · rw [window_eq h hle, htake, String.ofList_toList]
    · rw [window_eq h (by omega)] at hwindow
      have htext := str.inj (Option.some.inj (Except.ok.inj hwindow))
      rw [← String.toList_inj, String.toList_ofList] at htext
      exact htext

/-! ### Characters -/

theorem propertyName_ofNat (h : n < 2 ^ 53) : Value.propertyName (some (ofNat n)) = toString n := by
  have hclamp : (Binary.ofFloat (Float.ofNat n)).clamp 0 Word.maxUnsigned = n := by
    rw [clamp_of_whole? _ _ (whole?_ofNat h), Word.maxUnsigned]
    omega
  obtain ⟨hn, heq⟩ := exists_ofNat_eq h
  have hfloat : (Number.int n hn).toFloat = Float.ofNat n := rfl
  rw [heq, Value.propertyName]
  simp only [hfloat, whole?_ofNat h, hclamp]
  rfl

/-- **The character at a position** is the same as the result of a method and as a property. -/
theorem charAt_eq_property (h : s.length < 2 ^ 53) (hn : n < s.length) :
    ∃ c, s.toList[n]? = some c ∧
      (str s).callMethod "charAt" [some (ofNat n)] = .ok (some (str (String.singleton c))) ∧
      Value.property (some (str s)) (Value.propertyName (some (ofNat n))) false =
        .ok (some (str (String.singleton c))) := by
  have hn' : n < 2 ^ 53 := by omega
  obtain ⟨c, hchar⟩ : ∃ c, s.toList[n]? = some c :=
    ⟨_, List.getElem?_eq_getElem (by rwa [String.length_toList])⟩
  refine ⟨c, hchar, ?_, ?_⟩
  · have hindex : toIndex (Float.ofNat n) = n := by
      rw [toIndex_of_value? (value?_ofNat hn'), Int.floor_natCast, Word.maxUnsigned]
      omega
    have hnonneg := (zero_le_iff (value?_ofNat hn')).2 (Nat.cast_nonneg n)
    have hcall : (str s).callMethod "charAt" [some (ofNat n)] =
        .ok (some (str (String.ofList (TextMethod.charAtText s.toList (some (ofNat n)))))) := rfl
    rw [hcall, TextMethod.charAtText]
    simp only [Value.toFloat, toFloat_ofNat hn', if_neg (not_isNaN (value?_ofNat hn')), hindex,
      if_pos hnonneg, hchar]
    rfl
  · have hlength : toString n ≠ "length" := by
      intro heq
      have hdigit := Numeral.isDigit_of_mem_toString (n := n) (c := 'l') (by rw [heq]; decide)
      exact absurd hdigit (by decide)
    have hread := Numeral.readIndex?_toString (n := n) (by rw [Word.maxUnsigned]; omega)
    rw [propertyName_ofNat hn']
    change Except.ok ((str s).property? (toString n)) = _
    rw [property?, if_neg hlength, hread, Option.bind_some, hchar]
    rfl

/-! ### The two parts at a number -/

/-- A list is cut in two at any number. -/
theorem between_append_between {α : Type} (items : List α) (k : Json) :
    between (sliceBounds items.length (some (ofNat 0)) (some k)) items ++
      between (sliceBounds items.length (some k) none) items = items := by
  have hzero : sliceEnd items.length 0 (some (ofNat 0)) = 0 := by
    have hnan : ¬ (ofNat 0).toFloat.isNaN := by decide +kernel
    have hneg : ¬ (ofNat 0).toFloat < 0 := by decide +kernel
    have hindex : toIndex (ofNat 0).toFloat = 0 := by decide +kernel
    rw [sliceEnd_some, countedEnd, if_neg hnan, if_neg hneg, hindex, Nat.zero_min]
  have hstop : sliceEnd items.length items.length (some k) = sliceEnd items.length 0 (some k) := rfl
  rw [sliceBounds_eq, sliceBounds_eq, hzero, hstop]
  generalize sliceEnd items.length 0 (some k) = i
  have hend : sliceEnd items.length items.length none = items.length := rfl
  rw [hend, between, between, Nat.zero_max, List.drop_zero, Nat.sub_zero]
  have hrest : (items.drop i).take (max i items.length - i) = items.drop i :=
    List.take_of_length_le (by rw [List.length_drop]; omega)
  rw [hrest, List.take_append_drop]

theorem slices_of_text (s : String) (k : Json) : ∃ front back,
    (str s).callMethod "slice" [some (ofNat 0), some k] = .ok (some front) ∧
    (str s).callMethod "slice" [some k] = .ok (some back) ∧
    BinaryOp.add.apply (some front) (some back) = str s := by
  refine ⟨_, _, rfl, rfl, ?_⟩
  have hparts := congrArg String.ofList (between_append_between s.toList k)
  rw [String.ofList_append, String.ofList_toList] at hparts
  exact congrArg str hparts

theorem slices_of_list (items : List Json) (k : Json) : ∃ front back,
    (arr items).callMethod "slice" [some (ofNat 0), some k] = .ok (some front) ∧
    (arr items).callMethod "slice" [some k] = .ok (some back) ∧
    front.callMethod "concat" [some back] = .ok (some (arr items)) := by
  refine ⟨_, _, rfl, rfl, ?_⟩
  have hconcat (front back : List Json) : (arr front).callMethod "concat" [some (arr back)] =
      .ok (some (arr (front ++ back))) := by
    change Except.ok (some (arr (front ++ [some (arr back)].flatMap ListMethod.concatItems))) = _
    simp [ListMethod.concatItems]
  exact (hconcat _ _).trans (congrArg (fun items => Except.ok (some (arr items)))
    (between_append_between items k))

/-! ### All of them -/

/-- **All that give or take positions agree on them.** -/
theorem positions_agree (h : s.length < 2 ^ 53) (t : String) (items : List Json) :
    (∃ position,
      (str s).callMethod "indexOf" [some (str t)] = .ok (some position) ∧
      (str s).callMethod "includes" [some (str t)] =
        .ok (some (BinaryOp.ge.apply (some position) (some (ofNat 0)))) ∧
      (BinaryOp.ge.apply (some position) (some (ofNat 0)) = bool true → ∃ i, position = ofNat i ∧
        window s t i = .ok (some (str t)) ∧ (∀ j < i, window s t j ≠ .ok (some (str t))) ∧
        ∃ before after, s.toList = before ++ t.toList ++ after ∧ before.length = i ∧
          ∀ b < Text.size before,
            ¬ Text.encoded t.toList <+: (Text.encoded s.toList).drop b)) ∧
    (∀ i < s.length, ∃ c, s.toList[i]? = some c ∧
      (str s).callMethod "charAt" [some (ofNat i)] = .ok (some (str (String.singleton c))) ∧
      Value.property (some (str s)) (Value.propertyName (some (ofNat i))) false =
        .ok (some (str (String.singleton c)))) ∧
    (∀ k, ∃ front back,
      (str s).callMethod "slice" [some (ofNat 0), some k] = .ok (some front) ∧
      (str s).callMethod "slice" [some k] = .ok (some back) ∧
      BinaryOp.add.apply (some front) (some back) = str s) ∧
    ∀ k, ∃ front back,
      (arr items).callMethod "slice" [some (ofNat 0), some k] = .ok (some front) ∧
      (arr items).callMethod "slice" [some k] = .ok (some back) ∧
      front.callMethod "concat" [some back] = .ok (some (arr items)) :=
  ⟨indexOf_spec h t, fun _ hi => charAt_eq_property h hi, slices_of_text s, slices_of_list items⟩

theorem positions_agree_street : "Straße".length < 2 ^ 53 ∧ ∃ i,
    (str "Straße").callMethod "indexOf" [some (str "ße")] = .ok (some (ofNat i)) ∧
    window "Straße" "ße" i = .ok (some (str "ße")) := by
  have h : "Straße".length < 2 ^ 53 := by decide
  obtain ⟨⟨position, hposition, -, hfound⟩, -⟩ := positions_agree h "ße" []
  have hfour : position = ofNat 4 := Option.some.inj (Except.ok.inj (hposition.symm.trans rfl))
  obtain ⟨i, rfl, hwindow, -⟩ := hfound (hfour ▸ zero_le_ofNat (by decide))
  exact ⟨h, i, hposition, hwindow⟩

end Json

end SchemaCanvas
