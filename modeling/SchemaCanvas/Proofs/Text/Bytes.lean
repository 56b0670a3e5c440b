import Mathlib.Data.String.Basic
import Mathlib.Data.List.Shortlex

/-!
# Strings in the order of their bytes

Strings are compared character by character. UTF-8 keeps this order: of two characters the one with
the smaller code has the smaller bytes, since longer codes start with greater bytes and codes of one
length have their digits, to the base 64, from the most significant on.

* `Text.lex_utf8EncodeChar` : the order of characters;
* `Text.lt_iff_bytes` : the order of strings.
-/

namespace SchemaCanvas.Text

/-- The bytes of a string. -/
def bytes (s : String) : List UInt8 := s.toUTF8.data.toList

theorem bytes_eq (s : String) : bytes s = s.toList.flatMap String.utf8EncodeChar := by
  rw [bytes, String.toUTF8_eq_toByteArray, ← String.utf8Encode_toList]
  simp [List.utf8Encode]

/-! ### Characters -/

theorem byte_lt_iff {m n : Nat} (hm : m < 256) (hn : n < 256) :
    UInt8.ofNat m < UInt8.ofNat n ↔ m < n := by
  rw [UInt8.lt_iff_toNat_lt, UInt8.toNat_ofNat_of_lt' hm, UInt8.toNat_ofNat_of_lt' hn]

theorem byte_eq_iff {m n : Nat} (hm : m < 256) (hn : n < 256) :
    UInt8.ofNat m = UInt8.ofNat n ↔ m = n := by
  rw [← UInt8.toNat_inj, UInt8.toNat_ofNat_of_lt' hm, UInt8.toNat_ofNat_of_lt' hn]

theorem toNat_lt (c : Char) : c.val.toNat < 0x110000 := by
  obtain h | ⟨-, h⟩ := c.valid
  · exact Nat.lt_trans h (by decide)
  · exact h

/-- **The smaller of two characters has the smaller bytes,** whatever follows. -/
theorem lex_utf8EncodeChar {c d : Char} (h : c < d) (x y : List UInt8) :
    List.Lex (· < ·) (String.utf8EncodeChar c ++ x) (String.utf8EncodeChar d ++ y) := by
  have hlt : c.val.toNat < d.val.toNat := h
  have hbound := toNat_lt d
  -- every digit is a remainder of what is left when the digits behind it are taken off
  have hdigits (n : Nat) : n / 4096 = n / 64 / 64 ∧ n / 262144 = n / 64 / 64 / 64 := by omega
  unfold String.utf8EncodeChar
  generalize c.val.toNat = m at *
  generalize d.val.toNat = n at *
  simp only [(hdigits _).1, (hdigits _).2]
  -- one case for each pair of lengths
  split_ifs
  all_goals
    simp (disch := omega) only [List.cons_append, List.nil_append, List.cons_lex_cons_iff,
      byte_lt_iff, byte_eq_iff]
    omega

/-! ### Strings -/

theorem lex_flatMap {cs ds : List Char} (h : cs < ds) :
    List.Lex (· < ·) (cs.flatMap String.utf8EncodeChar) (ds.flatMap String.utf8EncodeChar) := by
  induction h with
  | @nil d ds =>
    rw [List.flatMap_nil, List.flatMap_cons]
    cases hd : String.utf8EncodeChar d with
    | nil => exact absurd hd (by simp)
    | cons => exact .nil
  | rel hlt => exact lex_utf8EncodeChar hlt _ _
  | cons _ ih => exact ih.append_left _ _

/-- **Strings are in the order of their bytes.** -/
theorem lt_iff_bytes {s t : String} : s < t ↔ List.Lex (· < ·) (bytes s) (bytes t) := by
  have hlex {s t : String} (h : s < t) : List.Lex (· < ·) (bytes s) (bytes t) := by
    rw [bytes_eq, bytes_eq]
    exact lex_flatMap (String.lt_iff.1 h)
  refine ⟨hlex, fun h => ?_⟩
  rcases lt_trichotomy s t with hlt | rfl | hgt
  · exact hlt
  · exact absurd h (Std.Irrefl.irrefl _)
  · exact absurd h (Std.Asymm.asymm _ _ (hlex hgt))

end SchemaCanvas.Text
