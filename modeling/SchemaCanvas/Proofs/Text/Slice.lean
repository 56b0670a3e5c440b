import SchemaCanvas.Proofs.Text.Bytes

/-!
# Texts by bytes

A text that is held as bytes is addressed by byte positions, and a part of it can be taken from one
position to another only if both stand between characters. A byte by itself tells an ASCII character
and nothing else: every byte of a longer character is above all of ASCII.

* `Text.encoded`, `Text.size` : the bytes of characters, and their number;
* `Text.isBoundary_iff_isValid` : positions between characters, in the words of the core library;
* `Text.slice?` : the part of a text between two positions, none where there is no such part;
* `Text.byteIs_append`, `Text.skipWhile_append` : tests of single bytes against tests of characters.
-/

namespace SchemaCanvas.Text

variable {before behind cs : List Char} {c : Char}

/-! ### Positions -/

/-- The bytes of characters. -/
def encoded (cs : List Char) : List UInt8 := cs.flatMap String.utf8EncodeChar

/-- The number of bytes of characters. -/
def size (cs : List Char) : Nat := (encoded cs).length

theorem encoded_append (cs ds : List Char) : encoded (cs ++ ds) = encoded cs ++ encoded ds :=
  List.flatMap_append

@[simp]
theorem size_nil : size [] = 0 := rfl

@[simp]
theorem size_cons (c : Char) (cs : List Char) : size (c :: cs) = c.utf8Size + size cs := by
  simp [size, encoded, String.length_utf8EncodeChar]

@[simp]
theorem size_append (cs ds : List Char) : size (cs ++ ds) = size cs + size ds := by
  simp [size, encoded_append]

/-- A position between characters, or at an end. -/
def IsBoundary (cs : List Char) (i : Nat) : Prop :=
  ∃ before behind, cs = before ++ behind ∧ i = size before

theorem isBoundary_append (before behind : List Char) :
    IsBoundary (before ++ behind) (size before) :=
  ⟨before, behind, rfl, rfl⟩

theorem size_toList (s : String) : size s.toList = s.utf8ByteSize := by
  rw [size, encoded, ← bytes_eq, bytes]
  simp

theorem isBoundary_iff_isValid {s : String} {i : Nat} :
    IsBoundary s.toList i ↔ String.Pos.Raw.IsValid s ⟨i⟩ := by
  rw [String.Pos.Raw.isValid_iff_exists_append]
  constructor
  · rintro ⟨before, behind, heq, rfl⟩
    refine ⟨String.ofList before, String.ofList behind, ?_, ?_⟩
    · rw [← String.ofList_append, ← heq, String.ofList_toList]
    · rw [← String.toList_ofList (l := before), size_toList, String.toList_ofList]
      rfl
  · rintro ⟨t, u, rfl, heq⟩
    refine ⟨t.toList, u.toList, String.toList_append, ?_⟩
    rw [size_toList]
    exact congrArg String.Pos.Raw.byteIdx heq

/-! ### Parts -/

/-- The text behind so many bytes; none inside a character or behind the end. -/
def from? : Nat → List Char → Option (List Char)
  | 0, cs => some cs
  | _ + 1, [] => none
  | i + 1, c :: cs => if c.utf8Size ≤ i + 1 then from? (i + 1 - c.utf8Size) cs else none

/-- The text of so many bytes; none if it would end inside a character or behind the end. -/
def upTo? : Nat → List Char → Option (List Char)
  | 0, _ => some []
  | _ + 1, [] => none
  | i + 1, c :: cs =>
    if c.utf8Size ≤ i + 1 then (upTo? (i + 1 - c.utf8Size) cs).map (c :: ·) else none

/-- The text from one position to another. -/
def slice? (start stop : Nat) (cs : List Char) : Option (List Char) :=
  if start ≤ stop then (from? start cs).bind (upTo? (stop - start)) else none

theorem from?_cons (c : Char) (cs : List Char) (i : Nat) :
    from? (c.utf8Size + i) (c :: cs) = from? i cs := by
  have hpos := c.utf8Size_pos
  obtain ⟨n, hn⟩ : ∃ n, c.utf8Size + i = n + 1 := ⟨c.utf8Size + i - 1, by omega⟩
  have hle : c.utf8Size ≤ n + 1 := by omega
  rw [hn, from?, if_pos hle]
  congr 1
  omega

theorem from?_append (before behind : List Char) :
    from? (size before) (before ++ behind) = some behind := by
  induction before with
  | nil => cases behind <;> rfl
  | cons c before ih => rw [size_cons, List.cons_append, from?_cons, ih]

theorem upTo?_append (cs behind : List Char) : upTo? (size cs) (cs ++ behind) = some cs := by
  induction cs with
  | nil => cases behind <;> rfl
  | cons c cs ih =>
    have hpos := c.utf8Size_pos
    obtain ⟨n, hn⟩ : ∃ n, c.utf8Size + size cs = n + 1 := ⟨c.utf8Size + size cs - 1, by omega⟩
    have hle : c.utf8Size ≤ n + 1 := by omega
    have hrest : n + 1 - c.utf8Size = size cs := by omega
    rw [size_cons, List.cons_append, hn, upTo?, if_pos hle, hrest, ih]
    rfl

/-- **A part of a text can be taken from one character to another.** -/
theorem slice?_append (before cs behind : List Char) :
    slice? (size before) (size before + size cs) (before ++ (cs ++ behind)) = some cs := by
  rw [slice?, if_pos (Nat.le_add_right _ _), from?_append, Nat.add_sub_cancel_left]
  exact upTo?_append cs behind

theorem exists_of_from? {i : Nat} (h : from? i cs = some behind) :
    ∃ before, cs = before ++ behind ∧ i = size before := by
  fun_induction from? i cs with
  | case1 cs => exact ⟨[], by simpa using h, rfl⟩
  | case2 => cases h
  | case3 i c cs hle ih =>
    obtain ⟨before, rfl, hi⟩ := ih h
    exact ⟨c :: before, rfl, by rw [size_cons]; omega⟩
  | case4 => cases h

theorem exists_of_upTo? {i : Nat} {part : List Char} (h : upTo? i cs = some part) :
    ∃ behind, cs = part ++ behind ∧ i = size part := by
  fun_induction upTo? i cs generalizing part with
  | case1 cs => cases h; exact ⟨cs, rfl, rfl⟩
  | case2 => cases h
  | case3 i c cs hle ih =>
    obtain ⟨part, hpart, rfl⟩ := Option.map_eq_some_iff.1 h
    obtain ⟨behind, rfl, hi⟩ := ih hpart
    exact ⟨behind, rfl, by rw [size_cons]; omega⟩
  | case4 => cases h

/-- **No part begins or ends inside a character.** -/
theorem isBoundary_of_slice? {start stop : Nat} {part : List Char}
    (h : slice? start stop cs = some part) : IsBoundary cs start ∧ IsBoundary cs stop := by
  rw [slice?] at h
  split at h
  · next hle =>
    obtain ⟨behind, hfrom, hupTo⟩ := Option.bind_eq_some_iff.1 h
    obtain ⟨before, rfl, rfl⟩ := exists_of_from? hfrom
    obtain ⟨rest, rfl, hstop⟩ := exists_of_upTo? hupTo
    refine ⟨isBoundary_append _ _, before ++ part, rest, by simp, ?_⟩
    rw [size_append]
    omega
  · cases h

/-! ### Single bytes -/

/-- The byte at a position is that of an ASCII character with a property. -/
def byteIs (cs : List Char) (p : Char → Bool) (i : Nat) : Bool :=
  (encoded cs)[i]?.any fun b => p (Char.ofUInt8 b)

/-- The first position from one on whose byte has not the property. -/
def skipWhile (cs : List Char) (p : Char → Bool) (i : Nat) : Nat :=
  i + (((encoded cs).drop i).takeWhile fun b => p (Char.ofUInt8 b)).length

/-- A property of ASCII characters only. -/
def OnAscii (p : Char → Bool) : Prop := ∀ c, p c → c.toNat < 128

theorem toNat_ofUInt8 (b : UInt8) : (Char.ofUInt8 b).toNat = b.toNat := UInt8.toNat_toUInt32 b

/-- **The first byte of a character tells whether it is ASCII, and which.** -/
theorem exists_firstByte (c : Char) : ∃ b rest, String.utf8EncodeChar c = b :: rest ∧
    (c.toNat < 128 → Char.ofUInt8 b = c ∧ rest = []) ∧
    (128 ≤ c.toNat → 128 ≤ (Char.ofUInt8 b).toNat) := by
  have hval : c.val.toNat = c.toNat := rfl
  have hlow {n : Nat} (h : n < 128) : (UInt8.ofNat n).toNat = n :=
    UInt8.toNat_ofNat_of_lt' (Nat.lt_trans h (by decide))
  have hhigh {n : Nat} (h : 128 ≤ n) (h' : n < 256) :
      128 ≤ (Char.ofUInt8 (UInt8.ofNat n)).toNat := by
    rwa [toNat_ofUInt8, UInt8.toNat_ofNat_of_lt' h']
  unfold String.utf8EncodeChar
  dsimp only
  rw [hval]
  split
  · refine ⟨_, _, rfl, fun h => ⟨?_, rfl⟩, fun h => by omega⟩
    refine Char.ext (UInt32.toNat_inj.1 ?_)
    exact (toNat_ofUInt8 _).trans (hlow h)
  · split
    · exact ⟨_, _, rfl, fun h => by omega, fun _ => hhigh (by omega) (by omega)⟩
    · split
      · exact ⟨_, _, rfl, fun h => by omega, fun _ => hhigh (by omega) (by omega)⟩
      · exact ⟨_, _, rfl, fun h => by omega, fun _ => hhigh (by omega) (by omega)⟩

variable {p : Char → Bool}

/-- A property of ASCII characters can be tested on the first byte. -/
theorem exists_firstByte_of_onAscii (hp : OnAscii p) (c : Char) : ∃ b rest,
    String.utf8EncodeChar c = b :: rest ∧ p (Char.ofUInt8 b) = p c ∧ (p c → rest = []) := by
  obtain ⟨b, rest, hbytes, hascii, hother⟩ := exists_firstByte c
  refine ⟨b, rest, hbytes, ?_⟩
  by_cases hc : c.toNat < 128
  · obtain ⟨hb, hrest⟩ := hascii hc
    exact ⟨congrArg p hb, fun _ => hrest⟩
  · have hb := hother (Nat.le_of_not_lt hc)
    have hfail : p c = false := Bool.eq_false_iff.2 fun h => hc (hp c h)
    have hfailByte : p (Char.ofUInt8 b) = false :=
      Bool.eq_false_iff.2 fun h => Nat.not_lt.2 hb (hp _ h)
    rw [hfail, hfailByte]
    exact ⟨rfl, nofun⟩

/-- **A test of one byte is a test of the character that begins there.** -/
theorem byteIs_append (hp : OnAscii p) (before cs : List Char) :
    byteIs (before ++ cs) p (size before) = cs.head?.any p := by
  have hbyte : (encoded (before ++ cs))[size before]? = (encoded cs).head? := by
    rw [encoded_append, size, List.getElem?_append_right (Nat.le_refl _), Nat.sub_self,
      List.head?_eq_getElem?]
  rw [byteIs, hbyte]
  cases cs with
  | nil => rfl
  | cons c cs =>
    obtain ⟨b, rest, hbytes, hb, -⟩ := exists_firstByte_of_onAscii hp c
    rw [encoded, List.flatMap_cons, hbytes]
    exact hb

theorem utf8Size_of_onAscii (hp : OnAscii p) (h : p c) : c.utf8Size = 1 := by
  obtain ⟨b, rest, hbytes, -, hrest⟩ := exists_firstByte_of_onAscii hp c
  rw [← String.length_utf8EncodeChar, hbytes, hrest h]
  rfl

theorem length_takeWhile_encoded (hp : OnAscii p) (cs : List Char) :
    ((encoded cs).takeWhile fun b => p (Char.ofUInt8 b)).length = size (cs.takeWhile p) := by
  induction cs with
  | nil => rfl
  | cons c cs ih =>
    obtain ⟨b, rest, hbytes, hb, hrest⟩ := exists_firstByte_of_onAscii hp c
    have hcons : encoded (c :: cs) = b :: (rest ++ encoded cs) := by
      rw [encoded, List.flatMap_cons, hbytes]
      rfl
    rw [hcons, List.takeWhile_cons, List.takeWhile_cons, hb]
    cases h : p c with
    | false => rfl
    | true =>
      rw [hrest h, List.nil_append, if_pos rfl, if_pos rfl, List.length_cons, ih, size_cons,
        utf8Size_of_onAscii hp h, Nat.add_comm]

/-- **Bytes are passed over as the characters are.** -/
theorem skipWhile_append (hp : OnAscii p) (before cs : List Char) :
    skipWhile (before ++ cs) p (size before) = size (before ++ cs.takeWhile p) := by
  have hdrop : (encoded (before ++ cs)).drop (size before) = encoded cs := by
    rw [encoded_append]
    exact List.drop_left' rfl
  rw [skipWhile, hdrop, length_takeWhile_encoded hp, size_append]

end SchemaCanvas.Text
