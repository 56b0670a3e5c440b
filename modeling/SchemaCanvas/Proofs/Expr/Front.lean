import SchemaCanvas.Proofs.Expr.Reader
import SchemaCanvas.Proofs.Expr.Size

/-!
# How written expressions begin

A reader chooses what to read by the tokens that come next. The written form of an expression
begins with another expression and a mark behind it, or with a token of its own; `Expr.Front` lists
the ways. Three facts about the first tokens follow by induction on it.

* `Expr.Front.begins` : the first token closes nothing, and it is no unary operator where accesses
  may follow;
* `Expr.Front.second` : what may stand behind a name that comes first;
* `Expr.Front.lambdaHead?_eq_none` : nothing but an arrow function looks like one.
-/

namespace SchemaCanvas

/-- A token that neither closes nor introduces an expression. -/
def Token.Begins (t : Token) : Prop :=
  t ≠ .mark .closeParen ∧ t ≠ .mark .closeBracket ∧ t ≠ .mark .arrow

theorem Token.begins_of_ne_mark {t : Token} (h : ∀ m, t ≠ .mark m) : t.Begins := ⟨h _, h _, h _⟩

theorem UnaryOp.ofToken?_token (op : UnaryOp) : ofToken? op.token = some op := by cases op <;> rfl

theorem UnaryOp.begins_token (op : UnaryOp) : op.token.Begins := by
  cases op <;> exact ⟨nofun, nofun, nofun⟩

namespace Expr

variable {e : Expr} {place : Nat}

theorem tokensAt_of_le (h : place ≤ e.level) : e.tokensAt place = e.tokens := by
  rw [tokensAt, parenthesized, if_neg (by simpa using h)]

theorem tokensAt_of_lt (h : e.level < place) :
    e.tokensAt place = .mark .openParen :: (e.tokens ++ [.mark .closeParen]) := by
  rw [tokensAt, parenthesized, if_pos (by simpa using h)]

theorem tokensAt_succ (h : e.level ≠ place) : e.tokensAt (place + 1) = e.tokensAt place := by
  simp only [tokensAt, show e.level < place + 1 ↔ e.level < place by omega]

/-- How the written form of an expression begins. -/
inductive Front : Expr → Prop
  /-- the only token -/
  | alone {e : Expr} {t : Token} (htokens : e.tokens = [t]) (hlevel : e.level = 10)
      (hmark : ∀ m, t ≠ .mark m) (hop : UnaryOp.ofToken? t = none) : Front e
  | bracket (items : List Expr) : Front (.array items)
  | param (name : String) (body : Expr) : Front (.lambda name body)
  | operator (op : UnaryOp) {operand : Expr} (h : Front operand) : Front (.unary op operand)
  /-- an expression and a mark behind it -/
  | operand {e first : Expr} {place : Nat} {m : Mark} {behind : List Token} (h : Front first)
      (htokens : e.tokens = first.tokensAt place ++ .mark m :: behind)
      (hm : m ≠ .closeParen ∧ m ≠ .arrow) (hplace : 0 < place ∧ place < 10)
      (hlevel : 9 ≤ e.level → place = 9) : Front e

/-- **What was read has a written form.** -/
theorem Readable.front (h : Readable e) : Front e := by
  have hplace : 0 < 9 ∧ 9 < 10 := by decide
  induction h with
  | null => exact .alone rfl rfl nofun rfl
  | bool b => exact .alone rfl rfl nofun (by cases b <;> rfl)
  | str s => exact .alone rfl rfl nofun rfl
  | num h => exact .alone rfl rfl nofun rfl
  | undefined => exact .alone rfl rfl nofun rfl
  | ident h =>
    refine .alone rfl rfl nofun (if_neg fun heq => h ?_)
    simp [reservedNames, heq]
  | array => exact .bracket _
  | member _ _ optional ih =>
    exact .operand ih (by rw [tokens]; rfl) (by cases optional <;> decide) hplace fun _ => rfl
  | index _ _ optional ih =>
    cases optional
    · exact .operand ih rfl (by decide) hplace fun _ => rfl
    · exact .operand ih rfl (by decide) hplace fun _ => rfl
  | call _ _ ih => exact .operand ih rfl (by decide) hplace fun _ => rfl
  | lambda => exact .param _ _
  | unary op _ ih => exact .operator op ih
  | operation op _ _ ih =>
    have hlevel := op.level_lt
    refine .operand ih (tokens_apply ..) ?_ ⟨Nat.succ_pos _, by omega⟩ ?_
    · obtain op | op := op <;> cases op <;> decide
    · rw [level_apply]
      omega
  | conditional _ _ _ ih => exact .operand ih rfl (by decide) (by decide) nofun

theorem exists_begins_of_tokens {first : Token} {more : List Token} (place : Nat)
    (htokens : e.tokens = first :: more) (hfirst : first.Begins)
    (hop : 9 ≤ e.level → UnaryOp.ofToken? first = none) :
    ∃ first more, e.tokensAt place = first :: more ∧
      first.Begins ∧ (9 ≤ place → UnaryOp.ofToken? first = none) := by
  by_cases hlevel : e.level < place
  · exact ⟨_, _, tokensAt_of_lt hlevel, ⟨nofun, nofun, nofun⟩, fun _ => rfl⟩
  · refine ⟨first, more, ?_, hfirst, fun h => hop (by omega)⟩
    rw [tokensAt_of_le (by omega), htokens]

namespace Front

variable {name : String} {t : Token} {rest more : List Token}

theorem begins (h : Front e) (place : Nat) : ∃ first more, e.tokensAt place = first :: more ∧
    first.Begins ∧ (9 ≤ place → UnaryOp.ofToken? first = none) := by
  induction h generalizing place with
  | alone htokens _ hmark hop =>
    exact exists_begins_of_tokens place htokens (Token.begins_of_ne_mark hmark) fun _ => hop
  | bracket items =>
    exact exists_begins_of_tokens place rfl ⟨nofun, nofun, nofun⟩ fun _ => rfl
  | param name body => exact exists_begins_of_tokens place rfl ⟨nofun, nofun, nofun⟩ nofun
  | operator op => exact exists_begins_of_tokens place rfl op.begins_token (by simp [level])
  | @operand e first place' m behind _ htokens _ _ hlevel ih =>
    obtain ⟨token, more, hfirst, hbegins, hop⟩ := ih place'
    rw [hfirst] at htokens
    exact exists_begins_of_tokens place htokens hbegins fun h => hop (Nat.le_of_eq (hlevel h).symm)

theorem begins_listTokens (h : Front e) (items : List Expr) :
    ∃ first more, listTokens (e :: items) = first :: more ∧ first.Begins := by
  obtain ⟨first, more, htokens, hbegins, -⟩ := h.begins 0
  rw [tokensAt_of_le (Nat.zero_le _)] at htokens
  cases items with
  | nil => exact ⟨first, more, htokens, hbegins⟩
  | cons next items =>
    rw [listTokens, htokens]
    exact ⟨first, _, rfl, hbegins⟩

/-- A name that comes first is all that is written, or what follows it closes nothing, and an arrow
follows it in arrow functions only. -/
theorem second (h : Front e) (heq : e.tokens ++ rest = .ident name :: t :: more) :
    (e.tokens = [.ident name] ∧ e.level = 10) ∨
      t ≠ .mark .closeParen ∧ (t = .mark .arrow → e.level = 0) := by
  induction h generalizing rest more with
  | alone htokens hlevel =>
    rw [htokens] at heq ⊢
    cases heq
    exact .inl ⟨rfl, hlevel⟩
  | bracket items => cases heq
  | param =>
    cases heq
    exact .inr ⟨nofun, fun _ => rfl⟩
  | operator op h =>
    -- `typeof` is a name for the scanner
    obtain ⟨token, more, hnext, hbegins, -⟩ := h.begins 8
    have hcons : op.token :: (tokensAt 8 _ ++ rest) = _ := heq
    rw [hnext, List.cons_append, List.cons.injEq, List.cons.injEq] at hcons
    obtain ⟨-, rfl, -⟩ := hcons
    exact .inr ⟨hbegins.1, fun ht => absurd ht hbegins.2.2⟩
  | @operand e first place m behind h htokens hm hplace hlevel ih =>
    rw [htokens, List.append_assoc] at heq
    by_cases hlt : first.level < place
    · rw [tokensAt_of_lt hlt] at heq
      cases heq
    · rw [tokensAt_of_le (by omega)] at heq
      obtain ⟨hall, -⟩ | ⟨hclose, harrow⟩ := ih heq
      · -- the name is the whole operand, so the mark comes second
        rw [hall] at heq
        cases heq
        exact .inr ⟨by simpa using hm.1, fun ht => absurd ht (by simpa using hm.2)⟩
      · exact .inr ⟨hclose, fun ht => absurd (harrow ht) (by omega)⟩

/-- Parentheses stand around what has more than a name in it. -/
theorem tokensAt_ne_parenthesized (h : Front e) (hplace : place ≤ 10)
    (hne : e.tokens ++ rest ≠ .mark .openParen :: .ident name :: .mark .closeParen :: more) :
    e.tokensAt place ++ rest ≠
      .mark .openParen :: .ident name :: .mark .closeParen :: more := by
  by_cases hlt : e.level < place
  · intro heq
    rw [tokensAt_of_lt hlt, List.cons_append, List.append_assoc] at heq
    obtain ⟨-, hlevel⟩ | ⟨hclose, -⟩ := h.second (List.cons.inj heq).2
    · omega
    · exact hclose rfl
  · rwa [tokensAt_of_le (by omega)]

theorem tokens_ne_parenthesized (h : Front e) :
    e.tokens ++ rest ≠ .mark .openParen :: .ident name :: .mark .closeParen :: more := by
  induction h generalizing rest with
  | alone htokens _ hmark =>
    rw [htokens]
    exact fun heq => hmark _ (List.cons.inj heq).1
  | bracket | param => exact nofun
  | operator op => cases op <;> exact nofun
  | operand h htokens _ hplace _ ih =>
    rw [htokens, List.append_assoc]
    exact h.tokensAt_ne_parenthesized (Nat.le_of_lt hplace.2) ih

/-- What stands where an arrow function has to be put into parentheses does not look like one. -/
theorem lambdaHead?_eq_none (h : Front e) (hplace : 0 < place ∧ place ≤ 10)
    {placed : List PlacedToken} (hplaced : placed.map (·.token) = e.tokensAt place ++ rest)
    (hrest : rest.head? ≠ some (.mark .arrow)) : Parser.lambdaHead? placed = none := by
  refine Option.eq_none_iff_forall_ne_some.2 fun ⟨name, count⟩ hhead => ?_
  rw [Parser.lambdaHead?_eq_some_iff, hplaced] at hhead
  obtain ⟨-, more, heq⟩ | ⟨-, more, heq⟩ := hhead
  · -- without parentheses the arrow comes second, and only an arrow function has it there
    by_cases hlt : e.level < place
    · rw [tokensAt_of_lt hlt] at heq
      cases heq
    · rw [tokensAt_of_le (by omega)] at heq
      obtain ⟨hall, -⟩ | ⟨-, harrow⟩ := h.second heq
      · rw [hall] at heq
        obtain rfl := (List.cons.inj heq).2
        exact hrest rfl
      · have := harrow rfl
        omega
  · exact h.tokensAt_ne_parenthesized hplace.2 h.tokens_ne_parenthesized heq

end Front

end Expr

end SchemaCanvas
