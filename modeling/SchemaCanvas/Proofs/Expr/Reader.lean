import SchemaCanvas.Expr.Parser

/-!
# Readers of tokens

What a reader makes of its tokens does not depend on the places at which they stand, and neither
does it depend on the places whether it fails; only the place of the fault does. `Parser.Blind` says
so of one reader, and passes from the parts of a reader to the whole.

* `Parser.bind_eq_ok_iff` and `Parser.bind_of_ok` : one reader after the other;
* `Parser.lambdaHead?_eq_some_iff` : what introduces an arrow function;
* `Parser.blind_grammar` and `Parser.run_of_tokens` : whole expressions.
-/

namespace SchemaCanvas

namespace Parser

variable {α β : Type} {s s' t t' : State}

/-! ### One reader after the other -/

theorem pure_eq_ok_iff {a b : α} : (pure a : Parser α) s = .ok (b, s') ↔ a = b ∧ s = s' := by
  constructor
  · intro h
    cases h
    exact ⟨rfl, rfl⟩
  · rintro ⟨rfl, rfl⟩
    rfl

theorem bind_of_ok {p : Parser α} {f : α → Parser β} {a : α} (h : p s = .ok (a, t)) :
    (p >>= f) s = f a t := by
  change (p s >>= fun r => f r.1 r.2) = _
  rw [h]
  rfl

theorem bind_of_error {p : Parser α} {f : α → Parser β} {e : SyntaxError} (h : p s = .error e) :
    (p >>= f) s = .error e := by
  change (p s >>= fun r => f r.1 r.2) = _
  rw [h]
  rfl

theorem bind_eq_ok_iff {p : Parser α} {f : α → Parser β} {b : β} :
    (p >>= f) s = .ok (b, s') ↔ ∃ a t, p s = .ok (a, t) ∧ f a t = .ok (b, s') := by
  constructor
  · intro h
    cases hp : p s with
    | error e =>
      rw [bind_of_error hp] at h
      cases h
    | ok r =>
      rw [bind_of_ok hp] at h
      exact ⟨r.1, r.2, rfl, h⟩
  · rintro ⟨a, t, hp, hf⟩
    rw [bind_of_ok hp, hf]

/-! ### Tokens without their places -/

/-- The tokens that are left. -/
def State.tokens (s : State) : List Token := s.rest.map (·.token)

theorem peek_eq (s : State) : peek s = .ok (s.tokens.head?, s) := by
  rw [State.tokens, List.head?_map]
  rfl

theorem peek_bind (f : Option Token → Parser α) (s : State) :
    (peek >>= f) s = f s.tokens.head? s := bind_of_ok (peek_eq s)

theorem get_bind (f : State → Parser α) (s : State) :
    ((get : Parser State) >>= f) s = f s s := rfl

theorem isMark_eq_true_iff {m : Mark} {t : Option Token} : isMark m t ↔ t = some (.mark m) := by
  cases t with
  | none => simp [isMark]
  | some t => cases t <;> simp [isMark, eq_comm]

/-- An arrow function is introduced by its parameter and the arrow, perhaps with parentheses around
the parameter. -/
theorem lambdaHead?_eq_some_iff {placed : List PlacedToken} {param : String} {count : Nat} :
    lambdaHead? placed = some (param, count) ↔
      (count = 2 ∧ ∃ more, placed.map (·.token) = .ident param :: .mark .arrow :: more) ∨
      (count = 4 ∧ ∃ more, placed.map (·.token) =
        .mark .openParen :: .ident param :: .mark .closeParen :: .mark .arrow :: more) := by
  constructor
  · intro h
    unfold lambdaHead? at h
    split at h
    · cases h
      exact .inl ⟨rfl, _, rfl⟩
    · cases h
      exact .inr ⟨rfl, _, rfl⟩
    · cases h
  · rintro (⟨rfl, more, h⟩ | ⟨rfl, more, h⟩)
    · obtain ⟨⟨_, _⟩, _, rfl, rfl, harrow⟩ := List.map_eq_cons_iff.1 h
      obtain ⟨⟨_, _⟩, _, rfl, rfl, -⟩ := List.map_eq_cons_iff.1 harrow
      rfl
    · obtain ⟨⟨_, _⟩, _, rfl, rfl, hparam⟩ := List.map_eq_cons_iff.1 h
      obtain ⟨⟨_, _⟩, _, rfl, rfl, hclose⟩ := List.map_eq_cons_iff.1 hparam
      obtain ⟨⟨_, _⟩, _, rfl, rfl, harrow⟩ := List.map_eq_cons_iff.1 hclose
      obtain ⟨⟨_, _⟩, _, rfl, rfl, -⟩ := List.map_eq_cons_iff.1 harrow
      rfl

section

variable {expr unary : Parser Expr}

theorem conditional_of_some {param : String} {count : Nat}
    (h : lambdaHead? s.rest = some (param, count)) :
    conditional expr unary s =
      (do skip count; grow; return .lambda param (← expr) : Parser Expr) s := by
  rw [conditional, get_bind, h]

theorem conditional_of_none (h : lambdaHead? s.rest = none) :
    conditional expr unary s =
      (do
        let test ← infixLevels unary Infix.levels
        if ← eat .question then
          grow
          let consequent ← expr
          expect .colon
          return .conditional test consequent (← expr)
        else return test : Parser Expr) s := by
  rw [conditional, get_bind, h]

end

/-- Two states differ in the places of their tokens only. -/
def State.Alike (s t : State) : Prop := s.tokens = t.tokens ∧ s.nodes = t.nodes

/-- Two results differ in places only, or both are faults. -/
inductive Agree : Except SyntaxError (α × State) → Except SyntaxError (α × State) → Prop
  | ok {a : α} {s t : State} (h : s.Alike t) : Agree (.ok (a, s)) (.ok (a, t))
  | error {e e' : SyntaxError} : Agree (.error e) (.error e')

/-- A reader that does not look at places. -/
def Blind (p : Parser α) : Prop := ∀ ⦃s t : State⦄, s.Alike t → Agree (p s) (p t)

theorem blind_pure (a : α) : Blind (pure a) := fun _ _ h => .ok h

theorem blind_fail {fault : SyntaxFault} : Blind (fail fault : Parser α) := fun _ _ _ => .error

theorem Blind.bind {p : Parser α} {f : α → Parser β} (hp : Blind p) (hf : ∀ a, Blind (f a)) :
    Blind (p >>= f) := by
  intro s t h
  have hagree := hp h
  generalize hs : p s = rs at hagree
  generalize ht : p t = rt at hagree
  cases hagree with
  | ok hst =>
    rw [bind_of_ok hs, bind_of_ok ht]
    exact hf _ hst
  | error =>
    rw [bind_of_error hs, bind_of_error ht]
    exact .error

theorem blind_peek : Blind peek := by
  intro s t h
  rw [peek_eq, peek_eq, h.1]
  exact .ok h

theorem blind_skip (count : Nat) : Blind (skip count) := by
  intro s t h
  refine .ok ⟨?_, h.2⟩
  simp only [State.tokens, List.map_drop]
  exact congrArg (List.drop count) h.1

theorem blind_grow : Blind grow := by
  intro s t h
  change Agree ((if maxNodes < s.nodes + 1 then fail .tooLarge else pure ()) _)
    ((if maxNodes < t.nodes + 1 then fail .tooLarge else pure ()) _)
  rw [h.2]
  have hnext : State.Alike { s with nodes := s.nodes + 1 } { t with nodes := t.nodes + 1 } :=
    ⟨h.1, congrArg (· + 1) h.2⟩
  split
  · exact blind_fail hnext
  · exact blind_pure () hnext

theorem blind_eat (m : Mark) : Blind (eat m) :=
  blind_peek.bind fun next => by
    split
    · exact (blind_skip 1).bind fun _ => blind_pure true
    · exact blind_pure false

theorem blind_expect (m : Mark) : Blind (expect m) :=
  (blind_eat m).bind fun found => by
    split
    · exact blind_fail
    · exact blind_pure ()

theorem Blind.withRounds {loop : Nat → Parser α} (h : ∀ rounds, Blind (loop rounds)) :
    Blind (withRounds loop) := by
  intro s t hst
  have hlength : s.rest.length = t.rest.length := by
    simpa [State.tokens] using congrArg List.length hst.1
  change Agree (loop s.rest.length s) (loop t.rest.length t)
  rw [hlength]
  exact h _ hst

/-! ### Expressions -/

section

variable {expr operand plain : Parser Expr} (hexpr : Blind expr) (hoperand : Blind operand)

include hoperand in
theorem blind_infixTail (level : Nat) (left : Expr) (rounds : Nat) :
    Blind (infixTail level operand left rounds) := by
  induction rounds generalizing left with
  | zero => exact blind_pure left
  | succ rounds ih =>
    refine blind_peek.bind fun next => ?_
    split
    · exact blind_pure left
    · exact (blind_skip 1).bind fun _ => blind_grow.bind fun _ => hoperand.bind fun right => ih _

include hoperand in
theorem blind_infixLevels (count : Nat) : Blind (infixLevels operand count) := by
  induction count with
  | zero => exact hoperand
  | succ count ih => exact ih.bind fun left => .withRounds (blind_infixTail ih _ left)

include hexpr hoperand in
theorem blind_conditional : Blind (conditional expr operand) := by
  intro s t h
  have hhead : lambdaHead? s.rest = lambdaHead? t.rest := by
    refine Option.ext fun ⟨param, count⟩ => ?_
    simp only [lambdaHead?_eq_some_iff]
    rw [show s.rest.map (·.token) = t.rest.map (·.token) from h.1]
  cases hnext : lambdaHead? t.rest with
  | some head =>
    rw [conditional_of_some (hhead.trans hnext), conditional_of_some hnext]
    exact ((blind_skip _).bind fun _ => blind_grow.bind fun _ => hexpr.bind fun body =>
      blind_pure _) h
  | none =>
    rw [conditional_of_none (hhead.trans hnext), conditional_of_none hnext]
    refine ((blind_infixLevels hoperand _).bind fun test => (blind_eat _).bind fun found => ?_) h
    split
    · exact blind_grow.bind fun _ => hexpr.bind fun consequent => (blind_expect _).bind fun _ =>
        hexpr.bind fun alternate => blind_pure _
    · exact blind_pure test

theorem blind_propertyName : Blind propertyName :=
  blind_peek.bind fun next => by
    split
    · exact (blind_skip 1).bind fun _ => blind_pure _
    · exact blind_fail

include hexpr

theorem blind_listTail (close : Mark) (rounds : Nat) : Blind (listTail expr close rounds) := by
  induction rounds with
  | zero => exact blind_pure []
  | succ rounds ih =>
    refine hexpr.bind fun item => (blind_eat close).bind fun closed => ?_
    split
    · exact blind_pure [item]
    · refine (blind_expect .comma).bind fun _ => (blind_eat close).bind fun closed => ?_
      split
      · exact blind_pure [item]
      · exact ih.bind fun rest => blind_pure _

theorem blind_list (close : Mark) : Blind (list expr close) := by
  refine (blind_eat close).bind fun closed => ?_
  split
  · exact blind_pure []
  · exact .withRounds fun rounds => blind_listTail hexpr close _

theorem blind_primary : Blind (primary expr) := by
  refine blind_peek.bind fun next => ?_
  split
  · exact blind_fail
  · exact (blind_skip 1).bind fun _ => blind_pure _
  · exact (blind_skip 1).bind fun _ => blind_pure _
  · exact (blind_skip 1).bind fun _ => blind_pure _
  · exact (blind_skip 1).bind fun _ => hexpr.bind fun inner => (blind_expect _).bind fun _ =>
      blind_pure inner
  · exact (blind_skip 1).bind fun _ => (blind_list hexpr _).bind fun items => blind_pure _
  · exact blind_fail

theorem blind_bracketed : Blind (bracketed expr) :=
  hexpr.bind fun index => (blind_expect _).bind fun _ => blind_pure index

theorem blind_access? (object : Expr) : Blind (access? expr object) := by
  refine blind_peek.bind fun next => ?_
  split
  · exact blind_grow.bind fun _ => (blind_skip 1).bind fun _ => blind_propertyName.bind fun name =>
      blind_pure _
  · refine blind_grow.bind fun _ => (blind_skip 1).bind fun _ => (blind_eat _).bind fun found => ?_
    split
    · exact (blind_bracketed hexpr).bind fun key => blind_pure _
    · exact blind_propertyName.bind fun name => blind_pure _
  · exact blind_grow.bind fun _ => (blind_skip 1).bind fun _ => (blind_bracketed hexpr).bind
      fun key => blind_pure _
  · exact blind_grow.bind fun _ => (blind_skip 1).bind fun _ => (blind_list hexpr _).bind
      fun args => blind_pure _
  · exact blind_pure none

theorem blind_accessTail (object : Expr) (rounds : Nat) :
    Blind (accessTail expr object rounds) := by
  induction rounds generalizing object with
  | zero => exact blind_pure object
  | succ rounds ih =>
    refine (blind_access? hexpr object).bind fun next => ?_
    split
    · exact ih _
    · exact blind_pure object

theorem blind_postfixed : Blind (postfixed expr) :=
  (blind_primary hexpr).bind fun object => .withRounds (blind_accessTail hexpr object)

end

theorem blind_prefixed {operand plain : Parser Expr} (hoperand : Blind operand)
    (hplain : Blind plain) : Blind (prefixed operand plain) := by
  refine blind_peek.bind fun next => ?_
  split
  · exact (blind_skip 1).bind fun _ => blind_grow.bind fun _ => hoperand.bind fun e =>
      blind_pure _
  · exact hplain

theorem blind_grammar (nesting : Nat) :
    Blind (grammar nesting).expr ∧ Blind (grammar nesting).unary := by
  induction nesting with
  | zero => exact ⟨blind_fail, blind_prefixed blind_fail (blind_postfixed blind_fail)⟩
  | succ nesting ih =>
    have hexpr := blind_conditional ih.1 ih.2
    exact ⟨hexpr, blind_prefixed ih.2 (blind_postfixed hexpr)⟩

/-! ### Whole expressions -/

theorem whole_eq_ok_iff {e : Expr} :
    whole s = .ok (e, t) ↔ (grammar maxNesting).expr s = .ok (e, t) ∧ t.tokens = [] := by
  rw [whole, bind_eq_ok_iff]
  constructor
  · rintro ⟨e', u, hexpr, h⟩
    rw [peek_bind] at h
    cases hnext : u.tokens with
    | nil =>
      rw [hnext] at h
      obtain ⟨rfl, rfl⟩ := pure_eq_ok_iff.1 h
      exact ⟨hexpr, hnext⟩
    | cons next rest =>
      rw [hnext] at h
      cases h
  · rintro ⟨hexpr, hnil⟩
    refine ⟨e, t, hexpr, ?_⟩
    rw [peek_bind, hnil]
    rfl

/-- A list of tokens is read if it is not empty and the grammar takes all of it. -/
theorem run_eq_ok_iff {placed : List PlacedToken} {limit : Nat} {e : Expr} :
    run placed limit = .ok e ↔ placed ≠ [] ∧
      ∃ t, (grammar maxNesting).expr ⟨placed, 0, limit⟩ = .ok (e, t) ∧ t.tokens = [] := by
  simp only [← whole_eq_ok_iff, run]
  cases placed with
  | nil => simp
  | cons first rest =>
    cases whole ⟨first :: rest, 0, limit⟩ with
    | error => simp [Except.map]
    | ok r => simp [Except.map, Prod.ext_iff]

/-- **Whether and how tokens are read does not depend on their places.** -/
theorem run_of_tokens {placed placed' : List PlacedToken} {limit limit' : Nat} {e : Expr}
    (htokens : placed.map (·.token) = placed'.map (·.token)) (h : run placed limit = .ok e) :
    run placed' limit' = .ok e := by
  obtain ⟨hne, t, hexpr, hnil⟩ := run_eq_ok_iff.1 h
  have halike : State.Alike ⟨placed, 0, limit⟩ ⟨placed', 0, limit'⟩ := ⟨htokens, rfl⟩
  have hagree := (blind_grammar maxNesting).1 halike
  rw [hexpr] at hagree
  generalize hr : (grammar maxNesting).expr ⟨placed', 0, limit'⟩ = r at hagree
  cases hagree with
  | @ok _ _ t' ht =>
    refine run_eq_ok_iff.2 ⟨fun hnil' => hne ?_, t', hr, ht.1 ▸ hnil⟩
    rw [hnil'] at htokens
    exact List.map_eq_nil_iff.1 htokens

end Parser

end SchemaCanvas
