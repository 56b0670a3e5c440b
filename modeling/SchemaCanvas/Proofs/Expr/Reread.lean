import SchemaCanvas.Proofs.Expr.Front
import SchemaCanvas.Proofs.Expr.Made

/-!
# Written expressions are read back

The written form of an expression is read as that expression, and with it the tokens behind are
left as they are, as long as none of them continues the expression. Each reader is shown to read
the expressions at its place, from the tightest to the loosest. The left operands of an operator,
and likewise the objects of an access, lie along a spine that a loop goes through from its far end;
`Parser.Leads` says how far the loop has come.

* `Parser.Reads` : what a reader reads back at a place, with room for so much nesting;
* `Parser.reads_grammar` : the readers of the grammar;
* `Parser.run_tokens` : whole expressions.
-/

namespace SchemaCanvas

/-- The tightest place at which a mark continues the expression before it. -/
def Mark.reach? : Mark → Option Nat
  | dot | optionalDot | openBracket | openParen => some 9
  | times | divide | percent => some 7
  | plus | minus => some 6
  | lt | le | gt | ge => some 5
  | strictEq | strictNe | looseEq | looseNe => some 4
  | and => some 3
  | or => some 2
  | nullish => some 1
  | question | arrow => some 0
  | bang | colon | comma | closeParen | closeBracket => none

theorem Mark.reach?_lt {m : Mark} {reach : Nat} (h : m.reach? = some reach) : reach < 10 := by
  cases m <;> cases h <;> decide

theorem Infix.reach?_mark (op : Infix) : op.mark.reach? = some (op.level + 1) := by
  obtain op | op := op <;> cases op <;> rfl

namespace Expr

variable {e : Expr}

theorem Readable.exists_apply (h : Readable e) {level : Nat} (hlevel : e.level = level + 1)
    (hlt : level < 7) :
    ∃ op left right, e = Infix.apply op left right ∧ op.level = level ∧
      Readable left ∧ Readable right := by
  cases h with
  | operation op hleft hright =>
    rw [level_apply, Nat.succ_inj] at hlevel
    exact ⟨op, _, _, rfl, hlevel, hleft, hright⟩
  | _ =>
    simp only [Expr.level] at hlevel
    omega

theorem Readable.exists_access (h : Readable e) (hlevel : e.level = 9) :
    (∃ object property optional, e = .member object property optional ∧ Readable object) ∨
    (∃ object key optional, e = .index object key optional ∧ Readable object ∧ Readable key) ∨
    ∃ callee args, e = .call callee args ∧ Readable callee ∧ ∀ e ∈ args, Readable e := by
  cases h with
  | member h property optional => exact .inl ⟨_, _, _, rfl, h⟩
  | index h hkey optional => exact .inr (.inl ⟨_, _, _, rfl, h, hkey⟩)
  | call h hargs => exact .inr (.inr ⟨_, _, rfl, h, hargs⟩)
  | operation op =>
    have := op.level_lt
    rw [level_apply] at hlevel
    omega
  | _ => cases hlevel

theorem Readable.exists_unary (h : Readable e) (hlevel : e.level = 8) :
    ∃ op operand, e = .unary op operand ∧ Readable operand := by
  cases h with
  | unary op h => exact ⟨op, _, rfl, h⟩
  | operation op =>
    have := op.level_lt
    rw [level_apply] at hlevel
    omega
  | _ => cases hlevel

theorem Readable.exists_of_level_zero (h : Readable e) (hlevel : e.level = 0) :
    (∃ param body, e = .lambda param body ∧ Readable body) ∨
    ∃ test consequent alternate, e = .conditional test consequent alternate ∧
      Readable test ∧ Readable consequent ∧ Readable alternate := by
  cases h with
  | lambda param h => exact .inl ⟨_, _, rfl, h⟩
  | conditional htest hthen helse => exact .inr ⟨_, _, _, rfl, htest, hthen, helse⟩
  | operation op =>
    rw [level_apply] at hlevel
    cases hlevel
  | _ => cases hlevel

theorem length_le_listTokens (items : List Expr) :
    items.length ≤ (listTokens items).length + 1 := by
  induction items with
  | nil => exact Nat.zero_le _
  | cons e items ih =>
    cases items with
    | nil => simp
    | cons next items =>
      rw [listTokens, List.length_append]
      simp only [List.length_cons] at ih ⊢
      omega

end Expr

namespace Parser

open SchemaCanvas.Expr

/-- Tokens without their places, behind so many composite nodes. -/
def State.of (ts : List Token) (nodes : Nat) : State := ⟨ts.map (⟨·, 0⟩), nodes, 0⟩

variable {ts rest : List Token} {nodes nodes' place : Nat} {m : Mark}

@[simp] theorem State.tokens_of : (State.of ts nodes).tokens = ts := by
  simp [State.of, State.tokens, Function.comp_def]

theorem skip_of_cons {t : Token} : skip 1 (.of (t :: ts) nodes) = .ok ((), .of ts nodes) := rfl

theorem grow_of (h : nodes < maxNodes) : grow (.of ts nodes) = .ok ((), .of ts (nodes + 1)) := by
  change (if maxNodes < nodes + 1 then fail .tooLarge else pure () : Parser Unit) _ = _
  rw [if_neg (by omega)]
  rfl

theorem eat_of_cons : eat m (.of (.mark m :: ts) nodes) = .ok (true, .of ts nodes) := by
  rw [eat, peek_bind, if_pos (isMark_eq_true_iff.2 (by simp))]
  rfl

theorem eat_of_ne (h : ts.head? ≠ some (.mark m)) :
    eat m (.of ts nodes) = .ok (false, .of ts nodes) := by
  rw [eat, peek_bind, if_neg (by rwa [isMark_eq_true_iff, State.tokens_of])]
  rfl

theorem head?_ne_of_ne {n : Mark} (h : n ≠ m) : (Token.mark n :: ts).head? ≠ some (.mark m) :=
  fun heq => h (Token.mark.inj (Option.some.inj heq))

theorem eat_of_mark_ne {n : Mark} (h : n ≠ m) :
    eat m (.of (.mark n :: ts) nodes) = .ok (false, .of (.mark n :: ts) nodes) :=
  eat_of_ne (head?_ne_of_ne h)

theorem expect_of_cons : expect m (.of (.mark m :: ts) nodes) = .ok ((), .of ts nodes) :=
  (bind_of_ok eat_of_cons).trans rfl

theorem named_of_not_mem {name : String} (h : name ∉ reservedNames) : named name = .ident name := by
  simp only [reservedNames, List.mem_cons, not_or] at h
  rw [named, if_neg h.1, if_neg h.2.1, if_neg h.2.2.1, if_neg h.2.2.2.1]

/-- No token comes next that continues an expression at a place. -/
def Stops (place : Nat) (ts : List Token) : Prop :=
  ∀ m reach, ts.head? = some (.mark m) → m.reach? = some reach → reach < place

theorem stops_nil : Stops place [] := nofun

theorem stops_cons (h : ∀ reach ∈ m.reach?, reach < place) : Stops place (.mark m :: ts) := by
  intro n reach hn hreach
  cases hn
  exact h reach hreach

theorem stops_of_reach?_eq_none (h : m.reach? = none) : Stops place (.mark m :: ts) :=
  stops_cons (by simp only [h, Option.mem_def, reduceCtorEq, false_implies, implies_true])

theorem Stops.mono {place' : Nat} (h : Stops place ts) (hle : place ≤ place') : Stops place' ts :=
  fun m reach hm hreach => Nat.lt_of_lt_of_le (h m reach hm hreach) hle

theorem Stops.head?_ne {reach : Nat} (h : Stops place ts) (hreach : m.reach? = some reach)
    (hle : place ≤ reach) : ts.head? ≠ some (.mark m) :=
  fun hm => Nat.not_lt.2 hle (h m reach hm hreach)

/-! ### Loops behind a reader -/

/-- A reader and rounds of a loop behind it have come to an expression. -/
def Leads (first : Parser Expr) (tail : Expr → Nat → Parser Expr) (s : State) (e : Expr)
    (t : State) : Prop :=
  ∃ left u count, first s = .ok (left, u) ∧ t.rest.length + count ≤ u.rest.length ∧
    ∀ rounds, tail left (rounds + count) u = tail e rounds t

section

variable {first : Parser Expr} {tail : Expr → Nat → Parser Expr} {s t u : State} {e left : Expr}

theorem Leads.refl (h : first s = .ok (e, t)) : Leads first tail s e t :=
  ⟨e, t, 0, h, Nat.le_refl _, fun _ => rfl⟩

theorem Leads.step (h : Leads first tail s left u) (hlength : t.rest.length < u.rest.length)
    (hround : ∀ rounds, tail left (rounds + 1) u = tail e rounds t) : Leads first tail s e t := by
  obtain ⟨object, v, count, hfirst, hle, htail⟩ := h
  refine ⟨object, v, count + 1, hfirst, by omega, fun rounds => ?_⟩
  rw [← hround, ← htail, Nat.add_right_comm, Nat.add_assoc]

theorem Leads.run (h : Leads first tail s e t) (hstop : ∀ rounds, tail e rounds t = .ok (e, t)) :
    (do withRounds (tail (← first)) : Parser Expr) s = .ok (e, t) := by
  obtain ⟨object, u, count, hfirst, hle, htail⟩ := h
  refine (bind_of_ok hfirst).trans ?_
  obtain ⟨rounds, hrounds⟩ := Nat.exists_eq_add_of_le (Nat.le_trans (Nat.le_add_left _ _) hle)
  change tail object u.rest.length u = _
  rw [hrounds, Nat.add_comm, htail, hstop]

end

/-! ### Reading back -/

/-- A reader reads back what is written at a place, with room for so much nesting. -/
def Reads (p : Parser Expr) (place room : Nat) : Prop :=
  ∀ ⦃e : Expr⦄, Readable e → e.nestingAt place < room → ∀ ⦃rest nodes nodes'⦄, Stops place rest →
    nodes' = nodes + e.composites → nodes' ≤ maxNodes →
    p (.of (e.tokensAt place ++ rest) nodes) = .ok (e, .of rest nodes')

theorem reads_zero {p : Parser Expr} : Reads p place 0 := fun _ _ h => absurd h (Nat.not_lt_zero _)

section

variable {expr operand : Parser Expr} {room : Nat} (hexpr : Reads expr 0 room)

/-- Where every level will do, nothing is put into parentheses. -/
theorem Reads.tokens (hexpr : Reads expr 0 room) {e : Expr} (h : Readable e)
    (hnesting : e.nesting < room) (hrest : Stops 0 rest) (hnodes : nodes' = nodes + e.composites)
    (hle : nodes' ≤ maxNodes) :
    expr (.of (e.tokens ++ rest) nodes) = .ok (e, .of rest nodes') := by
  have hnesting' : e.nestingAt 0 < room := by rwa [nestingAt_of_le (Nat.zero_le _)]
  have := hexpr h hnesting' hrest hnodes hle
  rwa [tokensAt_of_le (Nat.zero_le _)] at this

/-! ### Lists -/

omit hexpr in
theorem reach?_of_closes {close : Mark} (hclose : close = .closeParen ∨ close = .closeBracket) :
    close.reach? = none := by
  obtain rfl | rfl := hclose
  · rfl
  · rfl

omit hexpr in
theorem comma_ne_of_closes {close : Mark} (hclose : close = .closeParen ∨ close = .closeBracket) :
    .comma ≠ close := by
  obtain rfl | rfl := hclose
  · decide
  · decide

omit hexpr in
/-- A list that is not empty does not close at once. -/
theorem eat_listTokens {close : Mark} (hclose : close = .closeParen ∨ close = .closeBracket)
    {e : Expr} (h : Readable e) {items : List Expr} :
    eat close (.of (listTokens (e :: items) ++ rest) nodes) =
      .ok (false, .of (listTokens (e :: items) ++ rest) nodes) := by
  obtain ⟨first, more, htokens, hbegins⟩ := h.front.begins_listTokens items
  rw [htokens]
  refine eat_of_ne fun heq => ?_
  obtain rfl : first = .mark close := Option.some.inj heq
  obtain rfl | rfl := hclose
  · exact hbegins.1 rfl
  · exact hbegins.2.1 rfl

include hexpr

theorem reads_listTail {close : Mark} (hclose : close = .closeParen ∨ close = .closeBracket)
    {item : Expr} {items : List Expr} (h : ∀ e ∈ item :: items, Readable e)
    (hnesting : listNesting (item :: items) ≤ room) {rounds : Nat} (hrounds : items.length < rounds)
    (hnodes : nodes' = nodes + listComposites (item :: items)) (hle : nodes' ≤ maxNodes) :
    listTail expr close rounds (.of (listTokens (item :: items) ++ .mark close :: rest) nodes) =
      .ok (item :: items, .of rest nodes') := by
  induction items generalizing item nodes rounds with
  | nil =>
    obtain ⟨rounds, rfl⟩ := Nat.exists_eq_add_one.2 (Nat.zero_lt_of_lt hrounds)
    simp only [listNesting, listComposites] at hnesting hnodes
    have hstops : Stops 0 (.mark close :: rest) := stops_of_reach?_eq_none (reach?_of_closes hclose)
    have hitem := hexpr.tokens (h item List.mem_cons_self) (by omega) hstops hnodes hle
    refine (bind_of_ok hitem).trans ?_
    exact (bind_of_ok eat_of_cons).trans rfl
  | cons next items ih =>
    obtain ⟨rounds, rfl⟩ := Nat.exists_eq_add_one.2 (Nat.zero_lt_of_lt hrounds)
    rw [listNesting] at hnesting
    rw [listComposites] at hnodes
    obtain ⟨hitem, hitems⟩ := List.forall_mem_cons.1 h
    let more := listTokens (next :: items) ++ .mark close :: rest
    have hfirst : expr (.of (item.tokens ++ .mark .comma :: more) nodes) =
        .ok (item, .of (.mark .comma :: more) (nodes + item.composites)) :=
      hexpr.tokens hitem (by omega) (stops_of_reach?_eq_none rfl) rfl (by omega)
    have hmore : listTail expr close rounds (.of more (nodes + item.composites)) =
        .ok (next :: items, .of rest nodes') :=
      ih hitems (by omega) (Nat.lt_of_succ_lt_succ hrounds) (by omega)
    rw [listTokens, List.append_assoc]
    refine (bind_of_ok hfirst).trans ?_
    refine (bind_of_ok (eat_of_mark_ne (comma_ne_of_closes hclose))).trans ?_
    refine (bind_of_ok expect_of_cons).trans ?_
    refine (bind_of_ok (eat_listTokens hclose (hitems next List.mem_cons_self))).trans ?_
    exact (bind_of_ok hmore).trans rfl

theorem reads_list {close : Mark} (hclose : close = .closeParen ∨ close = .closeBracket)
    {items : List Expr} (h : ∀ e ∈ items, Readable e) (hnesting : listNesting items ≤ room)
    (hnodes : nodes' = nodes + listComposites items) (hle : nodes' ≤ maxNodes) :
    list expr close (.of (listTokens items ++ .mark close :: rest) nodes) =
      .ok (items, .of rest nodes') := by
  cases items with
  | nil =>
    obtain rfl : nodes' = nodes := hnodes
    exact (bind_of_ok eat_of_cons).trans rfl
  | cons item items =>
    refine (bind_of_ok (eat_listTokens hclose (h item List.mem_cons_self))).trans ?_
    refine reads_listTail hexpr hclose h hnesting ?_ hnodes hle
    have hlength := length_le_listTokens (item :: items)
    simp only [State.of, List.length_map, List.length_append, List.length_cons] at hlength ⊢
    omega

/-! ### What stands by itself -/

theorem reads_primary : Reads (primary expr) 10 (room + 1) := by
  intro e h hnesting rest nodes nodes' _ hnodes hle
  by_cases hlevel : e.level < 10
  · -- parentheses take one level of nesting, and every level of precedence will do inside
    rw [nestingAt_of_lt hlevel] at hnesting
    rw [tokensAt_of_lt hlevel, List.cons_append, List.append_assoc]
    have hinner : expr (.of (e.tokens ++ .mark .closeParen :: rest) nodes) =
        .ok (e, .of (.mark .closeParen :: rest) nodes') :=
      hexpr.tokens h (by omega) (stops_of_reach?_eq_none rfl) hnodes hle
    refine (bind_of_ok rfl).trans ?_
    refine (bind_of_ok skip_of_cons).trans ?_
    refine (bind_of_ok hinner).trans ?_
    exact (bind_of_ok expect_of_cons).trans rfl
  · rw [nestingAt_of_le (by omega)] at hnesting
    rw [tokensAt_of_le (by omega)]
    cases h with
    | null | str | undefined => exact hnodes ▸ rfl
    | bool b => cases b <;> exact hnodes ▸ rfl
    | @num n h =>
      obtain rfl : nodes' = nodes := hnodes
      refine (bind_of_ok rfl).trans ((bind_of_ok skip_of_cons).trans ?_)
      rw [h]
      rfl
    | @ident name h =>
      obtain rfl : nodes' = nodes := hnodes
      refine (bind_of_ok rfl).trans ((bind_of_ok skip_of_cons).trans ?_)
      rw [named_of_not_mem h]
      rfl
    | @array items h =>
      rw [nesting] at hnesting
      rw [composites] at hnodes
      rw [tokens, List.cons_append, List.append_assoc]
      have hitems : list expr .closeBracket
          (.of (listTokens items ++ .mark .closeBracket :: rest) nodes) =
            .ok (items, .of rest nodes') :=
        reads_list hexpr (.inr rfl) h (by omega) hnodes hle
      refine (bind_of_ok rfl).trans ((bind_of_ok skip_of_cons).trans ?_)
      exact (bind_of_ok hitems).trans rfl
    | operation op =>
      have := op.level_lt
      rw [level_apply] at hlevel
      omega
    | _ => simp [level] at hlevel

/-! ### Accesses -/

theorem reads_bracketed {key : Expr} (h : Readable key) (hnesting : key.nesting < room)
    (hnodes : nodes' = nodes + key.composites) (hle : nodes' ≤ maxNodes) :
    bracketed expr (.of (key.tokens ++ .mark .closeBracket :: rest) nodes) =
      .ok (key, .of rest nodes') := by
  have hkey : expr (.of (key.tokens ++ .mark .closeBracket :: rest) nodes) =
      .ok (key, .of (.mark .closeBracket :: rest) nodes') :=
    hexpr.tokens h hnesting (stops_of_reach?_eq_none rfl) hnodes hle
  refine (bind_of_ok hkey).trans ?_
  exact (bind_of_ok expect_of_cons).trans rfl

omit hexpr in
theorem access?_of_stops {e : Expr} (h : Stops 9 ts) :
    access? expr e (.of ts nodes) = .ok (none, .of ts nodes) := by
  rw [access?, peek_bind, State.tokens_of]
  generalize hhead : ts.head? = next
  split
  · exact absurd hhead (h.head?_ne rfl (Nat.le_refl 9))
  · exact absurd hhead (h.head?_ne rfl (Nat.le_refl 9))
  · exact absurd hhead (h.head?_ne rfl (Nat.le_refl 9))
  · exact absurd hhead (h.head?_ne rfl (Nat.le_refl 9))
  · rfl

omit hexpr in
theorem access?_member {object : Expr} {property : String} (optional : Bool)
    (hgrow : nodes < maxNodes) :
    access? expr object (.of (.mark (dot optional) :: .ident property :: rest) nodes) =
      .ok (some (.member object property optional), .of rest (nodes + 1)) := by
  cases optional with
  | false =>
    refine (bind_of_ok rfl).trans ?_
    refine (bind_of_ok (grow_of hgrow)).trans ?_
    exact (bind_of_ok skip_of_cons).trans rfl
  | true =>
    have hname : (Token.ident property :: rest).head? ≠ some (.mark .openBracket) := nofun
    refine (bind_of_ok rfl).trans ?_
    refine (bind_of_ok (grow_of hgrow)).trans ?_
    refine (bind_of_ok skip_of_cons).trans ?_
    exact (bind_of_ok (eat_of_ne hname)).trans rfl

theorem access?_index {object key : Expr} (optional : Bool) (h : Readable key)
    (hnesting : key.nesting < room) (hnodes : nodes' = nodes + 1 + key.composites)
    (hle : nodes' ≤ maxNodes) :
    access? expr object
        (.of (openIndex optional ++ (key.tokens ++ .mark .closeBracket :: rest)) nodes) =
      .ok (some (.index object key optional), .of rest nodes') := by
  have hread : bracketed expr (.of (key.tokens ++ .mark .closeBracket :: rest) (nodes + 1)) =
      .ok (key, .of rest nodes') := reads_bracketed hexpr h hnesting hnodes hle
  have hgrow : nodes < maxNodes := by omega
  cases optional with
  | false =>
    refine (bind_of_ok rfl).trans ?_
    refine (bind_of_ok (grow_of hgrow)).trans ?_
    refine (bind_of_ok skip_of_cons).trans ?_
    exact (bind_of_ok hread).trans rfl
  | true =>
    refine (bind_of_ok rfl).trans ?_
    refine (bind_of_ok (grow_of hgrow)).trans ?_
    refine (bind_of_ok skip_of_cons).trans ?_
    refine (bind_of_ok eat_of_cons).trans ?_
    exact (bind_of_ok hread).trans rfl

theorem access?_call {callee : Expr} {args : List Expr} (h : ∀ e ∈ args, Readable e)
    (hnesting : listNesting args ≤ room) (hnodes : nodes' = nodes + 1 + listComposites args)
    (hle : nodes' ≤ maxNodes) :
    access? expr callee
        (.of (.mark .openParen :: (listTokens args ++ .mark .closeParen :: rest)) nodes) =
      .ok (some (.call callee args), .of rest nodes') := by
  have hread : list expr .closeParen
      (.of (listTokens args ++ .mark .closeParen :: rest) (nodes + 1)) =
        .ok (args, .of rest nodes') :=
    reads_list hexpr (.inl rfl) h hnesting hnodes hle
  have hgrow : nodes < maxNodes := by omega
  refine (bind_of_ok rfl).trans ?_
  refine (bind_of_ok (grow_of hgrow)).trans ?_
  refine (bind_of_ok skip_of_cons).trans ?_
  exact (bind_of_ok hread).trans rfl

/-- An access is read behind its object. -/
theorem reads_access {e : Expr} (h : Readable e) (hlevel : e.level = 9)
    (hnesting : e.nesting < room + 1) :
    ∃ object suffix, Readable object ∧ object.nestingAt 9 < room + 1 ∧
      object.composites < e.composites ∧ suffix ≠ [] ∧ e.tokens = object.tokensAt 9 ++ suffix ∧
      ∀ {rest nodes}, nodes + e.composites ≤ maxNodes →
        access? expr object (.of (suffix ++ rest) (nodes + object.composites)) =
          .ok (some e, .of rest (nodes + e.composites)) := by
  obtain ⟨object, property, optional, rfl, hobject⟩ |
    ⟨object, key, optional, rfl, hobject, hkey⟩ | ⟨callee, args, rfl, hcallee, hargs⟩ :=
    h.exists_access hlevel
  · exact ⟨object, _, hobject, hnesting, Nat.lt_succ_self _, List.cons_ne_nil _ _, rfl,
      fun hle => access?_member optional hle⟩
  · obtain ⟨hnesting, hkeynesting⟩ := Nat.max_lt.1 hnesting
    have hcomposites : (Expr.index object key optional).composites =
        object.composites + key.composites + 1 := rfl
    refine ⟨object, openIndex optional ++ (key.tokens ++ [.mark .closeBracket]), hobject, hnesting,
      by omega, by cases optional <;> nofun, rfl, fun hle => ?_⟩
    rw [List.append_assoc, List.append_assoc, List.singleton_append]
    exact access?_index hexpr optional hkey (Nat.lt_of_succ_lt_succ hkeynesting) (by omega) hle
  · obtain ⟨hnesting, hargsnesting⟩ := Nat.max_lt.1 hnesting
    have hcomposites : (Expr.call callee args).composites =
        callee.composites + listComposites args + 1 := rfl
    refine ⟨callee, _, hcallee, hnesting, by omega, List.cons_ne_nil _ _, rfl, fun hle => ?_⟩
    rw [List.cons_append, List.append_assoc, List.singleton_append]
    exact access?_call hexpr hargs (Nat.le_of_lt_succ hargsnesting) (by omega) hle

/-- The loop over accesses comes to an expression from the object at the far end. -/
theorem leads_access {e : Expr} (h : Readable e) (hnesting : e.nestingAt 9 < room + 1)
    {rest : List Token} (hle : nodes + e.composites ≤ maxNodes) :
    Leads (primary expr) (accessTail expr) (.of (e.tokensAt 9 ++ rest) nodes) e
      (.of rest (nodes + e.composites)) := by
  by_cases hlevel : e.level = 9
  · rw [nestingAt_of_le (Nat.le_of_eq hlevel.symm)] at hnesting
    rw [tokensAt_of_le (Nat.le_of_eq hlevel.symm)]
    obtain ⟨object, suffix, hobject, hobjectnesting, hlt, hne, htokens, haccess⟩ :=
      reads_access hexpr h hlevel hnesting
    rw [htokens, List.append_assoc]
    -- the object is smaller, so the loop comes to it and has this access left
    have hspine : Leads (primary expr) (accessTail expr)
        (.of (object.tokensAt 9 ++ (suffix ++ rest)) nodes) object
        (.of (suffix ++ rest) (nodes + object.composites)) :=
      leads_access hobject hobjectnesting (by omega)
    refine hspine.step ?_ fun rounds => bind_of_ok (haccess hle)
    have := List.length_pos_iff.2 hne
    simp only [State.of, List.length_map, List.length_append]
    omega
  · rw [← nestingAt_succ hlevel] at hnesting
    rw [← tokensAt_succ hlevel]
    exact .refl (reads_primary hexpr h hnesting (fun m reach _ => Mark.reach?_lt) rfl hle)
termination_by e.composites

theorem reads_postfixed : Reads (postfixed expr) 9 (room + 1) := by
  intro e h hnesting rest nodes nodes' hrest hnodes hle
  rw [hnodes] at hle ⊢
  refine (leads_access hexpr h hnesting hle).run fun rounds => ?_
  cases rounds with
  | zero => rfl
  | succ rounds => exact (bind_of_ok (access?_of_stops hrest)).trans rfl

/-! ### Operators -/

theorem reads_prefixed (hoperand : Reads operand 8 room) :
    Reads (prefixed operand (postfixed expr)) 8 (room + 1) := by
  intro e h hnesting rest nodes nodes' hrest hnodes hle
  by_cases hlevel : e.level = 8
  · obtain ⟨op, operand, rfl, hread⟩ := h.exists_unary hlevel
    have hnext : nodes' = nodes + 1 + operand.composites := by
      rw [hnodes, composites]
      omega
    have hread := hoperand hread (Nat.lt_of_succ_lt_succ hnesting) hrest hnext hle
    have hop : (State.of (op.token :: (operand.tokensAt 8 ++ rest)) nodes).tokens.head?.bind
        UnaryOp.ofToken? = some op := op.ofToken?_token
    change prefixed _ _ (.of (op.token :: (operand.tokensAt 8 ++ rest)) nodes) = _
    rw [prefixed, peek_bind, hop]
    refine (bind_of_ok skip_of_cons).trans ?_
    refine (bind_of_ok (grow_of (by omega))).trans ?_
    exact (bind_of_ok hread).trans rfl
  · rw [← nestingAt_succ hlevel] at hnesting
    rw [← tokensAt_succ hlevel]
    obtain ⟨first, more, htokens, -, hop⟩ := h.front.begins 9
    have hnone : (State.of (e.tokensAt 9 ++ rest) nodes).tokens.head?.bind UnaryOp.ofToken? =
        none := by
      rw [State.tokens_of, htokens]
      exact hop (Nat.le_refl 9)
    rw [prefixed, peek_bind, hnone]
    exact reads_postfixed hexpr h hnesting (hrest.mono (Nat.le_succ 8)) hnodes hle

end

section

variable {operand : Parser Expr} {room : Nat}

/-- The loop over the operators of a level comes to an expression from the operand at the far
end. -/
theorem leads_operation {level : Nat} (hlt : level < 7) (hoperand : Reads operand (level + 2) room)
    {e : Expr} (h : Readable e) (hnesting : e.nestingAt (level + 1) < room) {rest : List Token}
    (hrest : Stops (level + 2) rest) (hle : nodes + e.composites ≤ maxNodes) :
    Leads operand (infixTail level operand) (.of (e.tokensAt (level + 1) ++ rest) nodes) e
      (.of rest (nodes + e.composites)) := by
  by_cases hlevel : e.level = level + 1
  · rw [nestingAt_of_le (Nat.le_of_eq hlevel.symm)] at hnesting
    rw [tokensAt_of_le (Nat.le_of_eq hlevel.symm)]
    obtain ⟨op, left, right, happly, hop, hleft, hright⟩ := h.exists_apply hlevel hlt
    rw [happly, nesting_apply, hop] at hnesting
    have hcomposites : e.composites = left.composites + right.composites + 1 :=
      happly ▸ composites_apply op left right
    have htokens : e.tokens =
        left.tokensAt (level + 1) ++ .mark op.mark :: right.tokensAt (level + 2) := by
      rw [happly, tokens_apply, hop]
    obtain ⟨hleftnesting, hrightnesting⟩ := Nat.max_lt.1 hnesting
    rw [htokens, List.append_assoc, List.cons_append]
    -- an operator of this level does not continue an operand, which lies one level further up
    have hstops : Stops (level + 2) (.mark op.mark :: (right.tokensAt (level + 2) ++ rest)) := by
      refine stops_cons fun reach hreach => ?_
      obtain rfl := Option.some.inj (op.reach?_mark.symm.trans hreach)
      omega
    have hspine := leads_operation hlt hoperand hleft hleftnesting hstops (by omega)
    refine hspine.step ?_ fun rounds => ?_
    · simp only [State.of, List.length_map, List.length_append, List.length_cons]
      omega
    · have hread : operand (.of (right.tokensAt (level + 2) ++ rest)
          (nodes + left.composites + 1)) = .ok (right, .of rest (nodes + e.composites)) :=
        hoperand hright hrightnesting hrest (by omega) hle
      have htoken : Infix.ofToken? level (.mark op.mark) = some op :=
        Infix.ofToken?_eq_some_iff.2 ⟨rfl, hop⟩
      rw [infixTail, peek_bind, State.tokens_of, List.head?_cons, Option.bind_some, htoken, happly]
      refine (bind_of_ok skip_of_cons).trans ?_
      refine (bind_of_ok (grow_of (by omega))).trans ?_
      exact (bind_of_ok hread).trans (happly ▸ rfl)
  · rw [← nestingAt_succ hlevel] at hnesting
    rw [← tokensAt_succ hlevel]
    exact .refl (hoperand h hnesting hrest rfl hle)
termination_by e.composites

theorem infixTail_of_stops {level : Nat} {left : Expr} (h : Stops (level + 1) ts) (rounds : Nat) :
    infixTail level operand left rounds (.of ts nodes) = .ok (left, .of ts nodes) := by
  cases rounds with
  | zero => rfl
  | succ rounds =>
    have hnone : ts.head?.bind (Infix.ofToken? level) = none := by
      refine Option.eq_none_iff_forall_ne_some.2 fun op hop => ?_
      obtain ⟨t, ht, hop⟩ := Option.bind_eq_some_iff.1 hop
      obtain ⟨rfl, rfl⟩ := Infix.ofToken?_eq_some_iff.1 hop
      exact h.head?_ne op.reach?_mark (Nat.le_refl _) ht
    rw [infixTail, peek_bind, State.tokens_of, hnone]
    rfl

theorem reads_infixLevels (hoperand : Reads operand 8 room) {count : Nat} (hcount : count ≤ 7) :
    Reads (infixLevels operand count) (8 - count) room := by
  induction count with
  | zero => exact hoperand
  | succ count ih =>
    have htighter := ih (by omega)
    have hlevel : 8 - count = 7 - (count + 1) + 2 := by omega
    have hplace : 8 - (count + 1) = 7 - (count + 1) + 1 := by omega
    rw [hlevel] at htighter
    rw [hplace]
    intro e h hnesting rest nodes nodes' hrest hnodes hle
    rw [hnodes] at hle ⊢
    exact (leads_operation (by omega) htighter h hnesting (hrest.mono (Nat.le_succ _)) hle).run
      (infixTail_of_stops hrest)

/-! ### Functions and choices -/

theorem reads_lambda {expr : Parser Expr} (hexpr : Reads expr 0 room) {param : String}
    {body : Expr} (h : Readable body) (hnesting : body.nesting < room) (hrest : Stops 0 rest)
    (hle : nodes + (body.composites + 1) ≤ maxNodes) :
    conditional expr operand (.of ((Expr.lambda param body).tokens ++ rest) nodes) =
      .ok (.lambda param body, .of rest (nodes + (body.composites + 1))) := by
  have hread : expr (.of (body.tokens ++ rest) (nodes + 1)) =
      .ok (body, .of rest (nodes + (body.composites + 1))) :=
    hexpr.tokens h hnesting hrest (by omega) hle
  have hhead : lambdaHead? (State.of ((Expr.lambda param body).tokens ++ rest) nodes).rest =
      some (param, 2) := rfl
  have hskip : skip 2 (.of ((Expr.lambda param body).tokens ++ rest) nodes) =
      .ok ((), .of (body.tokens ++ rest) nodes) := rfl
  rw [conditional_of_some hhead]
  refine (bind_of_ok hskip).trans ?_
  refine (bind_of_ok (grow_of (by omega))).trans ?_
  exact (bind_of_ok hread).trans rfl

theorem reads_choice {expr : Parser Expr} (hexpr : Reads expr 0 room)
    (hoperand : Reads operand 8 (room + 1)) {test consequent alternate : Expr}
    (htest : Readable test) (hthen : Readable consequent) (helse : Readable alternate)
    (hnesting : (Expr.conditional test consequent alternate).nesting < room + 1)
    (hrest : Stops 0 rest)
    (hnodes : nodes' = nodes + (Expr.conditional test consequent alternate).composites)
    (hle : nodes' ≤ maxNodes) :
    conditional expr operand
        (.of ((Expr.conditional test consequent alternate).tokens ++ rest) nodes) =
      .ok (.conditional test consequent alternate, .of rest nodes') := by
  obtain ⟨htestnesting, hnesting⟩ := Nat.max_lt.1 hnesting
  obtain ⟨hthennesting, helsenesting⟩ := Nat.max_lt.1 hnesting
  simp only [composites] at hnodes
  let behind := consequent.tokens ++ .mark .colon :: (alternate.tokens ++ rest)
  have hquestion : Stops 1 (.mark .question :: behind) := stops_cons (by decide)
  have htokens : (Expr.conditional test consequent alternate).tokens ++ rest =
      test.tokensAt 1 ++ .mark .question :: behind := by
    change (test.tokensAt 1 ++ .mark .question ::
      (consequent.tokens ++ .mark .colon :: alternate.tokens)) ++ rest = _
    simp only [behind, List.append_assoc, List.cons_append]
  have hfirst : infixLevels operand Infix.levels
      (.of (test.tokensAt 1 ++ .mark .question :: behind) nodes) =
        .ok (test, .of (.mark .question :: behind) (nodes + test.composites)) :=
    reads_infixLevels hoperand (Nat.le_refl 7) htest htestnesting hquestion rfl (by omega)
  have hsecond : expr (.of behind (nodes + test.composites + 1)) =
      .ok (consequent, .of (.mark .colon :: (alternate.tokens ++ rest))
        (nodes + test.composites + 1 + consequent.composites)) :=
    hexpr.tokens hthen (Nat.lt_of_succ_lt_succ hthennesting) (stops_of_reach?_eq_none rfl) rfl
      (by omega)
  have hthird : expr (.of (alternate.tokens ++ rest)
      (nodes + test.composites + 1 + consequent.composites)) = .ok (alternate, .of rest nodes') :=
    hexpr.tokens helse (Nat.lt_of_succ_lt_succ helsenesting) hrest (by omega) hle
  have hhead : lambdaHead? (State.of (test.tokensAt 1 ++ .mark .question :: behind) nodes).rest =
      none :=
    htest.front.lambdaHead?_eq_none (by decide) State.tokens_of (head?_ne_of_ne (by decide))
  rw [htokens, conditional_of_none hhead]
  refine (bind_of_ok hfirst).trans ?_
  refine (bind_of_ok eat_of_cons).trans ?_
  refine (bind_of_ok (grow_of (by omega))).trans ?_
  refine (bind_of_ok hsecond).trans ?_
  refine (bind_of_ok expect_of_cons).trans ?_
  exact (bind_of_ok hthird).trans rfl

theorem reads_conditional {expr : Parser Expr} (hexpr : Reads expr 0 room)
    (hoperand : Reads operand 8 (room + 1)) : Reads (conditional expr operand) 0 (room + 1) := by
  intro e h hnesting rest nodes nodes' hrest hnodes hle
  by_cases hlevel : e.level = 0
  · rw [nestingAt_of_le (Nat.zero_le _)] at hnesting
    rw [tokensAt_of_le (Nat.zero_le _)]
    obtain ⟨param, body, rfl, hbody⟩ | ⟨test, consequent, alternate, rfl, htest, hthen, helse⟩ :=
      h.exists_of_level_zero hlevel
    · rw [hnodes] at hle ⊢
      exact reads_lambda hexpr hbody (Nat.lt_of_succ_lt_succ hnesting) hrest hle
    · exact reads_choice hexpr hoperand htest hthen helse hnesting hrest hnodes hle
  · rw [← nestingAt_succ hlevel] at hnesting
    rw [← tokensAt_succ hlevel]
    have hread := reads_infixLevels hoperand (Nat.le_refl 7) h hnesting
      (hrest.mono (Nat.zero_le 1)) hnodes hle
    have harrow : rest.head? ≠ some (.mark .arrow) := hrest.head?_ne rfl (Nat.le_refl 0)
    rw [conditional_of_none (h.front.lambdaHead?_eq_none (by decide) State.tokens_of harrow)]
    refine (bind_of_ok hread).trans ?_
    exact (bind_of_ok (eat_of_ne (hrest.head?_ne rfl (Nat.le_refl 0)))).trans rfl

end

/-! ### The grammar -/

/-- **What the readers of the grammar read back.** -/
theorem reads_grammar (nesting : Nat) :
    Reads (grammar nesting).expr 0 nesting ∧ Reads (grammar nesting).unary 8 (nesting + 1) := by
  induction nesting with
  | zero => exact ⟨reads_zero, reads_prefixed reads_zero reads_zero⟩
  | succ nesting ih =>
    have hexpr := reads_conditional ih.1 ih.2
    exact ⟨hexpr, reads_prefixed hexpr ih.2⟩

/-! ### Whole expressions -/

theorem run_of_readable {e : Expr} (h : Readable e) (hnesting : e.nesting < maxNesting)
    (hle : e.composites ≤ maxNodes) {placed : List PlacedToken} {limit : Nat}
    (hplaced : placed.map (·.token) = e.tokens) : run placed limit = .ok e := by
  have hread : (grammar maxNesting).expr (.of (e.tokens ++ []) 0) =
      .ok (e, .of [] (0 + e.composites)) :=
    (reads_grammar maxNesting).1.tokens h hnesting stops_nil rfl (by omega)
  rw [List.append_nil] at hread
  obtain ⟨first, more, hfirst, -⟩ := h.front.begins 0
  rw [tokensAt_of_le (Nat.zero_le _)] at hfirst
  -- all tokens at the start first, since places make no difference
  have hrun : run (e.tokens.map (⟨·, 0⟩)) 0 = .ok e := by
    refine run_eq_ok_iff.2 ⟨?_, _, hread, State.tokens_of⟩
    rw [hfirst]
    exact List.cons_ne_nil _ _
  refine run_of_tokens ?_ hrun
  rw [hplaced, List.map_map]
  exact List.map_id _

/-- **The written form of what was read is read in the same way,** wherever its tokens stand, and
nothing else that was read is written like this. -/
theorem run_tokens {placed : List PlacedToken} {limit : Nat} {e : Expr}
    (h : run placed limit = .ok e) :
    (∀ placed' limit', placed'.map (·.token) = e.tokens → run placed' limit' = .ok e) ∧
      ∀ placed' limit' e', run placed' limit' = .ok e' → e'.tokens = e.tokens → e' = e := by
  have hback {placed : List PlacedToken} {limit : Nat} {e : Expr} (h : run placed limit = .ok e)
      (placed' : List PlacedToken) (limit' : Nat) (htokens : placed'.map (·.token) = e.tokens) :
      run placed' limit' = .ok e := by
    obtain ⟨hreadable, hnesting, hle⟩ := made_of_run h
    exact run_of_readable hreadable hnesting hle htokens
  refine ⟨hback h, fun placed' limit' e' h' htokens => ?_⟩
  have hplaced : (e.tokens.map (PlacedToken.mk · 0)).map (·.token) = e.tokens := by
    rw [List.map_map]
    exact List.map_id _
  have hread := hback h _ 0 hplaced
  have hread' := hback h' _ 0 (hplaced.trans htokens.symm)
  exact Except.ok.inj (hread'.symm.trans hread)

/-- `!(a - (b - c)) ? [x => x.y,] : f?.[("s")]()` -/
def parenthesizedTokens : List PlacedToken :=
  [.mark .bang, .mark .openParen, .ident "a", .mark .minus, .mark .openParen, .ident "b",
    .mark .minus, .ident "c", .mark .closeParen, .mark .closeParen, .mark .question,
    .mark .openBracket, .mark .openParen, .ident "x", .mark .closeParen, .mark .arrow, .ident "x",
    .mark .dot, .ident "y", .mark .comma, .mark .closeBracket, .mark .colon, .ident "f",
    .mark .optionalDot, .mark .openBracket, .mark .openParen, .str "s", .mark .closeParen,
    .mark .closeBracket, .mark .openParen, .mark .closeParen].map (⟨·, 0⟩)

/-- What these tokens are read as. -/
def parenthesizedExpr : Expr :=
  .conditional (.unary .not (.binary .sub (.ident "a") (.binary .sub (.ident "b") (.ident "c"))))
    (.array [.lambda "x" (.member (.ident "x") "y" false)])
    (.call (.index (.ident "f") (.literal (.str "s")) true) [])

theorem run_tokens_parenthesizedTokens :
    run parenthesizedTokens 0 = .ok parenthesizedExpr ∧
      run (parenthesizedExpr.tokens.map (⟨·, 0⟩)) 0 = .ok parenthesizedExpr := by
  have h : run parenthesizedTokens 0 = .ok parenthesizedExpr := by rfl
  exact ⟨h, (run_tokens h).1 _ _ rfl⟩

end Parser

end SchemaCanvas
