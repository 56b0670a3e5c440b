import SchemaCanvas.Proofs.Expr.Reader
import SchemaCanvas.Proofs.Expr.Size
import SchemaCanvas.Proofs.Number.Bits
import Mathlib.Tactic.SplitIfs

/-!
# What a reader makes

Every composite node that a reader makes is counted once, when its mark has been read, and
expressions inside one another are counted down. So what is made is within the two limits: it has
as many composite nodes as were counted, and its written form, which has no parentheses to spare,
nests at most as deeply as the tokens did.

* `Parser.Makes` : what a reader makes at a place, with room for so much nesting;
* `Parser.makes_grammar` : the readers of the grammar;
* `Parser.made_of_run` : a whole expression.
-/

namespace SchemaCanvas

namespace Parser

open SchemaCanvas.Expr

variable {s s' t u : State} {e : Expr}

/-! ### Counting -/

/-- So many composite nodes are counted between two states, and the count is within the limit. -/
structure Counted (s : State) (count : Nat) (t : State) : Prop where
  nodes : t.nodes = s.nodes + count
  le : s.nodes ≤ maxNodes → t.nodes ≤ maxNodes

theorem Counted.refl (s : State) : Counted s 0 s := ⟨rfl, id⟩

theorem Counted.trans {m n : Nat} (h : Counted s m t) (h' : Counted t n u) :
    Counted s (m + n) u := ⟨by rw [h'.nodes, h.nodes, Nat.add_assoc], h'.le ∘ h.le⟩

theorem Counted.zero_trans {n : Nat} (h : Counted s 0 t) (h' : Counted t n u) : Counted s n u := by
  simpa using h.trans h'

theorem Counted.one_trans {n : Nat} (h : Counted s 1 t) (h' : Counted t n u) :
    Counted s (n + 1) u := by
  simpa [Nat.add_comm] using h.trans h'

theorem counted_skip {count : Nat} {r : Unit} (h : skip count s = .ok (r, t)) : Counted s 0 t := by
  cases h
  exact ⟨rfl, id⟩

theorem counted_grow {r : Unit} (h : grow s = .ok (r, t)) : Counted s 1 t := by
  change (if maxNodes < s.nodes + 1 then fail .tooLarge else pure ()) _ = _ at h
  split at h
  · cases h
  · next hle =>
    cases h
    exact ⟨rfl, fun _ => Nat.le_of_not_lt hle⟩

theorem counted_eat {m : Mark} {found : Bool} (h : eat m s = .ok (found, t)) : Counted s 0 t := by
  rw [eat, peek_bind] at h
  split at h
  · obtain ⟨_, u, hskip, h⟩ := bind_eq_ok_iff.1 h
    obtain ⟨-, rfl⟩ := pure_eq_ok_iff.1 h
    exact counted_skip hskip
  · obtain ⟨-, rfl⟩ := pure_eq_ok_iff.1 h
    exact .refl s

theorem counted_expect {m : Mark} {r : Unit} (h : expect m s = .ok (r, t)) : Counted s 0 t := by
  obtain ⟨found, u, heat, h⟩ := bind_eq_ok_iff.1 h
  split at h
  · cases h
  · obtain ⟨-, rfl⟩ := pure_eq_ok_iff.1 h
    exact counted_eat heat

theorem counted_propertyName {name : String} (h : propertyName s = .ok (name, t)) :
    Counted s 0 t := by
  rw [propertyName, peek_bind] at h
  generalize s.tokens.head? = next at h
  split at h
  · obtain ⟨_, u, hskip, h⟩ := bind_eq_ok_iff.1 h
    obtain ⟨-, rfl⟩ := pure_eq_ok_iff.1 h
    exact counted_skip hskip
  · cases h

/-! ### Making -/

/-- An expression has been made between two states, at a place with room for so much nesting. -/
structure Made (place room : Nat) (s : State) (e : Expr) (t : State) : Prop where
  readable : Readable e
  nesting : e.nestingAt place < room
  counted : Counted s e.composites t

/-- What a reader makes at a place, with room for so much nesting. -/
def Makes (p : Parser Expr) (place room : Nat) : Prop :=
  ∀ ⦃s e t⦄, p s = .ok (e, t) → Made place room s e t

theorem Made.of_level {place room : Nat} (hreadable : Readable e) (hlevel : place ≤ e.level)
    (hnesting : e.nesting < room) (hcounted : Counted s e.composites t) : Made place room s e t :=
  ⟨hreadable, by rwa [nestingAt_of_le hlevel], hcounted⟩

theorem Made.of_le {place place' room : Nat} (h : Made place' room s e t) (hle : place ≤ place') :
    Made place room s e t :=
  ⟨h.readable, Nat.lt_of_le_of_lt (nestingAt_le_of_le hle) h.nesting, h.counted⟩

theorem makes_fail {fault : SyntaxFault} {place room : Nat} : Makes (fail fault) place room :=
  fun _ _ _ h => by cases h

section

variable {expr operand plain : Parser Expr} {room : Nat} (hexpr : Makes expr 0 room)

theorem Makes.nesting_lt (hexpr : Makes expr 0 room) (h : expr s = .ok (e, t)) :
    e.nesting < room := by
  have := (hexpr h).nesting
  rwa [nestingAt_of_le (Nat.zero_le _)] at this

include hexpr

theorem made_listTail {close : Mark} {rounds : Nat} {items : List Expr}
    (h : listTail expr close rounds s = .ok (items, t)) :
    (∀ e ∈ items, Readable e) ∧ listNesting items ≤ room ∧
      Counted s (listComposites items) t := by
  induction rounds generalizing s items with
  | zero =>
    obtain ⟨rfl, rfl⟩ := pure_eq_ok_iff.1 h
    exact ⟨List.forall_mem_nil _, Nat.zero_le _, .refl s⟩
  | succ rounds ih =>
    obtain ⟨item, s₁, hitem, h⟩ := bind_eq_ok_iff.1 h
    have hmade := hexpr hitem
    have hnesting := hexpr.nesting_lt hitem
    -- an item that is the last
    have hlast {u : State} (hu : Counted s₁ 0 u) : (∀ e ∈ [item], Readable e) ∧
        listNesting [item] ≤ room ∧ Counted s (listComposites [item]) u := by
      refine ⟨List.forall_mem_singleton.2 hmade.readable, ?_, hmade.counted.trans hu⟩
      simp only [listNesting]
      omega
    obtain ⟨closed, s₂, heat, h⟩ := bind_eq_ok_iff.1 h
    split at h
    · obtain ⟨rfl, rfl⟩ := pure_eq_ok_iff.1 h
      exact hlast (counted_eat heat)
    · obtain ⟨_, s₃, hcomma, h⟩ := bind_eq_ok_iff.1 h
      obtain ⟨closed, s₄, heat', h⟩ := bind_eq_ok_iff.1 h
      have hcounted := (counted_eat heat).trans ((counted_expect hcomma).trans (counted_eat heat'))
      split at h
      · obtain ⟨rfl, rfl⟩ := pure_eq_ok_iff.1 h
        exact hlast hcounted
      · obtain ⟨rest, s₅, hrest, h⟩ := bind_eq_ok_iff.1 h
        obtain ⟨rfl, rfl⟩ := pure_eq_ok_iff.1 h
        obtain ⟨hreadable, hdepth, hmore⟩ := ih hrest
        refine ⟨List.forall_mem_cons.2 ⟨hmade.readable, hreadable⟩, ?_,
          hmade.counted.trans (hcounted.zero_trans hmore)⟩
        simp only [listNesting]
        omega

theorem made_list {close : Mark} {items : List Expr} (h : list expr close s = .ok (items, t)) :
    (∀ e ∈ items, Readable e) ∧ listNesting items ≤ room ∧
      Counted s (listComposites items) t := by
  obtain ⟨closed, s₁, heat, h⟩ := bind_eq_ok_iff.1 h
  split at h
  · obtain ⟨rfl, rfl⟩ := pure_eq_ok_iff.1 h
    exact ⟨List.forall_mem_nil _, Nat.zero_le _, counted_eat heat⟩
  · obtain ⟨hreadable, hnesting, hcounted⟩ := made_listTail hexpr h
    exact ⟨hreadable, hnesting, (counted_eat heat).zero_trans hcounted⟩

theorem made_primary (hs : s.tokens.head?.bind UnaryOp.ofToken? = none)
    (h : primary expr s = .ok (e, t)) : Made 10 (room + 1) s e t := by
  -- what stands by itself has no parts
  have hplain {e : Expr} (hreadable : Readable e) (hcomposites : e.composites = 0)
      (hlevel : 10 ≤ e.level) (hnesting : e.nesting = 0) {u : State} (hu : Counted s 0 u) :
      Made 10 (room + 1) s e u :=
    .of_level hreadable hlevel (by omega) (hcomposites ▸ hu)
  rw [primary, peek_bind] at h
  generalize s.tokens.head? = next at h hs
  split at h
  · cases h
  · obtain ⟨_, s₁, hskip, h⟩ := bind_eq_ok_iff.1 h
    obtain ⟨rfl, rfl⟩ := pure_eq_ok_iff.1 h
    refine hplain ?_ rfl (Nat.le_refl _) rfl (counted_skip hskip)
    obtain hnull | ⟨n, hn⟩ := Json.computed_eq_null_or _
    · exact hnull ▸ .null
    · exact hn ▸ .num (Json.computed_spelled hn)
  · obtain ⟨_, s₁, hskip, h⟩ := bind_eq_ok_iff.1 h
    obtain ⟨rfl, rfl⟩ := pure_eq_ok_iff.1 h
    exact hplain (.str _) rfl (Nat.le_refl _) rfl (counted_skip hskip)
  · next name =>
    obtain ⟨_, s₁, hskip, h⟩ := bind_eq_ok_iff.1 h
    obtain ⟨rfl, rfl⟩ := pure_eq_ok_iff.1 h
    have hcounted := counted_skip hskip
    -- what starts with a unary operator has not come here
    have htypeof : name ≠ "typeof" := fun heq => by
      rw [heq] at hs
      cases hs
    unfold named
    split_ifs with htrue hfalse hnull hundefined
    · exact hplain (.bool true) rfl (Nat.le_refl _) rfl hcounted
    · exact hplain (.bool false) rfl (Nat.le_refl _) rfl hcounted
    · exact hplain .null rfl (Nat.le_refl _) rfl hcounted
    · exact hplain .undefined rfl (Nat.le_refl _) rfl hcounted
    · refine hplain (.ident ?_) rfl (Nat.le_refl _) rfl hcounted
      simp [reservedNames, *]
  · obtain ⟨_, s₁, hskip, h⟩ := bind_eq_ok_iff.1 h
    obtain ⟨inner, s₂, hinner, h⟩ := bind_eq_ok_iff.1 h
    obtain ⟨_, s₃, hclose, h⟩ := bind_eq_ok_iff.1 h
    obtain ⟨rfl, rfl⟩ := pure_eq_ok_iff.1 h
    have hmade := hexpr hinner
    -- the parentheses are gone, and they left room for those that the place may ask for
    refine ⟨hmade.readable, ?_,
      (counted_skip hskip).zero_trans (hmade.counted.trans (counted_expect hclose))⟩
    have hlt := hexpr.nesting_lt hinner
    have hle := nestingAt_le 10 inner
    omega
  · obtain ⟨_, s₁, hskip, h⟩ := bind_eq_ok_iff.1 h
    obtain ⟨items, s₂, hitems, h⟩ := bind_eq_ok_iff.1 h
    obtain ⟨rfl, rfl⟩ := pure_eq_ok_iff.1 h
    obtain ⟨hreadable, hnesting, hcounted⟩ := made_list hexpr hitems
    refine .of_level (.array hreadable) (Nat.le_refl _) ?_
      ((counted_skip hskip).zero_trans hcounted)
    rw [nesting]
    omega
  · cases h

theorem made_bracketed (h : bracketed expr s = .ok (e, t)) :
    Readable e ∧ e.nesting < room ∧ Counted s e.composites t := by
  obtain ⟨key, s₁, hkey, h⟩ := bind_eq_ok_iff.1 h
  obtain ⟨_, s₂, hclose, h⟩ := bind_eq_ok_iff.1 h
  obtain ⟨rfl, rfl⟩ := pure_eq_ok_iff.1 h
  have hmade := hexpr hkey
  exact ⟨hmade.readable, hexpr.nesting_lt hkey, hmade.counted.trans (counted_expect hclose)⟩

section

variable {object : Expr}

omit hexpr in
theorem Made.member {name : String} {optional : Bool} (h : Made 9 (room + 1) s object u)
    (hcounted : Counted u 1 t) : Made 9 (room + 1) s (.member object name optional) t :=
  .of_level (.member h.readable _ _) (Nat.le_refl _) h.nesting (h.counted.trans hcounted)

theorem Made.index {key : Expr} {optional : Bool} {v : State} (h : Made 9 (room + 1) s object u)
    (hcounted : Counted u 1 v) (hkey : bracketed expr v = .ok (key, t)) :
    Made 9 (room + 1) s (.index object key optional) t := by
  obtain ⟨hreadable, hnesting, hkey⟩ := made_bracketed hexpr hkey
  refine .of_level (.index h.readable hreadable _) (Nat.le_refl _) ?_
    (h.counted.trans (hcounted.one_trans hkey))
  exact Nat.max_lt.2 ⟨h.nesting, Nat.succ_lt_succ hnesting⟩

theorem Made.call {args : List Expr} {v : State} (h : Made 9 (room + 1) s object u)
    (hcounted : Counted u 1 v) (hargs : list expr .closeParen v = .ok (args, t)) :
    Made 9 (room + 1) s (.call object args) t := by
  obtain ⟨hreadable, hnesting, hargs⟩ := made_list hexpr hargs
  refine .of_level (.call h.readable hreadable) (Nat.le_refl _) ?_
    (h.counted.trans (hcounted.one_trans hargs))
  exact Nat.max_lt.2 ⟨h.nesting, Nat.lt_succ_of_le hnesting⟩

/-- One access, if there is one. It is counted before it is read. -/
theorem made_access? {next : Option Expr} (hobject : Made 9 (room + 1) s object u)
    (h : access? expr object u = .ok (next, t)) : Made 9 (room + 1) s (next.getD object) t := by
  -- the mark of an access is counted and taken
  have hmark {v w : State} {r r' : Unit} (hgrow : grow u = .ok (r, v))
      (hskip : skip 1 v = .ok (r', w)) : Counted u 1 w :=
    (counted_grow hgrow).trans (counted_skip hskip)
  rw [access?, peek_bind] at h
  generalize u.tokens.head? = mark at h
  split at h
  · obtain ⟨_, v, hgrow, h⟩ := bind_eq_ok_iff.1 h
    obtain ⟨_, w, hskip, h⟩ := bind_eq_ok_iff.1 h
    obtain ⟨name, x, hname, h⟩ := bind_eq_ok_iff.1 h
    obtain ⟨rfl, rfl⟩ := pure_eq_ok_iff.1 h
    exact hobject.member ((hmark hgrow hskip).trans (counted_propertyName hname))
  · obtain ⟨_, v, hgrow, h⟩ := bind_eq_ok_iff.1 h
    obtain ⟨_, w, hskip, h⟩ := bind_eq_ok_iff.1 h
    obtain ⟨found, x, heat, h⟩ := bind_eq_ok_iff.1 h
    have hcounted := (hmark hgrow hskip).trans (counted_eat heat)
    split at h
    · obtain ⟨key, y, hkey, h⟩ := bind_eq_ok_iff.1 h
      obtain ⟨rfl, rfl⟩ := pure_eq_ok_iff.1 h
      exact hobject.index hexpr hcounted hkey
    · obtain ⟨name, y, hname, h⟩ := bind_eq_ok_iff.1 h
      obtain ⟨rfl, rfl⟩ := pure_eq_ok_iff.1 h
      exact hobject.member (hcounted.trans (counted_propertyName hname))
  · obtain ⟨_, v, hgrow, h⟩ := bind_eq_ok_iff.1 h
    obtain ⟨_, w, hskip, h⟩ := bind_eq_ok_iff.1 h
    obtain ⟨key, x, hkey, h⟩ := bind_eq_ok_iff.1 h
    obtain ⟨rfl, rfl⟩ := pure_eq_ok_iff.1 h
    exact hobject.index hexpr (hmark hgrow hskip) hkey
  · obtain ⟨_, v, hgrow, h⟩ := bind_eq_ok_iff.1 h
    obtain ⟨_, w, hskip, h⟩ := bind_eq_ok_iff.1 h
    obtain ⟨args, x, hargs, h⟩ := bind_eq_ok_iff.1 h
    obtain ⟨rfl, rfl⟩ := pure_eq_ok_iff.1 h
    exact hobject.call hexpr (hmark hgrow hskip) hargs
  · obtain ⟨rfl, rfl⟩ := pure_eq_ok_iff.1 h
    exact hobject

end

theorem made_accessTail {u : State} {object : Expr} {rounds : Nat}
    (hobject : Made 9 (room + 1) s object u)
    (h : accessTail expr object rounds u = .ok (e, t)) : Made 9 (room + 1) s e t := by
  induction rounds generalizing u object with
  | zero =>
    obtain ⟨rfl, rfl⟩ := pure_eq_ok_iff.1 h
    exact hobject
  | succ rounds ih =>
    obtain ⟨next, v, haccess, h⟩ := bind_eq_ok_iff.1 h
    have hmade := made_access? hexpr hobject haccess
    cases next with
    | some next => exact ih hmade h
    | none =>
      obtain ⟨rfl, rfl⟩ := pure_eq_ok_iff.1 h
      exact hmade

theorem made_postfixed (hs : s.tokens.head?.bind UnaryOp.ofToken? = none)
    (h : postfixed expr s = .ok (e, t)) : Made 9 (room + 1) s e t := by
  obtain ⟨object, u, hobject, h⟩ := bind_eq_ok_iff.1 h
  have hmade := (made_primary hexpr hs hobject).of_le (Nat.le_succ 9)
  exact made_accessTail hexpr hmade h

omit hexpr in
/-- A unary operator, with room for its operand, or what stands without one. -/
theorem makes_prefixed (hoperand : Makes operand 8 room)
    (hplain : ∀ ⦃s e t⦄, s.tokens.head?.bind UnaryOp.ofToken? = none → plain s = .ok (e, t) →
      Made 8 (room + 1) s e t) :
    Makes (prefixed operand plain) 8 (room + 1) := by
  intro s e t h
  rw [prefixed, peek_bind] at h
  cases hop : s.tokens.head?.bind UnaryOp.ofToken? with
  | none =>
    rw [hop] at h
    exact hplain hop h
  | some op =>
    rw [hop] at h
    obtain ⟨_, u, hskip, h⟩ := bind_eq_ok_iff.1 h
    obtain ⟨_, v, hgrow, h⟩ := bind_eq_ok_iff.1 h
    obtain ⟨operand, w, hread, h⟩ := bind_eq_ok_iff.1 h
    obtain ⟨rfl, rfl⟩ := pure_eq_ok_iff.1 h
    have hmade := hoperand hread
    have hcounted := (counted_skip hskip).zero_trans ((counted_grow hgrow).one_trans hmade.counted)
    exact .of_level (.unary op hmade.readable) (Nat.le_refl _) (Nat.succ_lt_succ hmade.nesting)
      hcounted

omit hexpr in
theorem made_infixTail {level rounds : Nat} {u : State} {left : Expr}
    (hoperand : Makes operand (level + 2) room) (hleft : Made (level + 1) room s left u)
    (h : infixTail level operand left rounds u = .ok (e, t)) : Made (level + 1) room s e t := by
  induction rounds generalizing u left with
  | zero =>
    obtain ⟨rfl, rfl⟩ := pure_eq_ok_iff.1 h
    exact hleft
  | succ rounds ih =>
    rw [infixTail, peek_bind] at h
    cases hop : u.tokens.head?.bind (Infix.ofToken? level) with
    | none =>
      rw [hop] at h
      obtain ⟨rfl, rfl⟩ := pure_eq_ok_iff.1 h
      exact hleft
    | some op =>
      rw [hop] at h
      obtain ⟨_, v, hskip, h⟩ := bind_eq_ok_iff.1 h
      obtain ⟨_, w, hgrow, h⟩ := bind_eq_ok_iff.1 h
      obtain ⟨right, x, hread, h⟩ := bind_eq_ok_iff.1 h
      obtain ⟨_, _, hop⟩ := Option.bind_eq_some_iff.1 hop
      obtain ⟨-, rfl⟩ := Infix.ofToken?_eq_some_iff.1 hop
      have hmade := hoperand hread
      refine ih ?_ h
      refine .of_level (.operation op hleft.readable hmade.readable) ?_ ?_ ?_
      · exact Nat.le_of_eq (level_apply op left right).symm
      · rw [nesting_apply]
        exact Nat.max_lt.2 ⟨hleft.nesting, hmade.nesting⟩
      · rw [composites_apply]
        exact hleft.counted.trans
          ((counted_skip hskip).zero_trans ((counted_grow hgrow).one_trans hmade.counted))

omit hexpr in
theorem makes_infixLevels (hoperand : Makes operand 8 room) {count : Nat} (hcount : count ≤ 7) :
    Makes (infixLevels operand count) (8 - count) room := by
  induction count with
  | zero => exact hoperand
  | succ count ih =>
    intro s e t h
    have htighter := ih (by omega)
    obtain ⟨left, u, hleft, h⟩ := bind_eq_ok_iff.1 h
    have hlevel : 8 - count = 7 - (count + 1) + 2 := by omega
    have hplace : 8 - (count + 1) = 7 - (count + 1) + 1 := by omega
    rw [hlevel] at htighter
    rw [hplace]
    exact made_infixTail htighter ((htighter hleft).of_le (Nat.le_succ _)) h

theorem makes_conditional (hoperand : Makes operand 8 (room + 1)) :
    Makes (conditional expr operand) 0 (room + 1) := by
  intro s e t h
  cases hhead : lambdaHead? s.rest with
  | some head =>
    rw [conditional_of_some hhead] at h
    obtain ⟨_, u, hskip, h⟩ := bind_eq_ok_iff.1 h
    obtain ⟨_, v, hgrow, h⟩ := bind_eq_ok_iff.1 h
    obtain ⟨body, w, hbody, h⟩ := bind_eq_ok_iff.1 h
    obtain ⟨rfl, rfl⟩ := pure_eq_ok_iff.1 h
    have hmade := hexpr hbody
    have hcounted := (counted_skip hskip).zero_trans ((counted_grow hgrow).one_trans hmade.counted)
    exact .of_level (.lambda _ hmade.readable) (Nat.le_refl _)
      (Nat.succ_lt_succ (hexpr.nesting_lt hbody)) hcounted
  | none =>
    rw [conditional_of_none hhead] at h
    obtain ⟨test, u, htest, h⟩ := bind_eq_ok_iff.1 h
    obtain ⟨found, v, heat, h⟩ := bind_eq_ok_iff.1 h
    have htest := makes_infixLevels hoperand (Nat.le_refl 7) htest
    have hcounted := htest.counted.trans (counted_eat heat)
    split at h
    · obtain ⟨_, w, hgrow, h⟩ := bind_eq_ok_iff.1 h
      obtain ⟨consequent, x, hconsequent, h⟩ := bind_eq_ok_iff.1 h
      obtain ⟨_, y, hcolon, h⟩ := bind_eq_ok_iff.1 h
      obtain ⟨alternate, z, halternate, h⟩ := bind_eq_ok_iff.1 h
      obtain ⟨rfl, rfl⟩ := pure_eq_ok_iff.1 h
      have hthen := hexpr hconsequent
      have helse := hexpr halternate
      refine .of_level (.conditional htest.readable hthen.readable helse.readable)
        (Nat.le_refl _) ?_ ?_
      · refine Nat.max_lt.2 ⟨htest.nesting, Nat.max_lt.2 ⟨?_, ?_⟩⟩
        · exact Nat.succ_lt_succ (hexpr.nesting_lt hconsequent)
        · exact Nat.succ_lt_succ (hexpr.nesting_lt halternate)
      · have hbehind := hthen.counted.trans ((counted_expect hcolon).zero_trans helse.counted)
        have hall := hcounted.trans ((counted_grow hgrow).one_trans hbehind)
        rwa [Nat.add_zero, ← Nat.add_assoc, ← Nat.add_assoc] at hall
    · obtain ⟨rfl, rfl⟩ := pure_eq_ok_iff.1 h
      exact ⟨htest.readable, (htest.of_le (Nat.zero_le _)).nesting, hcounted⟩

end

/-! ### The grammar -/

/-- **What the readers of the grammar make.** -/
theorem makes_grammar (nesting : Nat) :
    Makes (grammar nesting).expr 0 nesting ∧ Makes (grammar nesting).unary 8 (nesting + 1) := by
  induction nesting with
  | zero =>
    refine ⟨makes_fail, makes_prefixed makes_fail fun s e t hs h => ?_⟩
    exact (made_postfixed makes_fail hs h).of_le (Nat.le_succ 8)
  | succ nesting ih =>
    have hexpr := makes_conditional ih.1 ih.2
    refine ⟨hexpr, makes_prefixed ih.2 fun s e t hs h => ?_⟩
    exact (made_postfixed hexpr hs h).of_le (Nat.le_succ 8)

/-- **What is made of a whole list of tokens,** within both limits. -/
theorem made_of_run {placed : List PlacedToken} {limit : Nat} (h : run placed limit = .ok e) :
    Readable e ∧ e.nesting < maxNesting ∧ e.composites ≤ maxNodes := by
  obtain ⟨-, t, hexpr, -⟩ := run_eq_ok_iff.1 h
  have hmakes := (makes_grammar maxNesting).1
  have hcounted := (hmakes hexpr).counted
  have hle := hcounted.le (Nat.zero_le _)
  rw [hcounted.nodes, Nat.zero_add] at hle
  exact ⟨(hmakes hexpr).readable, hmakes.nesting_lt hexpr, hle⟩

end Parser

end SchemaCanvas
