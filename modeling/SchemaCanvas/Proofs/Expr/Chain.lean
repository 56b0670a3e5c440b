import SchemaCanvas.Proofs.Expr.Receiver

/-!
# Optional chains

A chain is an object with members, indices and method calls behind it. Behind a nullish object and
`?.` every link gives undefined: members are not looked up, arguments are not evaluated. Indices
are, however, so that one without a value makes the chain fail. So does a call at the end of a name
that begins like that of a constant, since such a call is refused before the object is looked at.

* `ChainLink.attach`, `Expr.chain` : links and chains;
* `Env.Refuses` : the chains with a call that is refused;
* `Expr.eval_attach` : one link behind a nullish object;
* `Expr.eval_chain`, `Expr.eval_chain_of_refuses` : all links behind a nullish object;
* `Expr.evaluate_chain_of_nullish` : when an optional chain is undefined.
-/

namespace SchemaCanvas

/-! ### Links -/

/-- A link of a chain: a member, an index or a method call. -/
inductive ChainLink where
  | member (property : String) (optional : Bool)
  | index (key : Expr) (optional : Bool)
  | call (method : String) (args : List Expr) (optional : Bool)

namespace ChainLink

/-- A link is written with `?.`. -/
def isOptional : ChainLink → Bool
  | member _ optional | index _ optional | call _ _ optional => optional

/-- An object with a link behind it. -/
def attach (object : Expr) : ChainLink → Expr
  | member property optional => .member object property optional
  | index key optional => .index object key optional
  | call method args optional => .call (.member object method optional) args

/-- The expression of an index. -/
def keys : ChainLink → List Expr
  | index key _ => [key]
  | member .. | call .. => []

/-- Members and then a call: the call is looked up by the name that the members make. -/
def callsByName : List ChainLink → Bool
  | member .. :: rest => callsByName rest
  | call .. :: _ => true
  | index .. :: _ | [] => false

theorem isOptionalChain_attach (e : Expr) (l : ChainLink) :
    (l.attach e).isOptionalChain = (l.isOptional || e.isOptionalChain) := by
  cases l <;> rfl

end ChainLink

/-- An object with links behind it. -/
def Expr.chain (object : Expr) (links : List ChainLink) : Expr :=
  links.foldl ChainLink.attach object

namespace Env

/-- A chain of members begins with a name that is not bound. -/
def StartsUnbound (env : Env) (e : Expr) : Prop :=
  ∃ root, e.rootName? = some root ∧ env.isBound root = false

/-- A call among the links is refused because of its name. -/
def Refuses (env : Env) (object : Expr) (links : List ChainLink) : Prop :=
  env.StartsUnbound object ∧ ChainLink.callsByName links

variable {env : Env} {e : Expr} {v : Value}

theorem constant?_of_rootName?_eq_none (h : e.rootName? = none) (property : String)
    (optional : Bool) : env.constant? (.member e property optional) = none := by
  have hroot : (Expr.member e property optional).rootName? = none := h
  rw [constant?, hroot]
  split
  · next hsome => cases hsome
  · rfl

theorem callee_of_rootName?_eq_none (h : e.rootName? = none) (method : String) (optional : Bool) :
    env.callee (.member e method optional) = .method := by
  have hroot : (Expr.member e method optional).rootName? = none := h
  rw [callee, hroot]
  split
  · next hsome => cases hsome
  · rfl

theorem constant?_of_eval (h : e.eval env = .ok v) (property : String) (optional : Bool) :
    env.constant? (.member e property optional) = none := by
  rw [Option.eq_none_iff_forall_ne_some]
  intro c hc
  obtain ⟨_, _, _, heq, hbound⟩ := namesConstant_of_constant? hc
  cases heq
  rw [Expr.eval, find_of_isBound_eq_false hbound] at h
  cases h

theorem root_eq_of_eval {root : String} (hroot : e.rootName? = some root)
    (hbound : env.isBound root = false) (h : e.eval env = .ok v) : root = "Math" := by
  fun_induction Expr.rootName? e generalizing v with
  | case1 name =>
    obtain rfl := Option.some.inj hroot
    rw [Expr.eval, find_of_isBound_eq_false hbound] at h
    cases h
  | case2 object property optional ih =>
    rw [Expr.eval_eq, Expr.evalOnce] at h
    split at h
    · next hconstant =>
      obtain ⟨_, _, _, heq, _⟩ := namesConstant_of_constant? hconstant
      cases heq
      exact (Option.some.inj hroot).symm
    · cases hobject : object.eval env with
      | error => rw [hobject] at h; cases h
      | ok target => exact ih hroot hobject
  | case3 => cases hroot

theorem exists_dottedName? {root : String} (h : e.rootName? = some root) :
    ∃ name, e.dottedName? = some name := by
  fun_induction Expr.rootName? e with
  | case1 name => exact ⟨name, rfl⟩
  | case2 object property optional ih =>
    obtain ⟨base, hbase⟩ := ih h
    exact ⟨_, congrArg (Option.map _) hbase⟩
  | case3 => cases h

/-- A method of what has a value without a bound name is refused: its name has three parts, more
than that of a function. -/
theorem callee_of_startsUnbound (hunbound : env.StartsUnbound e) (h : e.eval env = .ok v)
    (method : String) (optional : Bool) :
    ∃ name, env.callee (.member e method optional) = .refused name := by
  obtain ⟨root, hroot, hbound⟩ := hunbound
  obtain rfl := root_eq_of_eval hroot hbound h
  cases e with
  | ident name =>
    obtain rfl := Option.some.inj hroot
    rw [Expr.eval, find_of_isBound_eq_false hbound] at h
    cases h
  | member object property =>
    obtain ⟨base, hbase⟩ := exists_dottedName? (e := object) hroot
    have hobject : object.rootName? = some "Math" := hroot
    refine ⟨base ++ "." ++ property ++ "." ++ method, ?_⟩
    simp only [callee, Expr.dottedName?, Expr.rootName?, hbase, hobject, Option.map_some, hbound,
      Bool.false_eq_true, if_false, Builtin.ofName?_eq_none]
    rfl
  | _ => cases hroot

theorem callee_of_not_startsUnbound (h : ¬ env.StartsUnbound e) (method : String)
    (optional : Bool) : env.callee (.member e method optional) = .method := by
  rw [callee]
  split
  · next name root _ hroot =>
    cases hbound : env.isBound root with
    | true => rfl
    | false => exact absurd ⟨root, hroot, hbound⟩ h
  · rfl

end Env

namespace Expr

variable {env : Env} {e object : Expr} {link : ChainLink} {links later : List ChainLink} {v : Value}

/-! ### One link -/

theorem property_of_isNullish (h : v.isNullish) (name : String) :
    v.property name true = .ok none := by
  cases v with
  | none => rfl
  | some v =>
    cases v with
    | null => rfl
    | _ => cases h

theorem callOnce_of_isNullish (h : v.isNullish) (method : String) (args : List Expr) :
    callOnce eval v method true args env = .ok none := by
  cases v with
  | none => rfl
  | some v =>
    cases v with
    | null => rfl
    | _ => cases h

/-- **A link behind a nullish object evaluates its index and nothing else.** -/
theorem eval_attach (hv : e.eval env = .ok v) (hnull : v.isNullish)
    (hoptional : (link.attach e).isOptionalChain) (hcall : ¬ env.Refuses e [link]) :
    (link.attach e).eval env = (evalList link.keys env).map fun _ => none := by
  rw [ChainLink.isOptionalChain_attach] at hoptional
  cases link with
  | member property optional =>
    rw [ChainLink.attach, eval_eq, evalOnce, Env.constant?_of_eval hv]
    dsimp only [ChainLink.isOptional] at hoptional
    rw [hv, hoptional]
    exact property_of_isNullish hnull property
  | index key optional =>
    dsimp only [ChainLink.isOptional] at hoptional
    rw [ChainLink.attach, eval_eq, evalOnce, hv, hoptional, ChainLink.keys, evalList]
    cases key.eval env with
    | error => rfl
    | ok w => exact property_of_isNullish hnull w.propertyName
  | call method args optional =>
    have hbound : ¬ env.StartsUnbound e := fun hunbound => hcall ⟨hunbound, rfl⟩
    dsimp only [ChainLink.isOptional] at hoptional
    rw [ChainLink.attach, call_method_eq _ _ _ _ _ (Env.callee_of_not_startsUnbound hbound ..), hv,
      hoptional]
    exact callOnce_of_isNullish hnull method args

theorem eval_attach_of_error {err : EvalError} (hroot : e.rootName? = none)
    (h : e.eval env = .error err) (link : ChainLink) :
    (link.attach e).eval env = .error err ∧ (link.attach e).rootName? = none := by
  cases link with
  | member property optional =>
    refine ⟨?_, hroot⟩
    rw [ChainLink.attach, eval_eq, evalOnce, Env.constant?_of_rootName?_eq_none hroot, h]
    rfl
  | index key optional =>
    refine ⟨?_, rfl⟩
    rw [ChainLink.attach, eval_eq, evalOnce, h]
    rfl
  | call method args optional =>
    refine ⟨?_, rfl⟩
    rw [ChainLink.attach,
      call_method_eq _ _ _ _ _ (Env.callee_of_rootName?_eq_none hroot method optional), h]
    rfl

theorem eval_chain_of_error {err : EvalError} (hroot : e.rootName? = none)
    (h : e.eval env = .error err) (links : List ChainLink) :
    (e.chain links).eval env = .error err := by
  induction links generalizing e with
  | nil => exact h
  | cons link later ih =>
    obtain ⟨hattach, hroot⟩ := eval_attach_of_error hroot h link
    exact ih hroot hattach

/-! ### All links -/

theorem startsUnbound_attach_iff :
    env.StartsUnbound (link.attach e) ↔ ∃ property optional,
      link = .member property optional ∧ env.StartsUnbound e := by
  cases link with
  | member property optional =>
    exact ⟨fun h => ⟨property, optional, rfl, h⟩, fun ⟨_, _, _, h⟩ => h⟩
  | index | call =>
    constructor
    · rintro ⟨_, hroot, _⟩
      cases hroot
    · rintro ⟨_, _, heq, _⟩
      cases heq

theorem refuses_cons_iff :
    env.Refuses e (link :: later) ↔ env.Refuses e [link] ∨ env.Refuses (link.attach e) later := by
  rw [Env.Refuses, Env.Refuses, Env.Refuses, startsUnbound_attach_iff]
  cases link with
  | member => simp [ChainLink.callsByName]
  | index | call => simp [ChainLink.callsByName]

/-- **Behind a nullish object all links give undefined, but for indices without a value.** -/
theorem eval_chain (hv : e.eval env = .ok v) (hnull : v.isNullish)
    (hoptional : (link.attach e).isOptionalChain) (hcall : ¬ env.Refuses e (link :: later)) :
    (e.chain (link :: later)).eval env =
      (evalList ((link :: later).flatMap ChainLink.keys) env).map fun _ => none := by
  induction later generalizing e link v with
  | nil =>
    rw [List.flatMap_singleton]
    exact eval_attach hv hnull hoptional hcall
  | cons next later ih =>
    rw [refuses_cons_iff, not_or] at hcall
    have hattach := eval_attach hv hnull hoptional hcall.1
    have hnext : (next.attach (link.attach e)).isOptionalChain := by
      rw [ChainLink.isOptionalChain_attach, hoptional, Bool.or_true]
    cases link with
    | index key optional =>
      rw [ChainLink.keys, evalList] at hattach
      rw [List.flatMap_cons, ChainLink.keys, List.singleton_append, evalList]
      cases hkey : key.eval env with
      | error err =>
        rw [hkey] at hattach
        exact eval_chain_of_error rfl hattach (next :: later)
      | ok w =>
        rw [hkey] at hattach
        refine (ih hattach rfl hnext hcall.2).trans ?_
        cases evalList ((next :: later).flatMap ChainLink.keys) env <;> rfl
    | member | call => exact ih hattach rfl hnext hcall.2

theorem eval_attach_of_refuses (hv : e.eval env = .ok v) (hcall : env.Refuses e [link]) :
    (∃ name, (link.attach e).eval env = .error (.notCallable name)) ∧
      (link.attach e).rootName? = none := by
  obtain ⟨hunbound, hcalls⟩ := hcall
  cases link with
  | member | index => cases hcalls
  | call method args optional =>
    obtain ⟨name, hname⟩ := Env.callee_of_startsUnbound hunbound hv method optional
    refine ⟨⟨name, ?_⟩, rfl⟩
    rw [ChainLink.attach, eval, hname]

/-- **Behind a nullish object that begins like a constant a call is refused.** -/
theorem eval_chain_of_refuses (hv : e.eval env = .ok v) (hnull : v.isNullish)
    (hoptional : (link.attach e).isOptionalChain) (hcall : env.Refuses e (link :: later)) :
    ∃ name, (e.chain (link :: later)).eval env = .error (.notCallable name) := by
  induction later generalizing e link v with
  | nil => exact (eval_attach_of_refuses hv hcall).1
  | cons next later ih =>
    obtain hcall | hcall := refuses_cons_iff.1 hcall
    · obtain ⟨⟨name, hname⟩, hroot⟩ := eval_attach_of_refuses hv hcall
      exact ⟨name, eval_chain_of_error hroot hname (next :: later)⟩
    · -- the name of the call goes on through this link, which is a member
      obtain ⟨property, optional, rfl, _⟩ := startsUnbound_attach_iff.1 hcall.1
      have hmember := eval_attach hv hnull hoptional fun h => nomatch h.2
      have hnext :
          (next.attach ((ChainLink.member property optional).attach e)).isOptionalChain := by
        rw [ChainLink.isOptionalChain_attach, hoptional, Bool.or_true]
      exact ih hmember rfl hnext hcall

/-! ### Texts -/

theorem exists_evalList_iff {items : List Expr} :
    (∃ vs, evalList items env = .ok vs) ↔ ∀ item ∈ items, ∃ w, item.eval env = .ok w := by
  induction items with
  | nil => exact ⟨fun _ => List.forall_mem_nil _, fun _ => ⟨[], rfl⟩⟩
  | cons item rest ih =>
    rw [List.forall_mem_cons, ← ih, evalList]
    cases item.eval env with
    | error =>
      constructor
      · rintro ⟨vs, hvs⟩
        cases hvs
      · rintro ⟨⟨w, hw⟩, -⟩
        cases hw
    | ok w =>
      cases evalList rest env with
      | error =>
        constructor
        · rintro ⟨vs, hvs⟩
          cases hvs
        · rintro ⟨-, ws, hws⟩
          cases hws
      | ok ws => exact ⟨fun _ => ⟨⟨w, rfl⟩, ws, rfl⟩, fun _ => ⟨w :: ws, rfl⟩⟩

/-- **An optional chain with a nullish object before its `?.` is undefined if and only if every
index from there on has a value and no call is refused by its name.** Arguments of calls do not
matter. Otherwise it fails, with the first failure of an index or with the refused call. -/
theorem evaluate_chain_of_nullish {text : String} {context : Json} {base : Expr}
    {before : List ChainLink} (hread : parse? (Text.trim text) =
      .ok (base.chain (before ++ link :: later)))
    (hlink : link.isOptional)
    (hobject : (base.chain before).eval ⟨Scope.ofContext context, []⟩ = .ok v)
    (hnull : v.isNullish) :
    let env : Env := ⟨Scope.ofContext context, []⟩
    let keys := (link :: later).flatMap ChainLink.keys
    let refused := env.Refuses (base.chain before) (link :: later)
    (evaluate text context = .ok none ↔
      (∀ key ∈ keys, ∃ w, key.eval env = .ok w) ∧ ¬ refused) ∧
    (¬ refused → evaluate text context = (evalList keys env).map fun _ => none) ∧
    (refused → ∃ name, evaluate text context = .error (.notCallable name)) := by
  intro env keys refused
  have hoptional : (link.attach (base.chain before)).isOptionalChain := by
    rw [ChainLink.isOptionalChain_attach, hlink, Bool.true_or]
  have htext : evaluate text context = ((base.chain before).chain (link :: later)).eval env := by
    rw [evaluate, hread, chain, List.foldl_append]
    rfl
  have hskips (h : ¬ refused) : evaluate text context = (evalList keys env).map fun _ => none :=
    htext.trans (eval_chain hobject hnull hoptional h)
  have hrefused (h : refused) : ∃ name, evaluate text context = .error (.notCallable name) := by
    rw [htext]
    exact eval_chain_of_refuses hobject hnull hoptional h
  refine ⟨?_, hskips, hrefused⟩
  rw [← exists_evalList_iff]
  by_cases h : refused
  · obtain ⟨name, hname⟩ := hrefused h
    rw [hname]
    constructor
    · intro hok
      cases hok
    · exact fun hand => absurd h hand.2
  · rw [hskips h]
    cases evalList keys env with
    | error =>
      constructor
      · intro hok
        cases hok
      · rintro ⟨⟨ws, hws⟩, -⟩
        cases hws
    | ok ws => exact iff_of_true rfl ⟨⟨ws, rfl⟩, h⟩

/-- An object without members. -/
def emptyUser : Json := .obj [("i", .num (.int 0 (by decide))), ("user", .obj [])]

theorem evaluate_chain_of_nullish_emptyUser :
    evaluate "user.name?.parts[i].join(nope)" emptyUser = .ok none := by
  have hread : parse? (Text.trim "user.name?.parts[i].join(nope)") =
      .ok ((ident "user").chain ([.member "name" false] ++
        .member "parts" true :: [.index (ident "i") false, .call "join" [ident "nope"] false])) :=
    parse?_of_tokens rfl rfl
  have hobject : ((ident "user").chain [.member "name" false]).eval
      ⟨Scope.ofContext emptyUser, []⟩ = .ok none := rfl
  refine (evaluate_chain_of_nullish hread rfl hobject rfl).1.2 ⟨?_, ?_⟩
  · intro key hkey
    obtain rfl := List.mem_singleton.1 hkey
    exact ⟨_, rfl⟩
  · rintro ⟨⟨root, hroot, hbound⟩, -⟩
    obtain rfl := Option.some.inj hroot
    exact absurd hbound (by decide)

/-- A context with a nullish value. -/
def nullContext : Json := .obj [("a", .null)]

/-- The object before `?.` is null, but the index behind it has no value, and neither has the
chain. -/
theorem not_evaluate_chain_of_nullish :
    parse? (Text.trim "a?.b[nope]") =
        .ok ((ident "a").chain [.member "b" true, .index (ident "nope") false]) ∧
      evaluate "a" nullContext = .ok (some .null) ∧
      evaluate "a?.b[nope]" nullContext = .error (.unknownIdentifier "nope") := by
  have hread : parse? (Text.trim "a?.b[nope]") =
      .ok ((ident "a").chain [.member "b" true, .index (ident "nope") false]) :=
    parse?_of_tokens rfl rfl
  have hobject : parse? (Text.trim "a") = .ok (ident "a") := parse?_of_tokens rfl rfl
  refine ⟨hread, ?_, ?_⟩
  · rw [evaluate, hobject]
    rfl
  · rw [evaluate, hread]
    rfl

end Expr

end SchemaCanvas
