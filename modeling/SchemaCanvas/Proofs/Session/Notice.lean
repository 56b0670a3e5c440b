import SchemaCanvas.Proofs.Session.HandOff

/-!
# What the host is told of the selection

The host is told of a node when it becomes selected. Most operations on the selection go through
`Session.withSelection`, which compares the ids before and after; the others must leave nothing
selected that was not selected before. So every step tells the host of the node that is newly
selected, once, and of nothing else. A frame of input is several steps: the host is told of the
nodes that its chords select on the way, even if the last one leads back to the first.

* `Session.Tells` : what is told between two sessions, in terms of their selections;
* `Session.tells_perform` : every action tells so, apart from frames and from changes that the host
  makes by itself;
* `Session.notices_performAll` : along a run, action by action.
-/

namespace SchemaCanvas

/-- The id of a node of which the host is told that it is selected. -/
def HostEvent.selectedId? : HostEvent → Option String
  | selected id => some id
  | updated _ _ => none

/-- The id of the node that is selected now, unless a node with that id was selected before. -/
def Selection.newId? (before after : Option Selection) : Option String :=
  match after with
  | none => none
  | some sel => if before.any fun old => old.id = sel.id then none else some sel.id

theorem Selection.newId?_eq_some_iff {before after : Option Selection} {id : String} :
    newId? before after = some id ↔
      (∃ sel, after = some sel ∧ sel.id = id) ∧ ∀ sel, before = some sel → sel.id ≠ id := by
  cases after with
  | none => simp [newId?]
  | some sel =>
    cases before with
    | none => simp [newId?]
    | some old =>
      simp only [newId?, Option.any_some, decide_eq_true_eq, Option.some.injEq, exists_eq_left',
        forall_eq']
      split_ifs with heq
      · simp [heq]
      · constructor
        · rintro ⟨⟩
          exact ⟨rfl, heq⟩
        · rintro ⟨rfl, -⟩
          rfl

theorem Selection.newId?_self (sel : Option Selection) : newId? sel sel = none := by
  cases sel <;> simp [newId?]

namespace Session

/-- The ids of all nodes of which the host has been told that they are selected, the first first. -/
def notices (s : Session) : List String := s.log.filterMap HostEvent.selectedId?

/-- On the way from one session to another the host is told of the node that is newly selected, and
of no other. -/
def Tells (s after : Session) : Prop :=
  after.notices =
    s.notices ++ (Selection.newId? s.selection.selected after.selection.selected).toList

variable {s after : Session}

/-! ### Ways to go on -/

/-- Nothing need be told where the selected node is the same, or there is none. -/
theorem tells_of_kept (hnotices : after.notices = s.notices)
    (hselected : after.selection.selected = s.selection.selected ∨
      after.selection.selected = none) : s.Tells after := by
  rw [Tells, hnotices]
  rcases hselected with h | h
  · rw [h, Selection.newId?_self, Option.toList_none, List.append_nil]
  · rw [h]
    exact (List.append_nil _).symm

theorem tells_rfl : s.Tells s := tells_of_kept rfl (.inl rfl)

theorem tells_withSelection (selection : SelectionState) :
    s.Tells (s.withSelection selection) := by
  have hevents : (selectionEvents s.selection selection).filterMap HostEvent.selectedId? =
      (Selection.newId? s.selection.selected selection.selected).toList := by
    cases hselected : selection.selected with
    | none => rw [selectionEvents, hselected]; rfl
    | some sel =>
      have hbefore : s.selection.isSelected sel.id =
          s.selection.selected.any fun old => old.id = sel.id := rfl
      rw [selectionEvents, Selection.newId?, hselected]
      by_cases hold : s.selection.isSelected sel.id
      · simp [← hbefore, hold]
      · simp [← hbefore, hold, HostEvent.selectedId?]
  rw [Tells, notices, withSelection, List.filterMap_append, hevents]
  rfl

theorem notices_publish (operation : Operation) (showToast : Bool) :
    (s.publish operation showToast).1.notices = s.notices := by
  cases hhost : s.host with
  | some host =>
    rw [notices, log_publish (by rw [hhost]; rfl), List.filterMap_append]
    exact List.append_nil _
  | none =>
    -- without a host nothing is handed over
    simp only [publish, hhost, Option.bind_none, Option.isSome_none, Bool.false_eq_true, if_false]
    cases showToast <;> rfl

theorem Tells.publish (h : s.Tells after) (operation : Operation) (showToast : Bool) :
    s.Tells (after.publish operation showToast).1 := by
  rw [Tells, notices_publish, selection_publish]
  exact h

/-! ### Operations -/

theorem tells_apply (e : Edit) : s.Tells (s.apply e).1 := by
  rw [fst_apply]
  have h := tells_withSelection (s := { s with tree := e.tree, next := e.next })
    (s.selection.afterEdit e)
  exact Tells.publish h e.operation false

theorem tells_reject {α : Type} (error : EditError) : s.Tells (s.reject (α := α) error).1 :=
  tells_of_kept rfl (.inl rfl)

theorem tells_finish (result : Except EditError Edit) : s.Tells (s.finish result).1 := by
  cases result with
  | ok e => exact tells_apply e
  | error error => exact tells_reject error

theorem tells_cut : s.Tells s.cut.1 := by
  rw [cut]
  cases Edit.cut s.next s.tree s.selection.selected with
  | ok result =>
    -- the clipboard is filled first, and the selected node is the same
    exact tells_apply (s := s.withCopied result.2) result.1
  | error error => exact tells_reject error

theorem tells_copy : s.Tells s.copy.1 := by
  rw [copy]
  cases Edit.copy s.tree s.selection.selected with
  | ok n => exact tells_of_kept rfl (.inl rfl)
  | error error => exact tells_reject error

theorem tells_commitEdit : s.Tells s.commitEdit.1 := by
  rw [commitEdit]
  cases s.pending with
  | none => exact tells_rfl
  | some pending =>
    exact tells_finish (s := s.cancelEdit) (Edit.content s.next s.tree pending)

/-- Going one level down leaves nothing selected, so that nobody need be told. -/
theorem tells_toChildren : s.Tells s.toChildren.1 := by
  refine tells_of_kept rfl ?_
  show (s.selection.toChildren s.tree).1.selected = s.selection.selected ∨
    (s.selection.toChildren s.tree).1.selected = none
  rw [SelectionState.toChildren]
  split_ifs
  · exact .inr rfl
  · exact .inl rfl

/-! ### Chords and actions -/

theorem Tells.quietly {α : Type} {result : Session × Except SessionError α}
    (h : s.Tells result.1) : s.Tells (s.quietly result).1 := by
  obtain ⟨after, (error | refusal) | a⟩ := result <;> exact h

theorem tells_run (command : Command) : s.Tells (s.run command).1 := by
  cases command with
  | escape => exact tells_withSelection _
  | selectFirstChild | selectParent | nextSibling | previousSibling => exact tells_withSelection _
  | copy => exact tells_copy.quietly
  | cut => exact tells_cut.quietly
  | move | paste | duplicate | delete => exact (tells_finish _).quietly

theorem tells_pressChord (chord : Chord) : s.Tells (s.pressChord chord).1 := by
  rw [pressChord]
  cases Command.resolve? chord s.config.keyboard s.selection.enabled with
  | none => exact tells_rfl
  | some command => exact tells_run command

theorem tells_lookup {α : Type} (tree : PointerTree)
    {inSchema : Node → SelectionState → SelectionState × α}
    {inOutput : Output → SelectionState → SelectionState × α} {ok : α → Reply} :
    s.Tells (s.lookup tree inSchema inOutput ok).1 := by
  cases tree with
  | schema => exact tells_withSelection _
  | rendered context =>
    rw [lookup]
    cases s.render context with
    | none => exact tells_rfl
    | some o => exact tells_withSelection _

/-- **An action tells the host of the node that it newly selects,** and of no other. -/
theorem tells_perform {a : Action} (hinput : ∀ events, a ≠ .input events)
    (hfollow : ∀ tree, a ≠ .revalidate tree) : s.Tells (s.perform a).1 := by
  cases a with
  | select | setHovered | toParent | setSelectionEnabled => exact tells_withSelection _
  | hover tree | click tree | doubleClick tree => exact tells_lookup tree
  | revalidate tree => exact absurd rfl (hfollow tree)
  | toChildren => exact tells_toChildren
  | copy => rw [perform, fst_reply]; exact tells_copy
  | cut => rw [perform, fst_reply]; exact tells_cut
  | paste | delete | duplicate | move | moveTo => rw [perform, fst_reply]; exact tells_finish _
  | commitEdit => rw [perform, fst_reply]; exact tells_commitEdit
  | chord chord => rw [perform, fst_reply]; exact tells_pressChord chord
  | input events => exact absurd rfl (hinput events)
  | replace tree => exact tells_of_kept rfl (.inr rfl)
  | load v =>
    rw [perform, load]
    cases Schema.load s.next v with
    | ok result => exact tells_of_kept rfl (.inr rfl)
    | error error => exact tells_rfl
  | publish operation showToast =>
    have hfst : (s.perform (.publish operation showToast)).1 =
        (s.publish operation showToast).1 := by
      rw [perform]
      split <;> simp only [*]
    rw [hfst]
    exact tells_rfl.publish operation showToast
  | beginEdit | cancelEdit | notify | takeToast | setKeyboard | setHost | render =>
    exact tells_of_kept rfl (.inl rfl)

/-! ### Runs -/

/-- The id of the node that a step newly selects. -/
def Step.newId? (x : Step) : Option String :=
  Selection.newId? x.before.selection.selected x.after.selection.selected

/-- A step tells the host of at most one node, which is the one selected after the step, and of this
exactly if no node was selected before or one with another id. -/
def Step.TellsNew (x : Step) : Prop :=
  ∃ told : Option String, x.after.notices = x.before.notices ++ told.toList ∧
    ∀ id, told = some id ↔ (∃ sel, x.after.selection.selected = some sel ∧ sel.id = id) ∧
      ∀ sel, x.before.selection.selected = some sel → sel.id ≠ id

theorem Step.tellsNew {x : Step} (h : x.before.Tells x.after) : x.TellsNew :=
  ⟨x.newId?, h, fun _ => Selection.newId?_eq_some_iff⟩

theorem Trace.notices {t : Session} {xs : List Step} (h : Trace s xs t)
    (hxs : ∀ x ∈ xs, x.before.Tells x.after) :
    t.notices = s.notices ++ xs.filterMap Step.newId? := by
  induction h with
  | nil => exact (List.append_nil _).symm
  | @cons s t action xs _ ih =>
    obtain ⟨hx, hxs⟩ := List.forall_mem_cons.1 hxs
    have hfirst : (s.perform action).1.notices =
        s.notices ++ (Step.newId? ⟨s, action⟩).toList := hx
    rw [ih hxs, hfirst, List.append_assoc, List.filterMap_cons]
    cases Step.newId? ⟨s, action⟩ <;> rfl

/-- The steps of an action are the action itself or chords, and all of them tell the host. -/
theorem tells_of_mem_stepsOf {a : Action} (hfollow : ∀ tree, a ≠ .revalidate tree) :
    ∀ x ∈ s.stepsOf a, x.before.Tells x.after := by
  intro x hx
  by_cases hinput : ∃ events, a = .input events
  · obtain ⟨events, rfl⟩ := hinput
    obtain ⟨chord, hchord⟩ := action_of_mem_chordSteps hx
    obtain ⟨before, action⟩ := x
    obtain rfl : action = .chord chord := hchord
    exact tells_perform nofun nofun
  · have hinput := not_exists.1 hinput
    rw [stepsOf_eq_singleton hinput, List.mem_singleton] at hx
    subst hx
    exact tells_perform hinput hfollow

/-- **The host is told of every newly selected node, once.** Along a run in which the host leaves
the selection to the session, every action other than a frame of input tells it of at most one node:
of the one selected afterwards, exactly if before no node was selected or one with another id. A
frame presses its chords one after the other up to a failure, and every one of them tells the host
in this way. -/
theorem notices_performAll (tree : Node) (next : Nat) (config : Config) (transforms : Transforms)
    (host : Option Host) {actions : List Action} (hfollow : ∀ tree, .revalidate tree ∉ actions) :
    ∀ earlier a later, actions = earlier ++ a :: later →
      let s := (start tree next config transforms host).performAll earlier
      ((∀ events, a ≠ .input events) → Step.TellsNew ⟨s, a⟩) ∧
      ∀ events, a = .input events →
        let xs := s.chordSteps (Chord.ofEvents events)
        Trace s xs (s.perform a).1 ∧
        (∀ x ∈ xs, (∃ chord, x.action = .chord chord) ∧ x.TellsNew) ∧
        (s.perform a).1.notices = s.notices ++ xs.filterMap Step.newId? := by
  rintro earlier a later rfl s
  have hmem : a ∈ earlier ++ a :: later := List.mem_append_right _ List.mem_cons_self
  have hleft : ∀ tree, a ≠ .revalidate tree := fun tree h => hfollow tree (h ▸ hmem)
  refine ⟨fun hinput => Step.tellsNew (tells_perform hinput hleft), ?_⟩
  rintro events rfl xs
  have htrace : Trace s xs (s.perform (.input events)).1 := trace_stepsOf s (.input events)
  have htells : ∀ x ∈ xs, x.before.Tells x.after := tells_of_mem_stepsOf hleft
  refine ⟨htrace, fun x hx => ⟨action_of_mem_chordSteps hx, Step.tellsNew (htells x hx)⟩, ?_⟩
  exact htrace.notices htells

/-- A frame in which the next sibling is selected and then the one before it. -/
def thereAndBack : List InputEvent :=
  [.key (some .tab) true {}, .key (some .tab) true { shift := true }]

/-- Two sections are selected one after the other within one frame. -/
theorem notices_performAll_thereAndBack :
    let actions := [Action.select "a" [0], .input thereAndBack]
    (∀ tree, .revalidate tree ∉ actions) ∧
    let s := (start (sections ["a", "b"]) 0 {} [] none).performAll [.select "a" [0]]
    s.notices = ["a"] ∧ (s.perform (.input thereAndBack)).1.notices = ["a"] ++ ["b", "a"] := by
  intro actions
  have hfollow (tree : PointerTree) : .revalidate tree ∉ actions := by simp [actions]
  refine ⟨hfollow, ?_⟩
  intro s
  obtain ⟨-, hframe⟩ :=
    notices_performAll (sections ["a", "b"]) 0 {} [] none hfollow [.select "a" [0]] _ [] rfl
  obtain ⟨-, -, hnotices⟩ := hframe thereAndBack rfl
  exact ⟨rfl, hnotices.trans rfl⟩

/-- One frame may tell the host of two nodes, although the same node is selected before and after
it. -/
theorem not_tellsNew_thereAndBack :
    let s := (start (sections ["a", "b"]) 0 {} [] none).performAll [.select "a" [0]]
    s.selection.selected = some ⟨"a", [0]⟩ ∧
    (s.perform (.input thereAndBack)).1.selection.selected = some ⟨"a", [0]⟩ ∧
    ¬ Step.TellsNew ⟨s, .input thereAndBack⟩ := by
  refine ⟨rfl, rfl, ?_⟩
  rintro ⟨told, hnotices, -⟩
  have htwice : ["a", "b", "a"] = ["a"] ++ told.toList := hnotices
  cases told <;> simp at htwice

end Session

end SchemaCanvas
