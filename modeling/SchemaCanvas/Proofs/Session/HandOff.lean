import SchemaCanvas.Proofs.Session.Rejection
import SchemaCanvas.Proofs.Session.Run
import Mathlib.Data.List.DropRight

/-!
# What is handed to the host

A host that stores the tree relies on being handed every change of it. The changes are the results
of accepted operations, which `Session.edit?` reads off the operations on trees; what the host has
been handed stands in the log. This file compares the two along a run.

* `Session.Settles` : how an operation ends, whether it is run by an action or by a chord;
* `Session.settles_perform` : every action ends so, apart from those that replace the tree;
* `Session.handOffs_performAll` : along a run the host is handed the result of every accepted
  operation once and in order, and a refusal fails that operation alone and takes nothing back.
-/

namespace SchemaCanvas

/-- The tree and the kind of change that a host is handed. -/
def HostEvent.handOff? : HostEvent → Option (Node × Operation)
  | updated tree operation => some (tree, operation)
  | selected _ => none

/-- What a host is handed of the result of an operation. -/
def Edit.handOff (e : Edit) : Node × Operation := (e.tree, e.operation)

namespace Session

section

variable (s : Session)

/-- All trees that the host has been handed, the first first. -/
def handOffs : List (Node × Operation) := s.log.filterMap HostEvent.handOff?

/-- The result of the operation that a command runs, if it runs one and that is accepted. -/
def editOfCommand? : Command → Option Edit
  | .cut => (Edit.cut s.next s.tree s.selection.selected).toOption.map Prod.fst
  | .paste =>
    (Edit.paste s.next s.tree s.selection.selected s.selection.copied).toOption
  | .delete => (Edit.delete s.next s.tree s.selection.selected).toOption
  | .duplicate => (Edit.duplicate s.next s.tree s.selection.selected).toOption
  | .move direction => (Edit.shift s.next s.tree s.selection.selected direction).toOption
  | .escape | .selectFirstChild | .selectParent | .nextSibling | .previousSibling | .copy => none

/-- The result of the operation that an action runs, if it runs one and that is accepted. -/
def edit? : Action → Option Edit
  | .cut => s.editOfCommand? .cut
  | .paste => s.editOfCommand? .paste
  | .delete => s.editOfCommand? .delete
  | .duplicate => s.editOfCommand? .duplicate
  | .move direction => s.editOfCommand? (.move direction)
  | .moveTo parent gap => (Edit.carry s.next s.tree s.selection.selected parent gap).toOption
  | .commitEdit =>
    s.pending.bind fun pending => (Edit.content s.next s.tree pending).toOption
  | .chord chord =>
    (Command.resolve? chord s.config.keyboard s.selection.enabled).bind s.editOfCommand?
  | _ => none

/-- The tree that an action puts in place of the old one. -/
def replacement? : Action → Option Node
  | .replace tree => some tree
  | .load v => (Schema.load s.next v).toOption.map Prod.fst
  | _ => none

/-- The session with the result of an operation, which the host has not been handed yet. -/
def adopt (e : Edit) : Session :=
  { s with tree := e.tree, next := e.next }.withSelection (s.selection.afterEdit e)

/-- What the host answers to the result of an operation: the text of its refusal, if it refuses. -/
def refusal? (e : Edit) : Option String :=
  s.host.bind fun host => host (s.adopt e).log e.tree e.operation

end

variable {s : Session}

/-! ### Handing over -/

theorem handOffs_withSelection (selection : SelectionState) :
    (s.withSelection selection).handOffs = s.handOffs := by
  have hevents : (selectionEvents s.selection selection).filterMap HostEvent.handOff? = [] := by
    rw [selectionEvents]
    split
    · rfl
    · split_ifs <;> rfl
  rw [handOffs, withSelection, List.filterMap_append, hevents, List.append_nil, handOffs]

theorem snd_publish (operation : Operation) (showToast : Bool) :
    (s.publish operation showToast).2 = s.host.bind fun host => host s.log s.tree operation := by
  rw [publish]
  cases s.host.bind fun host => host s.log s.tree operation <;> rfl

theorem host_publish (operation : Operation) (showToast : Bool) :
    (s.publish operation showToast).1.host = s.host := by
  obtain ⟨toast, log, h⟩ := s.publish_eq operation showToast
  rw [h]

theorem log_publish (hhost : s.host.isSome) (operation : Operation) (showToast : Bool) :
    (s.publish operation showToast).1.log = s.log ++ [.updated s.tree operation] := by
  rw [publish, if_pos hhost]
  cases s.host.bind fun host => host s.log s.tree operation with
  | some text => rfl
  | none => cases showToast <;> rfl

theorem handOffs_publish (hhost : s.host.isSome) (operation : Operation) (showToast : Bool) :
    (s.publish operation showToast).1.handOffs = s.handOffs ++ [(s.tree, operation)] := by
  rw [handOffs, log_publish hhost, List.filterMap_append]
  rfl

/-! ### How an operation ends -/

/-- An operation on `s` with the result `edit?` ends in `after`. The host is handed the result, and
nothing if there is none; `unsaved` holds of the text with which it refuses, and of no other. -/
structure Settles (s : Session) (edit? : Option Edit) (after : Session) (unsaved : String → Prop) :
    Prop where
  tree : after.tree = (edit?.map Edit.tree).getD s.tree
  handOffs : after.handOffs = s.handOffs ++ (edit?.map Edit.handOff).toList
  host : after.host = s.host
  unsaved_iff : ∀ text, unsaved text ↔ edit?.bind s.refusal? = some text

variable {after : Session} {unsaved : String → Prop}

theorem settles_none (htree : after.tree = s.tree) (hlog : after.log = s.log)
    (hhost : after.host = s.host) (h : ∀ text, ¬ unsaved text) : s.Settles none after unsaved where
  tree := htree
  handOffs := by simp [Session.handOffs, hlog]
  host := hhost
  unsaved_iff text := by simp [h text]

theorem settles_withSelection (selection : SelectionState) (h : ∀ text, ¬ unsaved text) :
    s.Settles none (s.withSelection selection) unsaved where
  tree := rfl
  handOffs := by simp [handOffs_withSelection]
  host := rfl
  unsaved_iff text := by simp [h text]

theorem Settles.congr {edit? : Option Edit} {final : Session} {unsaved' : String → Prop}
    (h : s.Settles edit? after unsaved) (htree : final.tree = after.tree)
    (hlog : final.log = after.log) (hhost : final.host = after.host)
    (hunsaved : ∀ text, unsaved' text ↔ unsaved text) : s.Settles edit? final unsaved' where
  tree := htree.trans h.tree
  handOffs := by
    rw [← h.handOffs, Session.handOffs, Session.handOffs, hlog]
  host := hhost.trans h.host
  unsaved_iff text := (hunsaved text).trans (h.unsaved_iff text)

/-- The result of an accepted operation is handed over once, and stays if the host refuses it. -/
theorem settles_apply (hhost : s.host.isSome) (e : Edit) :
    s.Settles (some e) (s.apply e).1 fun text => (s.apply e).2 = .error (.unsaved text) where
  tree := tree_apply s e
  handOffs := by
    have hadopt : (s.adopt e).handOffs = s.handOffs := handOffs_withSelection _
    have hpublish := handOffs_publish (s := s.adopt e) hhost e.operation false
    rwa [adopt, ← fst_apply, ← adopt, hadopt] at hpublish
  host := by
    rw [fst_apply, host_publish]
    rfl
  unsaved_iff text := by
    have hanswer : ((s.adopt e).publish e.operation false).2 = s.refusal? e := snd_publish _ _
    rw [Option.bind_some, ← hanswer, apply, ← SelectionState.afterEdit, ← adopt]
    split <;> simp [*]

theorem settles_reject {α : Type} (error : EditError) :
    s.Settles none (s.reject (α := α) error).1
      fun text => (s.reject (α := α) error).2 = .error (.unsaved text) :=
  settles_none rfl rfl rfl fun _ => nofun

theorem settles_finish (hhost : s.host.isSome) (result : Except EditError Edit) :
    s.Settles result.toOption (s.finish result).1
      fun text => (s.finish result).2 = .error (.unsaved text) := by
  cases result with
  | ok e => exact settles_apply hhost e
  | error error => exact settles_reject error

theorem settles_cut (hhost : s.host.isSome) :
    s.Settles (s.editOfCommand? .cut) s.cut.1 fun text => s.cut.2 = .error (.unsaved text) := by
  rw [editOfCommand?, cut]
  cases Edit.cut s.next s.tree s.selection.selected with
  | error error => exact settles_reject error
  | ok result =>
    -- the clipboard is filled first, which the host does not see
    have h := settles_apply (s := s.withCopied result.2) hhost result.1
    exact ⟨h.tree, h.handOffs, h.host, h.unsaved_iff⟩

theorem settles_copy : s.Settles none s.copy.1 fun text => s.copy.2 = .error (.unsaved text) := by
  rw [copy]
  cases Edit.copy s.tree s.selection.selected with
  | error error => exact settles_reject error
  | ok n => exact settles_none rfl rfl rfl fun _ h => by cases h

theorem settles_commitEdit (hhost : s.host.isSome) :
    s.Settles (s.edit? .commitEdit) s.commitEdit.1
      fun text => s.commitEdit.2 = .error (.unsaved text) := by
  rw [edit?, commitEdit]
  cases hp : s.pending with
  | none => exact settles_none rfl rfl rfl fun _ h => by cases h
  | some pending =>
    have h := settles_finish (s := s.cancelEdit) hhost (Edit.content s.next s.tree pending)
    have h := h.congr rfl rfl rfl fun _ => map_eq_error_iff (f := some)
    exact ⟨h.tree, h.handOffs, h.host, h.unsaved_iff⟩

/-! ### Chords and actions -/

/-- From the keyboard an operation ends as it does otherwise. A rejection only takes its message
back. -/
theorem Settles.quietly {α : Type} {result : Session × Except SessionError α} {edit? : Option Edit}
    (h : s.Settles edit? result.1 fun text => result.2 = .error (.unsaved text)) :
    s.Settles edit? (s.quietly result).1
      fun text => (s.quietly result).2 = .error (.unsaved text) := by
  obtain ⟨after, (error | refusal) | a⟩ := result <;>
    exact h.congr rfl rfl rfl fun text => by simp [Session.quietly]

theorem settles_step {α : Type} (f : SelectionState → SelectionState × Option α) :
    s.Settles none (s.step f).1 fun text => (s.step f).2 = .error (.unsaved text) :=
  settles_withSelection (f s.selection).1 fun _ => nofun

theorem settles_run (hhost : s.host.isSome) (command : Command) :
    s.Settles (s.editOfCommand? command) (s.run command).1
      fun text => (s.run command).2 = .error (.unsaved text) := by
  cases command with
  | escape => exact settles_withSelection _ fun _ => nofun
  | selectFirstChild | selectParent | nextSibling | previousSibling => exact settles_step _
  | copy => exact settles_copy.quietly
  | cut => exact (settles_cut hhost).quietly
  | move | paste | duplicate | delete => exact (settles_finish hhost _).quietly

theorem settles_pressChord (hhost : s.host.isSome) (chord : Chord) :
    s.Settles (s.edit? (.chord chord)) (s.pressChord chord).1
      fun text => (s.pressChord chord).2 = .error (.unsaved text) := by
  rw [edit?, pressChord]
  cases Command.resolve? chord s.config.keyboard s.selection.enabled with
  | none => exact settles_none rfl rfl rfl fun _ h => by cases h
  | some command =>
    exact (settles_run hhost command).congr rfl rfl rfl fun _ => map_eq_error_iff

theorem Settles.reply {α : Type} {result : Session × Except SessionError α} {ok : α → Reply}
    {edit? : Option Edit}
    (h : s.Settles edit? result.1 fun text => result.2 = .error (.unsaved text))
    (hok : ∀ a text, ok a ≠ .failed (.unsaved text)) :
    s.Settles edit? (reply result ok).1
      fun text => (reply result ok).2 = .failed (.unsaved text) := by
  obtain ⟨after, error | a⟩ := result <;>
    exact h.congr rfl rfl rfl fun text => by simp [Session.reply, hok]

theorem settles_lookup {α : Type} (tree : PointerTree)
    {inSchema : Node → SelectionState → SelectionState × α}
    {inOutput : Output → SelectionState → SelectionState × α} {ok : α → Reply}
    (hok : ∀ a text, ok a ≠ .failed (.unsaved text)) :
    s.Settles none (s.lookup tree inSchema inOutput ok).1
      fun text => (s.lookup tree inSchema inOutput ok).2 = .failed (.unsaved text) := by
  have hfailed (text : String) :
      (s.lookup tree inSchema inOutput ok).2 ≠ .failed (.unsaved text) :=
    snd_lookup_ne_failed tree fun a => hok a text
  cases tree with
  | schema => exact settles_withSelection _ hfailed
  | rendered context =>
    rw [lookup] at hfailed ⊢
    cases s.render context with
    | none => exact settles_none rfl rfl rfl fun _ h => by cases h
    | some o => exact settles_withSelection _ fun text => hok _ text

/-- **Every action settles the operation that it runs,** apart from those that replace the tree. -/
theorem settles_perform (hhost : s.host.isSome) {a : Action} (hgiven : s.replacement? a = none)
    (hinput : ∀ events, a ≠ .input events) (hset : ∀ host, a ≠ .setHost host)
    (hpublish : ∀ operation showToast, a ≠ .publish operation showToast) :
    s.Settles (s.edit? a) (s.perform a).1
      fun text => (s.perform a).2 = .failed (.unsaved text) := by
  cases a with
  | copy => exact settles_copy.reply (by simp)
  | cut => exact (settles_cut hhost).reply (by simp)
  | paste | delete | duplicate | move | moveTo =>
    exact (settles_finish hhost _).reply (by simp)
  | commitEdit => exact (settles_commitEdit hhost).reply (by simp)
  | chord chord => exact (settles_pressChord hhost chord).reply (by simp)
  | hover tree | click tree | doubleClick tree => exact settles_lookup tree (by simp)
  | revalidate tree =>
    cases tree with
    | schema => exact settles_none rfl rfl rfl fun _ h => by cases h
    | rendered context =>
      rw [perform, revalidate]
      cases s.render context <;> exact settles_none rfl rfl rfl fun _ h => by cases h
  | load v =>
    rw [replacement?] at hgiven
    rw [perform, load]
    cases h : Schema.load s.next v with
    | ok result =>
      rw [h] at hgiven
      cases hgiven
    | error error => exact settles_none rfl rfl rfl fun _ h => by cases h
  | replace tree => cases hgiven
  | input events => exact absurd rfl (hinput events)
  | setHost host => exact absurd rfl (hset host)
  | publish operation showToast => exact absurd rfl (hpublish operation showToast)
  | select | setHovered | toParent | setSelectionEnabled =>
    exact settles_withSelection _ fun _ h => by cases h
  | toChildren | beginEdit | cancelEdit | notify | takeToast | setKeyboard | render =>
    exact settles_none rfl rfl rfl fun _ h => by cases h

/-! ### Steps -/

namespace Step

variable (x : Step)

/-- The result of the operation that a step runs, if it runs one and that is accepted. -/
def edit? : Option Edit := x.before.edit? x.action

/-- The tree that a step puts in place of the old one. -/
def replacement? : Option Node := x.before.replacement? x.action

/-- What the host answers to the result of a step, if it is handed one and refuses it. -/
def refusal? : Option String := x.edit?.bind x.before.refusal?

/-- The step hands over the result of its operation, and nothing else changes the tree but a
replacement. -/
structure HandsOver : Prop where
  host : x.after.host = x.before.host
  handOffs : x.after.handOffs = x.before.handOffs ++ (x.edit?.map Edit.handOff).toList
  tree : x.after.tree = (x.replacement?.or (x.edit?.map Edit.tree)).getD x.before.tree
  unsaved_iff : ∀ text, (x.before.perform x.action).2 = .failed (.unsaved text) ↔
    x.refusal? = some text

variable {x}

theorem handsOver_of_replaceTree {tree : Node} {next : Nat} (hgiven : x.replacement? = some tree)
    (hedit : x.edit? = none)
    (hperform : x.before.perform x.action = (x.before.replaceTree tree next, .done)) :
    x.HandsOver where
  host := by rw [after, hperform]; rfl
  handOffs := by
    rw [after, hperform, hedit, Option.map_none, Option.toList_none, List.append_nil]
    rfl
  tree := by rw [after, hperform, hgiven]; rfl
  unsaved_iff text := by simp [hperform, refusal?, hedit]

theorem handsOver_of_replacement {tree : Node} (h : x.replacement? = some tree) : x.HandsOver := by
  obtain ⟨s, a⟩ := x
  cases a with
  | replace => exact handsOver_of_replaceTree h rfl (by rw [← Option.some.inj h]; rfl)
  | load v =>
    obtain ⟨⟨tree, next⟩, hresult, rfl⟩ := Option.map_eq_some_iff.1 h
    have hload : s.load v = .ok (s.replaceTree tree next) := by
      rw [load, toOption_eq_some_iff.1 hresult]
      rfl
    have hperform : s.perform (.load v) = (s.replaceTree tree next, .done) := by
      rw [perform, hload]
    exact handsOver_of_replaceTree h rfl hperform
  | _ => cases h

theorem handsOver (hhost : x.before.host.isSome) (hinput : ∀ events, x.action ≠ .input events)
    (hset : ∀ host, x.action ≠ .setHost host)
    (hpublish : ∀ operation showToast, x.action ≠ .publish operation showToast) : x.HandsOver := by
  cases hgiven : x.replacement? with
  | some tree => exact handsOver_of_replacement hgiven
  | none =>
    have h := settles_perform hhost hgiven hinput hset hpublish
    exact ⟨h.host, h.handOffs, by rw [hgiven]; exact h.tree, h.unsaved_iff⟩

end Step

/-! ### Runs -/

/-- What a host should be handed along steps. -/
def handOffsOf (xs : List Step) : List (Node × Operation) :=
  xs.filterMap fun x => x.edit?.map Edit.handOff

/-- The steps behind the last one that replaces the tree. -/
def sinceReplaced (xs : List Step) : List Step := xs.rtakeWhile fun x => x.replacement?.isNone

/-- The tree with which the steps behind the last replacement begin. -/
def original (tree : Node) (xs : List Step) : Node :=
  (xs.filterMap Step.replacement?).getLast?.getD tree

variable {t : Session} {xs : List Step}

theorem Trace.of_concat {x : Step} (h : Trace s (xs ++ [x]) t) :
    Trace s xs x.before ∧ t = x.after := by
  induction xs generalizing s with
  | nil =>
    cases h with
    | cons h =>
      cases h
      exact ⟨.nil s, rfl⟩
  | cons y xs ih =>
    cases h with
    | cons h =>
      obtain ⟨hinit, hlast⟩ := ih h
      exact ⟨.cons hinit, hlast⟩

theorem Trace.handOffs (h : Trace s xs t) (hxs : ∀ x ∈ xs, x.HandsOver) :
    t.handOffs = s.handOffs ++ handOffsOf xs := by
  induction xs using List.reverseRecOn generalizing t with
  | nil =>
    cases h
    simp [handOffsOf]
  | append_singleton xs x ih =>
    obtain ⟨hinit, rfl⟩ := h.of_concat
    obtain ⟨hxs, hx⟩ := List.forall_mem_append.1 hxs
    have hlast := (hx x List.mem_cons_self).handOffs
    have hlists : handOffsOf (xs ++ [x]) = handOffsOf xs ++ (x.edit?.map Edit.handOff).toList := by
      rw [handOffsOf, List.filterMap_append]
      rfl
    rw [hlast, ih hinit hxs, List.append_assoc, hlists]

/-- The tree is the last one handed over since the last replacement, or the one that was put in
place then. -/
theorem Trace.tree (h : Trace s xs t) (hxs : ∀ x ∈ xs, x.HandsOver) :
    t.tree = ((handOffsOf (sinceReplaced xs)).getLast?.map Prod.fst).getD (original s.tree xs) := by
  induction xs using List.reverseRecOn generalizing t with
  | nil =>
    cases h
    rfl
  | append_singleton xs x ih =>
    obtain ⟨hinit, rfl⟩ := h.of_concat
    obtain ⟨hxs, hx⟩ := List.forall_mem_append.1 hxs
    have htree := (hx x List.mem_cons_self).tree
    cases hgiven : x.replacement? with
    | some tree =>
      rw [htree, sinceReplaced, List.rtakeWhile_concat_neg _ _ _ (by simp [hgiven]), original,
        List.filterMap_append]
      simp [hgiven, handOffsOf]
    | none =>
      have hsince : sinceReplaced (xs ++ [x]) = sinceReplaced xs ++ [x] :=
        List.rtakeWhile_concat_pos _ _ _ (by simp [hgiven])
      have horiginal : original s.tree (xs ++ [x]) = original s.tree xs := by
        simp [original, hgiven]
      rw [htree, hgiven, Option.none_or, hsince, horiginal, handOffsOf, List.filterMap_append]
      cases hedit : x.edit? with
      | some e => simp [hedit, Edit.handOff]
      | none => simpa [hedit, handOffsOf] using ih hinit hxs

/-! ### The host of a run -/

/-- A frame fails as unsaved exactly with what the host answers to one of its steps. The step is the
last one, since the frame ends with it. -/
theorem snd_pressChords_eq_unsaved_iff (hhost : s.host.isSome) (chords : List Chord)
    (text : String) : (s.pressChords chords).2 = .error (.unsaved text) ↔
      ∃ x ∈ s.chordSteps chords, x.refusal? = some text := by
  induction chords generalizing s with
  | nil => simp [pressChords, chordSteps]
  | cons chord rest ih =>
    have hfirst := settles_pressChord hhost chord
    have hanswer : (s.pressChord chord).2 = .error (.unsaved text) ↔
        ({ before := s, action := .chord chord } : Step).refusal? = some text :=
      hfirst.unsaved_iff text
    have hafter := hfirst.host
    simp only [pressChords, chordSteps, List.mem_cons, exists_eq_or_imp]
    rw [← hanswer]
    generalize s.pressChord chord = result at hafter ⊢
    obtain ⟨after, error | command⟩ := result
    · simp
    · rw [← ih (hafter ▸ hhost)]
      cases h : (after.pressChords rest).2 <;> simp [h, Except.map]

theorem snd_perform_eq_unsaved_iff (hhost : s.host.isSome) {a : Action}
    (hset : ∀ host, a ≠ .setHost host)
    (hpublish : ∀ operation showToast, a ≠ .publish operation showToast) (text : String) :
    (s.perform a).2 = .failed (.unsaved text) ↔ ∃ x ∈ s.stepsOf a, x.refusal? = some text := by
  by_cases hinput : ∃ events, a = .input events
  · obtain ⟨events, rfl⟩ := hinput
    rw [stepsOf, ← snd_pressChords_eq_unsaved_iff hhost, perform, handleInput]
    cases h : s.pressChords (Chord.ofEvents events) with
    | mk after result => cases result <;> simp [reply]
  · have hinput := not_exists.1 hinput
    have hone := (Step.handsOver (x := ⟨s, a⟩) hhost hinput hset hpublish).unsaved_iff text
    rw [stepsOf_eq_singleton hinput]
    simpa using hone

variable {actions : List Action}

theorem handsOver_of_mem_steps (hhost : s.host.isSome)
    (hset : ∀ host, .setHost host ∉ actions)
    (hpublish : ∀ operation showToast, .publish operation showToast ∉ actions) :
    ∀ x ∈ s.steps actions, x.HandsOver := by
  have hone (x : Step) (hx : x ∈ s.steps actions) (hbefore : x.before.host.isSome) :
      x.HandsOver := by
    obtain ⟨hinput, haction⟩ := action_of_mem_steps hx
    refine x.handsOver hbefore hinput (fun host h => ?_) fun operation showToast h => ?_
    · rw [h] at haction
      exact (hset host).elim (haction.resolve_right nofun)
    · rw [h] at haction
      exact (hpublish operation showToast).elim (haction.resolve_right nofun)
  have hbefore := (trace_steps s actions).forall_before (I := fun s => s.host.isSome) hhost
    fun x hx hx' => by rw [(hone x hx hx').host]; exact hx'
  exact fun x hx => hone x hx (hbefore x hx)

theorem isSome_host_performAll (hhost : s.host.isSome)
    (hset : ∀ host, .setHost host ∉ actions)
    (hpublish : ∀ operation showToast, .publish operation showToast ∉ actions) :
    (s.performAll actions).host.isSome := by
  have hxs := handsOver_of_mem_steps hhost hset hpublish
  refine (trace_steps s actions).invariant (I := fun s => s.host.isSome) hhost fun x hx h => ?_
  rw [(hxs x hx).host]
  exact h

/-- **Faithful hand-off.** Along a run the host is handed the result of every accepted operation,
once and in order, and nothing else. Nothing but these operations and replacements changes the tree,
which is the last one handed over since the last replacement; and an action fails as unsaved exactly
if the host refuses what it is handed by that action. -/
theorem handOffs_performAll (tree : Node) (next : Nat) (config : Config) (transforms : Transforms)
    (host : Host) {actions : List Action} (hset : ∀ host, .setHost host ∉ actions)
    (hpublish : ∀ operation showToast, .publish operation showToast ∉ actions) :
    let s := start tree next config transforms (some host)
    let xs := s.steps actions
    (s.performAll actions).handOffs = handOffsOf xs ∧
    (∀ x ∈ xs, x.after.tree = (x.replacement?.or (x.edit?.map Edit.tree)).getD x.before.tree) ∧
    (s.performAll actions).tree =
      ((handOffsOf (sinceReplaced xs)).getLast?.map Prod.fst).getD (original tree xs) ∧
    ∀ earlier a later, actions = earlier ++ a :: later →
      let s' := s.performAll earlier
      ∀ text, (s'.perform a).2 = .failed (.unsaved text) ↔
        ∃ x ∈ s'.stepsOf a, x.refusal? = some text := by
  intro s xs
  have hhost : s.host.isSome := rfl
  have htrace := trace_steps s actions
  have hxs := handsOver_of_mem_steps hhost hset hpublish
  refine ⟨htrace.handOffs hxs, fun x hx => (hxs x hx).tree, htrace.tree hxs, ?_⟩
  rintro earlier a later rfl s' text
  have hbefore : s'.host.isSome :=
    isSome_host_performAll hhost (fun host h => hset host (List.mem_append_left _ h))
      fun operation showToast h => hpublish operation showToast (List.mem_append_left _ h)
  have ha : a ∈ earlier ++ a :: later := List.mem_append_right _ List.mem_cons_self
  refine snd_perform_eq_unsaved_iff hbefore (fun host h => hset host (h ▸ ha)) ?_ text
  exact fun operation showToast h => hpublish operation showToast (h ▸ ha)

/-- A page with sections of the given ids. -/
def sections (ids : List String) : Node where
  element := {
    id := "root", type := "div",
    children := some (ids.map fun id => .node { element := { id, type := "div" } }) }

/-- A section is deleted by a key. Then the page is replaced, and a copy of a section is asked for
when none is selected. -/
def deletion : List Action :=
  [.select "a" [0], .chord { key := .delete }, .replace (sections ["c"]), .duplicate]

/-- The host refuses what it is handed of the deletion, once. -/
theorem handOffs_performAll_deletion :
    let s := start (sections ["a", "b"]) 0 {} [] (some (.refusing "full"))
    (∀ host, .setHost host ∉ deletion) ∧
    (∀ operation showToast, .publish operation showToast ∉ deletion) ∧
    (s.performAll deletion).handOffs = [(sections ["b"], .delete)] ∧
    (s.performAll deletion).tree = sections ["c"] ∧
    ((s.performAll [.select "a" [0]]).perform (.chord { key := .delete })).2 =
      .failed (.unsaved "full") := by
  intro s
  have hset (host : Option Host) : .setHost host ∉ deletion := by simp [deletion]
  have hpublish (operation : Operation) (showToast : Bool) :
      .publish operation showToast ∉ deletion := by simp [deletion]
  obtain ⟨hhanded, -, htree, hanswers⟩ :=
    handOffs_performAll (sections ["a", "b"]) 0 {} [] (.refusing "full") hset hpublish
  refine ⟨hset, hpublish, hhanded.trans rfl, htree.trans rfl, ?_⟩
  exact (hanswers [.select "a" [0]] _ _ rfl "full").2 ⟨_, List.mem_singleton_self _, rfl⟩

end Session

end SchemaCanvas
