import SchemaCanvas.Proofs.Session.Turn

/-!
# Rejected operations

An operation that is rejected leaves a message and nothing else: the tree, the selection, the
clipboard, the draws of ids and what the host has been told are as before. A change of content that
is rejected is given up besides. The keyboard takes back the message too, so a chord that does not
run its command does nothing at all.

* `Session.RejectsCleanly` : what is shown of every operation before it is run by an action;
* `Session.unchanged_of_rejected` : the same of all actions, and of chords.
-/

namespace SchemaCanvas

namespace SelectionState

variable {s : SelectionState}

theorem snd_selectAt_of_enabled (h : s.enabled = true) (level : Nat) (id : String) (path : Path) :
    (s.selectAt level id path).2 = some ⟨id, path⟩ := by
  show (s.selectAt level id path).1.selected = some ⟨id, path⟩
  rw [fst_selectAt_of_enabled h]

theorem escape_of_false (h : s.escape.2 = false) : s.escape.1 = s := by
  rw [escape] at h ⊢
  split_ifs at h ⊢ with hselected
  rw [toParent] at h ⊢
  split at h
  · rfl
  · cases h

/-- A step of the keyboard selects the node it leads to. If it selects none, nothing changes. -/
theorem fst_eq_of_snd_eq_none {t : SelectionState} (h : t.enabled = true)
    {target : Option (String × Path)} {level : Path → Nat}
    (hnone : (match target with
      | some (id, path) => t.selectAt (level path) id path
      | none => (s, none)).2 = none) :
    (match target with
      | some (id, path) => t.selectAt (level path) id path
      | none => (s, none)).1 = s := by
  cases target with
  | none => rfl
  | some target =>
    rw [snd_selectAt_of_enabled h] at hnone
    cases hnone

end SelectionState

namespace Session

variable {s : Session}

/-! ### Operations -/

/-- If the result of an operation is a rejection, a message is all that has changed. -/
def RejectsCleanly {α : Type} (s : Session) (result : Session × Except SessionError α) : Prop :=
  ∀ error, result.2 = .error (.rejected error) → result.1 = s.notify error.message .error

theorem snd_apply_ne_rejected (e : Edit) (error : EditError) :
    (s.apply e).2 ≠ .error (.rejected error) := by
  rw [apply]
  split <;> simp

theorem rejectsCleanly_reject {α : Type} (error : EditError) :
    s.RejectsCleanly (s.reject (α := α) error) := by
  intro other h
  obtain rfl := SessionError.rejected.inj (Except.error.inj h)
  rfl

theorem rejectsCleanly_finish (result : Except EditError Edit) :
    s.RejectsCleanly (s.finish result) := by
  cases result with
  | ok e => exact fun error h => absurd h (snd_apply_ne_rejected e error)
  | error error => exact rejectsCleanly_reject error

theorem rejectsCleanly_copy : s.RejectsCleanly s.copy := by
  rw [copy]
  split
  · intro error h
    cases h
  · exact rejectsCleanly_reject _

theorem rejectsCleanly_cut : s.RejectsCleanly s.cut := by
  rw [cut]
  split
  · exact fun error h => absurd h (snd_apply_ne_rejected _ error)
  · exact rejectsCleanly_reject _

/-- A rejected change of content is given up. -/
theorem rejectsCleanly_commitEdit : s.cancelEdit.RejectsCleanly s.commitEdit := by
  intro error h
  rw [commitEdit] at h ⊢
  cases hp : s.pending with
  | none => rw [hp] at h; cases h
  | some pending =>
    rw [hp] at h
    exact rejectsCleanly_finish (Edit.content s.next s.tree pending) error (map_eq_error_iff.1 h)

/-! ### Chords -/

theorem withSelection_self : s.withSelection s.selection = s := by
  have hevents : selectionEvents s.selection s.selection = [] := by
    rw [selectionEvents]
    split
    · rfl
    · rename_i sel hsel
      simp [SelectionState.isSelected, hsel]
  rw [withSelection, hevents, List.append_nil]

theorem snd_quietly_ne_rejected {α : Type} (result : Session × Except SessionError α)
    (error : EditError) : (s.quietly result).2 ≠ .error (.rejected error) := by
  obtain ⟨after, (_ | _) | _⟩ := result <;> simp [quietly]

/-- From the keyboard a rejected operation changes nothing. -/
theorem quietly_of_false {α : Type} {result : Session × Except SessionError α}
    (hresult : s.RejectsCleanly result) (h : (s.quietly result).2 = .ok false) :
    (s.quietly result).1 = s := by
  obtain ⟨after, (error | text) | a⟩ := result
  · obtain rfl : after = s.notify error.message .error := hresult error rfl
    rfl
  · cases h
  · cases h

theorem step_of_false {α : Type} {f : SelectionState → SelectionState × Option α}
    (hf : (f s.selection).2 = none → (f s.selection).1 = s.selection)
    (h : (s.step f).2 = .ok false) : (s.step f).1 = s := by
  have hnone : (f s.selection).2 = none :=
    Option.not_isSome_iff_eq_none.1 (Bool.not_eq_true _ ▸ Except.ok.inj h)
  show s.withSelection (f s.selection).1 = s
  rw [hf hnone, withSelection_self]

theorem run_of_false (henabled : s.selection.enabled = true) {command : Command}
    (h : (s.run command).2 = .ok false) : (s.run command).1 = s := by
  cases command with
  | escape =>
    show s.withSelection s.selection.escape.1 = s
    rw [SelectionState.escape_of_false (Except.ok.inj h), withSelection_self]
  | selectFirstChild | nextSibling | previousSibling =>
    exact step_of_false (SelectionState.fst_eq_of_snd_eq_none henabled) h
  | selectParent =>
    -- the parent is selected in a state in which nothing is hovered
    have henabled : ({ s.selection with hovered := none } : SelectionState).enabled = true :=
      henabled
    exact step_of_false (SelectionState.fst_eq_of_snd_eq_none henabled) h
  | move direction => exact quietly_of_false (rejectsCleanly_finish _) h
  | copy => exact quietly_of_false rejectsCleanly_copy h
  | cut => exact quietly_of_false rejectsCleanly_cut h
  | paste => exact quietly_of_false (rejectsCleanly_finish _) h
  | duplicate => exact quietly_of_false (rejectsCleanly_finish _) h
  | delete => exact quietly_of_false (rejectsCleanly_finish _) h

theorem snd_run_ne_rejected (command : Command) (error : EditError) :
    (s.run command).2 ≠ .error (.rejected error) := by
  cases command with
  | escape | selectFirstChild | selectParent | nextSibling | previousSibling =>
    intro h
    cases h
  | move | copy | cut | paste | duplicate | delete => exact snd_quietly_ne_rejected _ error

theorem snd_pressChord_ne_rejected (chord : Chord) (error : EditError) :
    (s.pressChord chord).2 ≠ .error (.rejected error) := by
  rw [pressChord]
  split
  · simp
  · rename_i command _
    exact fun h => snd_run_ne_rejected command error (map_eq_error_iff.1 h)

theorem snd_pressChords_ne_rejected (chords : List Chord) (error : EditError) :
    (s.pressChords chords).2 ≠ .error (.rejected error) := by
  induction chords generalizing s with
  | nil =>
    intro h
    cases h
  | cons chord rest ih =>
    rw [pressChords]
    split
    · exact fun h => ih (map_eq_error_iff.1 h)
    · rename_i after other hpress
      have hne := snd_pressChord_ne_rejected (s := s) chord error
      rw [hpress] at hne
      rintro h
      obtain rfl := Except.error.inj h
      exact hne rfl

theorem pressChord_of_none {chord : Chord} (h : (s.pressChord chord).2 = .ok none) :
    (s.pressChord chord).1 = s := by
  rw [pressChord] at h ⊢
  cases hcommand : Command.resolve? chord s.config.keyboard s.selection.enabled with
  | none => rfl
  | some command =>
    rw [hcommand] at h
    show (s.run command).1 = s
    change (s.run command).2.map (fun ran => if ran then some command else none) = .ok none at h
    obtain ⟨ran, hran, hnone⟩ := map_eq_ok_iff.1 h
    have hfalse : ran = false := by simpa using hnone
    rw [hfalse] at hran
    exact run_of_false (enabled_of_resolve? hcommand) hran

/-! ### Actions -/

theorem error_of_reply {α : Type} {result : Session × Except SessionError α} {ok : α → Reply}
    {error : SessionError} (h : (reply result ok).2 = .failed error)
    (hok : ∀ a, ok a ≠ .failed error) : result.2 = .error error := by
  obtain ⟨after, e | a⟩ := result
  · exact congrArg Except.error (Reply.failed.inj h)
  · exact absurd h (hok a)

theorem snd_lookup_ne_failed {α : Type} (tree : PointerTree)
    {inSchema : Node → SelectionState → SelectionState × α}
    {inOutput : Output → SelectionState → SelectionState × α} {ok : α → Reply}
    {error : SessionError} (hok : ∀ a, ok a ≠ .failed error) :
    (s.lookup tree inSchema inOutput ok).2 ≠ .failed error := by
  cases tree with
  | schema => exact hok _
  | rendered context =>
    rw [lookup]
    cases s.render context with
    | none => simp
    | some o => exact hok _

/-- The session after a rejection. -/
def afterRejection (s : Session) (a : Action) (error : EditError) : Session :=
  { s with
    toast := some { message := error.message, kind := .error }
    pending := match a with
      | .commitEdit => none
      | _ => s.pending }

theorem perform_of_rejected {a : Action} {error : EditError}
    (h : (s.perform a).2 = .failed (.rejected error)) :
    (s.perform a).1 = s.afterRejection a error := by
  have hoperation {α : Type} {result : Session × Except SessionError α} {ok : α → Reply}
      (hclean : s.RejectsCleanly result) (hok : ∀ x, ok x ≠ .failed (.rejected error))
      (hreply : (reply result ok).2 = .failed (.rejected error)) :
      (reply result ok).1 = s.notify error.message .error := by
    rw [fst_reply]
    exact hclean error (error_of_reply hreply hok)
  cases a with
  | copy => exact hoperation rejectsCleanly_copy (by simp) h
  | cut => exact hoperation rejectsCleanly_cut (by simp) h
  | paste | delete | duplicate | move | moveTo =>
    exact hoperation (rejectsCleanly_finish _) (by simp) h
  | commitEdit =>
    rw [perform, fst_reply]
    exact rejectsCleanly_commitEdit error (error_of_reply h (by simp))
  -- the keyboard never answers with a rejection
  | chord chord =>
    exact absurd (error_of_reply h (by simp)) (snd_pressChord_ne_rejected chord error)
  | input events => exact absurd (error_of_reply h (by simp)) (snd_pressChords_ne_rejected _ error)
  | hover tree | click tree | doubleClick tree =>
    exact absurd h (snd_lookup_ne_failed tree (by simp))
  | revalidate tree =>
    cases tree with
    | schema => cases h
    | rendered context =>
      rw [perform, revalidate] at h
      split at h <;> cases h
  | load v =>
    rw [perform] at h
    split at h <;> cases h
  | publish operation showToast =>
    rw [perform] at h
    split at h <;> cases h
  | select | setHovered | toChildren | toParent | setSelectionEnabled | beginEdit | cancelEdit
  | notify | takeToast | replace | setKeyboard | setHost | render => cases h

/-- **A rejected action leaves a message and nothing else,** except that a change of content is
given up, **and a chord whose command does not run leaves nothing at all.** -/
theorem unchanged_of_rejected (s : Session) :
    (∀ a error, (s.perform a).2 = .failed (.rejected error) →
      (s.perform a).1 = s.afterRejection a error) ∧
    ∀ chord, (s.pressChord chord).2 = .ok none → (s.pressChord chord).1 = s :=
  ⟨fun _ _ => perform_of_rejected, fun _ => pressChord_of_none⟩

/-- A session on a tree of one node, in which a change of another node is pending. -/
def pendingSession : Session :=
  (start default 0 {} [] (some .accepting)).beginEdit { id := "b", text := some "x" }

theorem unchanged_of_rejected_pendingSession :
    ((pendingSession.perform .commitEdit).2 = .failed (.rejected (.nodeNotFound "b")) ∧
      (pendingSession.perform .commitEdit).1 =
        pendingSession.afterRejection .commitEdit (.nodeNotFound "b")) ∧
    (pendingSession.pressChord { key := .delete }).2 = .ok none ∧
      (pendingSession.pressChord { key := .delete }).1 = pendingSession :=
  ⟨⟨rfl, (unchanged_of_rejected pendingSession).1 _ _ rfl⟩, rfl,
    (unchanged_of_rejected pendingSession).2 _ rfl⟩

end Session

end SchemaCanvas
