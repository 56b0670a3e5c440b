import SchemaCanvas.Proofs.Session.Turn

/-!
# Runs of a session, step by step

A run does a list of actions. A frame of input does several things at once, so what is said of every
state that a run reaches is said of its steps: an action that is no frame is one step, and a frame
is one step for every chord that is pressed, up to a failure.

* `Session.steps` lists the steps of a run, each with the session that it meets;
* `Session.trace_steps` : the steps lead from the first session of the run to its last;
* `Session.Trace.invariant`, `Session.Trace.forall_before` and `Session.Trace.forall_after_iff` are
  the inductions over a run.
-/

namespace SchemaCanvas

namespace Session

/-- One step of a run: the session that it meets, and what is done. -/
structure Step where
  before : Session
  action : Action

/-- The session after a step. -/
def Step.after (x : Step) : Session := (x.before.perform x.action).1

/-! ### The steps of a run -/

/-- The steps of one frame. -/
def chordSteps (s : Session) : List Chord → List Step
  | [] => []
  | chord :: rest =>
    { before := s, action := .chord chord } ::
      match s.pressChord chord with
      | (s, .ok _) => chordSteps s rest
      | (_, .error _) => []

/-- The steps of an action. -/
def stepsOf (s : Session) (action : Action) : List Step :=
  match action with
  | .input events => s.chordSteps (Chord.ofEvents events)
  | action => [{ before := s, action }]

/-- The steps of a run. -/
def steps (s : Session) : List Action → List Step
  | [] => []
  | action :: rest => s.stepsOf action ++ steps (s.perform action).1 rest

variable {s : Session} {x : Step}

theorem action_of_mem_chordSteps {chords : List Chord} (h : x ∈ s.chordSteps chords) :
    ∃ chord, x.action = .chord chord := by
  induction chords generalizing s with
  | nil => cases h
  | cons chord rest ih =>
    rw [chordSteps] at h
    rcases List.mem_cons.1 h with rfl | h
    · exact ⟨chord, rfl⟩
    · split at h
      · exact ih h
      · cases h

theorem stepsOf_eq_singleton {action : Action} (h : ∀ events, action ≠ .input events) :
    s.stepsOf action = [{ before := s, action }] := by
  rw [stepsOf]
  exact h

/-- What is done in a step: one of the actions of the run, or a chord of a frame. -/
theorem action_of_mem_steps {actions : List Action} (h : x ∈ s.steps actions) :
    (∀ events, x.action ≠ .input events) ∧
      (x.action ∈ actions ∨ ∃ chord, x.action = .chord chord) := by
  induction actions generalizing s with
  | nil => cases h
  | cons action rest ih =>
    rcases List.mem_append.1 h with h | h
    · by_cases hinput : ∃ events, action = .input events
      · obtain ⟨events, rfl⟩ := hinput
        obtain ⟨chord, hchord⟩ := action_of_mem_chordSteps h
        exact ⟨by simp [hchord], .inr ⟨chord, hchord⟩⟩
      · have hinput := not_exists.1 hinput
        rw [stepsOf_eq_singleton hinput, List.mem_singleton] at h
        subst h
        exact ⟨hinput, .inl List.mem_cons_self⟩
    · obtain ⟨hinput, haction⟩ := ih h
      exact ⟨hinput, haction.imp_left (List.mem_cons_of_mem action)⟩

/-! ### Traces -/

/-- Steps that lead from one session to another. -/
inductive Trace : Session → List Step → Session → Prop
  | nil (s : Session) : Trace s [] s
  | cons {s t : Session} {action : Action} {xs : List Step} :
      Trace (s.perform action).1 xs t → Trace s ({ before := s, action } :: xs) t

variable {t u : Session} {xs ys : List Step}

theorem Trace.append (h : Trace s xs t) (h' : Trace t ys u) : Trace s (xs ++ ys) u := by
  induction h with
  | nil => exact h'
  | cons _ ih => exact .cons (ih h')

theorem trace_chordSteps (s : Session) (chords : List Chord) :
    Trace s (s.chordSteps chords) (s.pressChords chords).1 := by
  induction chords generalizing s with
  | nil => exact .nil s
  | cons chord rest ih =>
    have hperform : (s.perform (.chord chord)).1 = (s.pressChord chord).1 := fst_reply _ _
    rw [chordSteps, pressChords]
    refine .cons ?_
    rw [hperform]
    cases s.pressChord chord with
    | mk after result =>
      cases result with
      | ok command => exact ih after
      | error error => exact .nil after

theorem trace_stepsOf (s : Session) (action : Action) :
    Trace s (s.stepsOf action) (s.perform action).1 := by
  by_cases hinput : ∃ events, action = .input events
  · obtain ⟨events, rfl⟩ := hinput
    have hperform : (s.perform (.input events)).1 = (s.handleInput events).1 := fst_reply _ _
    rw [hperform]
    exact trace_chordSteps s (Chord.ofEvents events)
  · rw [stepsOf_eq_singleton (not_exists.1 hinput)]
    exact .cons (.nil _)

/-- **The steps of a run lead from its first session to its last.** -/
theorem trace_steps (s : Session) (actions : List Action) :
    Trace s (s.steps actions) (s.performAll actions) := by
  induction actions generalizing s with
  | nil => exact .nil s
  | cons action rest ih => exact (trace_stepsOf s action).append (ih _)

theorem Trace.invariant {I : Session → Prop} (h : Trace s xs t) (h₀ : I s)
    (hstep : ∀ x ∈ xs, I x.before → I x.after) : I t := by
  induction h with
  | nil => exact h₀
  | @cons s t action xs _ ih =>
    have hfirst : I (s.perform action).1 := hstep ⟨s, action⟩ List.mem_cons_self h₀
    exact ih hfirst fun x hx => hstep x (List.mem_cons_of_mem _ hx)

theorem Trace.forall_before {I : Session → Prop} (h : Trace s xs t) (h₀ : I s)
    (hstep : ∀ x ∈ xs, I x.before → I x.after) : ∀ x ∈ xs, I x.before := by
  induction h with
  | nil => exact List.forall_mem_nil _
  | @cons s t action xs _ ih =>
    have hfirst : I (s.perform action).1 := hstep ⟨s, action⟩ List.mem_cons_self h₀
    have hrest := ih hfirst fun x hx => hstep x (List.mem_cons_of_mem _ hx)
    exact List.forall_mem_cons.2 ⟨h₀, hrest⟩

/-- What holds at first, and is lost in exactly the steps of one kind, holds all along a run if and
only if there is no such step. -/
theorem Trace.forall_after_iff {I : Session → Prop} {Loses : Step → Prop} (h : Trace s xs t)
    (h₀ : I s) (hstep : ∀ x ∈ xs, I x.before → (I x.after ↔ ¬ Loses x)) :
    (∀ x ∈ xs, I x.after) ↔ ∀ x ∈ xs, ¬ Loses x := by
  induction h with
  | nil => simp
  | @cons s t action xs _ ih =>
    have hfirst := hstep ⟨s, action⟩ List.mem_cons_self h₀
    rw [List.forall_mem_cons, List.forall_mem_cons, hfirst]
    -- the later steps count only if the first one keeps what holds
    refine and_congr_right fun hkeeps => ih (hfirst.2 hkeeps) fun x hx => ?_
    exact hstep x (List.mem_cons_of_mem _ hx)

end Session

end SchemaCanvas
