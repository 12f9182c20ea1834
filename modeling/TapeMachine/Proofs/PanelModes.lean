import TapeMachine.Panel
import TapeMachine.Proofs.Ticking

/-!
The two modes of a panel. Whatever its user does and whenever its timers run out,
a panel either runs, with one timer that will call for the next tick and only the
pause button to press, or rests, with no timer and everything but the pause button
enabled.
-/

namespace TapeMachine

namespace Panel

/-- What the user of a panel and its timers can do. -/
inductive Gesture
  | run
  | step
  | pause
  | reset
  | setSpeed (value : Json)
  | edit (editor : Text)
  | setEdited (edited : Bool)
  | setInput (input : Text)
  | fire

/-- The panel after a gesture. It stays as it was after a speed that is refused, an
edit of the disabled editor, and where no timer is left to run out. -/
def take (p : Panel) : Gesture → Panel
  | .run => p.run
  | .step => p.step.1
  | .pause => p.pause
  | .reset => p.reset
  | .setSpeed value =>
    match p.setSpeed value with
    | .ok p => p
    | .error _ => p
  | .edit editor => (p.edit? editor).getD p
  | .setEdited edited => p.setEdited edited
  | .setInput input => p.setInput input
  | .fire => p.fire?.getD p

/-- A panel whose machine runs and goes on with the one timer that is parked on
it. -/
structure Runs (p : Panel) : Prop where
  runState : p.machine.runState = .running
  halted : p.machine.core.halted = false
  timers : ∃ timer, p.timers = [timer] ∧ p.machine.pending = some (.tick timer.id)
  runEnabled : p.runEnabled = false
  stepEnabled : p.stepEnabled = false
  pauseEnabled : p.pauseEnabled = true
  editorEnabled : p.editorEnabled = false

/-- A panel whose machine does not run and that waits for its user. -/
structure Rests (p : Panel) : Prop where
  runState : p.machine.runState ≠ .running
  timers : p.timers = []
  pending : p.machine.pending = none
  runEnabled : p.runEnabled = true
  stepEnabled : p.stepEnabled = true
  pauseEnabled : p.pauseEnabled = false
  editorEnabled : p.editorEnabled = true

def ledger (p : Panel) : Ledger where
  machine := p.machine
  queued := p.timers.map Timer.id
  scheduled := p.timersMade

theorem ledger_setMachine (p : Panel) (m : Machine) :
    (p.setMachine m).ledger = p.ledger.setMachine m := by
  simp [ledger, setMachine, Ledger.setMachine, List.filter_map, Function.comp_def]

theorem follows_ledger : pacer.Follows ledger where
  machine := fun _ => rfl
  setMachine := ledger_setMachine
  schedule := fun p => by simp [ledger, pacer, schedule, Ledger.schedule]

theorem ledger_updateView (p : Panel) : p.updateView.ledger = p.ledger := rfl

theorem clear_ledger_iff {p : Panel} :
    p.ledger.Clear ↔ p.timers = [] ∧ p.machine.pending = none := by
  constructor
  · intro clear
    exact ⟨List.map_eq_nil_iff.1 clear.queued, clear.pending⟩
  · rintro ⟨timers, pending⟩
    exact ⟨by rw [ledger, timers, List.map_nil], pending⟩

theorem exists_awaits_iff {p : Panel} :
    (∃ id, p.ledger.Awaits id) ↔
      ∃ timer, p.timers = [timer] ∧ p.machine.pending = some (.tick timer.id) := by
  constructor
  · rintro ⟨id, awaits⟩
    obtain ⟨timer, timers, rfl⟩ := List.map_eq_singleton_iff.1 awaits.queued
    exact ⟨timer, timers, awaits.pending⟩
  · rintro ⟨timer, timers, pending⟩
    exact ⟨timer.id, by rw [ledger, timers, List.map_singleton], pending⟩

/-- A panel at rest, with all ticks that it ever scheduled accounted for. -/
structure Still (p : Panel) (fired : List Nat) : Prop extends Rests p where
  accounts : p.ledger.Accounts fired

/-- What holds of a panel between two gestures. -/
structure Orderly (p : Panel) (fired : List Nat) : Prop where
  accounts : p.ledger.Accounts fired
  mode : p.Runs ∨ p.Rests

section

variable {p : Panel} {fired : List Nat}

theorem Rests.clear (h : p.Rests) : p.ledger.Clear :=
  clear_ledger_iff.2 ⟨h.timers, h.pending⟩

theorem Still.orderly (h : p.Still fired) : p.Orderly fired :=
  ⟨h.accounts, Or.inr h.toRests⟩

theorem Orderly.settled (h : p.Orderly fired) : p.ledger.Settled fired where
  accounts := h.accounts
  mode := h.mode.symm.imp Rests.clear fun runs => exists_awaits_iff.2 runs.timers

theorem Orderly.still (h : p.Orderly fired) (stopped : p.machine.runState ≠ .running) :
    p.Still fired :=
  { h.mode.resolve_left fun runs => stopped runs.runState with accounts := h.accounts }

theorem Still.settled (h : p.Still fired) : p.ledger.Settled fired :=
  h.orderly.settled

theorem Orderly.updateView (h : p.Orderly fired) : p.updateView.Orderly fired :=
  ⟨h.accounts, h.mode.imp (fun runs => { runs with }) fun rests => { rests with }⟩

/-- A pause brings any panel to rest. -/
theorem still_pause (h : p.ledger.Settled fired) : p.pause.Still fired := by
  have released := p.machine.releases_pause
  have settled := h.release released
  have clear := h.clear_release released
  rw [← ledger_setMachine] at settled clear
  obtain ⟨timers, pending⟩ := clear_ledger_iff.1 clear
  have stopped : p.machine.pause.runState ≠ .running := by
    rw [Machine.runState_pause]
    split <;> simp
  exact
    { runState := stopped
      timers := timers
      pending := pending
      runEnabled := rfl
      stepEnabled := rfl
      pauseEnabled := rfl
      editorEnabled := rfl
      accounts := settled.accounts }

theorem still_finish (h : p.ledger.Settled fired) : p.finish.Still fired :=
  { still_pause h with }

theorem Still.updateView (h : p.Still fired) : p.updateView.Still fired :=
  { h with }

/-- A panel at rest stays so with any machine that has nothing parked and does not
run. -/
theorem Still.setMachine (h : p.Still fired) {m : Machine} (stopped : m.runState ≠ .running)
    (clear : (p.ledger.setMachine m).Clear) (accounts : (p.ledger.setMachine m).Accounts fired) :
    (p.setMachine m).Still fired := by
  rw [← ledger_setMachine] at clear accounts
  obtain ⟨timers, pending⟩ := clear_ledger_iff.1 clear
  exact { h with runState := stopped, timers, pending, accounts }

theorem Still.release (h : p.Still fired) {m : Machine} (stopped : m.runState ≠ .running)
    (released : p.machine.Releases m) : (p.setMachine m).Still fired :=
  h.setMachine stopped (h.settled.clear_release released) (h.settled.release released).accounts

theorem Still.load (h : p.Still fired) : p.load.Still fired := by
  refine h.release ?_ (p.machine.releases_load p.editor p.input)
  rw [Machine.runState_load]
  simp

theorem still_reset (h : p.ledger.Settled fired) : p.reset.Still fired := by
  have paused := still_pause h
  have restarted : (p.pause.setMachine (p.pause.machine.reset false)).Still fired := by
    refine paused.release ?_ (p.pause.machine.releases_reset false)
    rw [Machine.runState_reset]
    simp
  exact restarted.load.updateView

/-- A tick of a running panel sees to the next timer or brings the panel to rest. -/
theorem orderly_tick (accounts : p.ledger.Accounts fired) (timers : p.timers = [])
    (running : p.machine.runState = .running) (runEnabled : p.runEnabled = false)
    (stepEnabled : p.stepEnabled = false) (pauseEnabled : p.pauseEnabled = true)
    (editorEnabled : p.editorEnabled = false) : (pacer.tick p).Orderly fired := by
  have empty : p.ledger.queued = [] := by rw [ledger, timers, List.map_nil]
  have stepped : (pacer.stepped p).ledger.Accounts fired := follows_ledger.accounts_stepped accounts
  have clear : (pacer.stepped p).ledger.Clear := follows_ledger.clear_stepped empty
  rw [follows_ledger.tick_of_running running]
  cases halted : (pacer.machine (pacer.stepped p)).core.halted with
  | true =>
      have settled : (pacer.stepped p).ledger.Settled fired := ⟨stepped, Or.inl clear⟩
      have paused := settled.release (pacer.stepped p).machine.releases_pause
      rw [← ledger_setMachine] at paused
      exact (still_finish (p := (pacer.stepped p).updateView.setMachine _) paused).orderly
  | false =>
      have goesOn : (pacer.stepped p).machine.runState = .running :=
        (follows_ledger.runState_stepped halted).trans running
      have awaits := clear.awaits_schedule
      have settled := clear.settled_schedule stepped
      rw [← follows_ledger.schedule] at awaits settled
      have next := exists_awaits_iff.1 ⟨_, awaits⟩
      simp only [Bool.false_eq_true, if_false]
      rw [if_pos (show (pacer.machine (pacer.onTick (pacer.stepped p))).runState = _ from goesOn)]
      exact ⟨settled.accounts, Or.inl
        ⟨goesOn, halted, next, runEnabled, stepEnabled, pauseEnabled, editorEnabled⟩⟩

/-- A machine that keeps what is parked, and runs where the one before did, leaves
the panel in its mode. -/
theorem Orderly.keep (h : p.Orderly fired) {m : Machine} (kept : p.machine.Keeps m)
    (same : m.runState = p.machine.runState) (halted : m.core.halted = false) :
    (p.setMachine m).Orderly fired := by
  have settled := h.settled.keep kept
  rw [← ledger_setMachine] at settled
  refine ⟨settled.accounts, ?_⟩
  rcases h.mode with runs | rests
  · have parked : ¬(p.setMachine m).ledger.Clear := by
      intro clear
      obtain ⟨_, _, pending⟩ := runs.timers
      have none : m.pending = none := clear.pending
      rw [kept.pending, pending] at none
      cases none
    exact Or.inl
      { runs with
        runState := same.trans runs.runState
        halted := halted
        timers := exists_awaits_iff.1 (settled.mode.resolve_left parked) }
  · have timers : (p.setMachine m).timers = [] := by
      rw [Panel.setMachine, rests.timers, List.filter_nil]
    exact Or.inr
      { rests with
        runState := fun running => rests.runState (same.symm.trans running)
        timers := timers
        pending := kept.pending.trans rests.pending }

/-- A panel about to step has loaded what it steps through. -/
theorem Orderly.loaded (h : p.Orderly fired) :
    (if p.machine.core.program.length = 0 then p.load else p).Orderly fired := by
  split
  · next empty =>
      rcases h.mode with runs | rests
      · have halted := runs.halted
        simp [Core.halted, empty] at halted
      · have still : p.Still fired := { rests with accounts := h.accounts }
        exact still.load.orderly
  · exact h

theorem Orderly.step (h : p.Orderly fired) : p.step.1.Orderly fired := by
  have loaded := h.loaded
  rw [Panel.step]
  generalize (if p.machine.core.program.length = 0 then p.load else p) = q at loaded ⊢
  have kept : q.machine.Keeps q.machine.step.1 := q.machine.keeps_after 1
  have halts : q.machine.step.1.core.halted = q.machine.core.step.halted :=
    congrArg Core.halted q.machine.core_step
  have same : q.machine.core.step.halted = false →
      q.machine.step.1.runState = q.machine.runState :=
    Machine.runState_after (n := 1)
  simp only [Machine.canContinue_step]
  generalize q.machine.step.1 = m at kept halts same ⊢
  cases halted : q.machine.core.step.halted with
  | true =>
      have settled := loaded.settled.keep kept
      rw [← ledger_setMachine, ← ledger_updateView] at settled
      exact (still_finish settled).orderly
  | false => exact (loaded.keep kept (same halted) (halts.trans halted)).updateView

theorem Orderly.run (h : p.Orderly fired) : p.run.Orderly fired := by
  rw [Panel.run]
  split
  · exact h
  · next stopped =>
      let q := if p.machine.core.halted then p.load else p
      have still : q.Still fired := by
        simp only [q]
        split
        · exact (h.still stopped).load
        · exact h.still stopped
      rw [Pacer.start_of_stopped still.runState]
      have accounts : (q.ledger.setMachine q.machine.start).Accounts fired :=
        still.accounts.setMachine rfl
      have timers : (q.setMachine q.machine.start).timers = [] := by
        rw [Panel.setMachine, still.timers, List.filter_nil]
      rw [← ledger_setMachine] at accounts
      exact orderly_tick accounts timers rfl rfl rfl rfl rfl

/-- The timer that runs out is the one that was parked. -/
theorem Orderly.fire (h : p.Orderly fired) : ∃ fired, (p.fire?.getD p).Orderly fired := by
  rcases h.mode with runs | rests
  · obtain ⟨timer, timers, pending⟩ := runs.timers
    have awaits : p.ledger.Awaits timer.id := ⟨by rw [ledger, timers, List.map_singleton], pending⟩
    refine ⟨timer.id :: fired, ?_⟩
    rw [fire?, timers]
    exact orderly_tick (awaits.accounts_fire h.accounts) rfl runs.runState runs.runEnabled
      runs.stepEnabled runs.pauseEnabled runs.editorEnabled
  · refine ⟨fired, ?_⟩
    rw [fire?, rests.timers]
    exact h

theorem Orderly.setSpeed (h : p.Orderly fired) {value : Json} {q : Panel}
    (hq : p.setSpeed value = .ok q) : q.Orderly fired := by
  rw [Panel.setSpeed] at hq
  split at hq
  · cases hq
  · next x _ =>
      cases hwhole : Number.wholeOfReal x with
      | error refusal =>
          rw [hwhole] at hq
          cases hq
      | ok position =>
          rw [hwhole] at hq
          cases hq
          exact ⟨h.accounts, h.mode.imp (fun runs => { runs with }) fun rests => { rests with }⟩

/-- What the user types changes nothing in the mode. -/
theorem Orderly.type (h : p.Orderly fired) (editor input : Text) (edited : Bool) :
    { p with editor, input, edited }.Orderly fired :=
  ⟨h.accounts, h.mode.imp (fun runs => { runs with }) fun rests => { rests with }⟩

theorem Orderly.takeUpEdit (h : p.Orderly fired) : p.takeUpEdit.Orderly fired := by
  rw [Panel.takeUpEdit]
  have taken : { p with edited := false }.Orderly fired := h.type p.editor p.input false
  split
  · simp only
    split
    · exact taken
    · exact (still_reset taken.settled).orderly
  · exact h

theorem Orderly.take (h : p.Orderly fired) (gesture : Gesture) :
    ∃ fired, (p.take gesture).Orderly fired := by
  cases gesture with
  | run => exact ⟨fired, h.run⟩
  | step => exact ⟨fired, h.step⟩
  | pause => exact ⟨fired, (still_pause h.settled).orderly⟩
  | reset => exact ⟨fired, (still_reset h.settled).orderly⟩
  | setSpeed value =>
      refine ⟨fired, ?_⟩
      rw [Panel.take]
      split
      · next accepted => exact h.setSpeed accepted
      · exact h
  | edit editor =>
      refine ⟨fired, ?_⟩
      rw [Panel.take, edit?]
      split
      · exact (h.type editor p.input true).takeUpEdit
      · exact h
  | setEdited edited => exact ⟨fired, (h.type p.editor p.input edited).takeUpEdit⟩
  | setInput input => exact ⟨fired, h.type p.editor input p.edited⟩
  | fire => exact h.fire

theorem Orderly.foldl_take (h : p.Orderly fired) (gestures : List Gesture) :
    ∃ fired, (gestures.foldl Panel.take p).Orderly fired := by
  induction gestures generalizing p fired with
  | nil => exact ⟨fired, h⟩
  | cons gesture gestures ih =>
      obtain ⟨fired, taken⟩ := h.take gesture
      exact ih taken

end

theorem orderly_make (editor : Text) : (make editor).Orderly [] := by
  rw [make]
  refine (still_reset ⟨?_, Or.inl ⟨rfl, rfl⟩⟩).orderly
  intro id
  simp [ledger, Machine.blank]

/-- A panel is always in exactly one of its two modes. -/
theorem runs_or_rests (editor : Text) (gestures : List Gesture) :
    let p := gestures.foldl take (make editor)
    (p.Runs ∧ ¬p.Rests) ∨ (p.Rests ∧ ¬p.Runs) := by
  intro p
  obtain ⟨fired, orderly⟩ := (orderly_make editor).foldl_take gestures
  rcases orderly.mode with runs | rests
  · exact Or.inl ⟨runs, fun rests => rests.runState runs.runState⟩
  · exact Or.inr ⟨rests, fun runs => rests.runState runs.runState⟩

end Panel

end TapeMachine
