import TapeMachine.Proofs.Halting
import TapeMachine.Proofs.Ledger
import TapeMachine.Proofs.Reachable
import TapeMachine.Proofs.Reading

/-!
A restart as a load. With the input rewound, restarting a machine is loading what it
was last loaded with. Without, it is loading the same source with what is left of the
input: the two machines keep this rest in different places, but no operation short of
rewinding it and no look at the machine can tell where, so they go on alike for ever.
-/

namespace TapeMachine

/-- What an action makes of the core. -/
def Action.Turns (c c' : Core) : Action → Prop
  | .load source input => c' = .load c.tape.size source input
  | .reset rewind => c' = c.restart rewind
  | .step | .batch _ | .run _ => ∃ n, c' = c.after n
  | .start | .pause | .cancelPending | .setDelay _ | .setSteps _ | .park _ => c' = c

/-- The source and the input of the last load after an action. -/
def Action.lastLoaded (texts : Text × Text) : Action → Text × Text
  | .load source input => (source, input)
  | _ => texts

namespace Core

variable {c c' : Core}

theorem inputRemaining_eq (c : Core) : c.inputRemaining = c.unread.length := by
  simp [inputRemaining, unread]

/-- A core goes on for ever or halts after an exact number of steps. -/
theorem runs_or_haltsAfter (c : Core) :
    (∀ n, (c.after n).halted = false) ∨ ∃ n, c.HaltsAfter n := by
  by_cases runs : ∀ n, (c.after n).halted = false
  · exact Or.inl runs
  · obtain ⟨n, halted⟩ := not_forall.1 runs
    rcases running_or_haltsAfter c (n + 1) with running | ⟨k, _, halts⟩
    · exact absurd (running n (Nat.lt_succ_self n)) halted
    · exact Or.inr ⟨k, halts⟩

end Core

namespace Machine

theorem core_batch (m : Machine) (count : Option Int) :
    ∃ n, (m.batch count).1.core = m.core.after n := by
  rw [batch_fst]
  split
  · exact ⟨1, m.core_after 1⟩
  · exact ⟨_, m.core_after _⟩

/-- An unlimited run ends some number of steps later. -/
theorem core_of_run {m : Machine} {last : Machine × Nat} (h : m.run = some last) :
    ∃ n, last.1.core = m.core.after n := by
  rw [run_eq] at h
  simp only at h
  split at h
  · cases h
    exact ⟨_, core_after _ m⟩
  · cases h

theorem core_perform {m m' : Machine} {action : Action} {answer : Except Refusal Reply}
    (h : m.perform action = some (m', answer)) : action.Turns m.core m'.core := by
  cases action with
  | load source input =>
      cases h
      exact m.core_load source input
  | reset rewind =>
      cases h
      exact m.core_reset rewind
  | step =>
      cases h
      exact ⟨1, m.core_step⟩
  | batch count =>
      simp only [perform, batchOf] at h
      split at h
      · cases h
        exact m.core_batch _
      · split at h
        · cases h
          exact ⟨0, m.core_settle⟩
        · cases h
          exact ⟨0, rfl⟩
  | run limit =>
      simp only [perform, runOf] at h
      split at h
      · cases h
        exact ⟨0, rfl⟩
      · next limit _ =>
          cases h
          rw [runFor_fst]
          exact ⟨limit, m.core_after limit⟩
      · obtain ⟨last, ran, same⟩ := Option.map_eq_some_iff.1 h
        cases same
        exact core_of_run ran
  | start =>
      cases h
      rfl
  | pause =>
      cases h
      exact m.core_pause
  | cancelPending =>
      cases h
      exact m.core_cancelPending
  | setDelay value =>
      simp only [perform, setDelay] at h
      cases hdelay : delayOf value <;> rw [hdelay] at h <;> cases h <;> rfl
  | setSteps value =>
      simp only [perform, setSteps] at h
      cases hsteps : stepsOf value <;> rw [hsteps] at h <;> cases h <;> rfl
  | park handle =>
      cases h
      rfl

/-- The machines that operations lead to from a fresh one, with the source and the
input of the last load. A fresh machine counts as loaded with two empty texts, and a
parked handle may be exchanged for another or taken away at any time. -/
inductive ReachedWith (size : Nat) : Text × Text → Machine → Prop
  | blank : ReachedWith size ([], []) (blank size)
  | perform {texts : Text × Text} {m m' : Machine} {answer : Except Refusal Reply}
      (action : Action) : ReachedWith size texts m → m.perform action = some (m', answer) →
      ReachedWith size (action.lastLoaded texts) m'
  | assign {texts : Text × Text} {m : Machine} (pending : Option Handle) :
      ReachedWith size texts m → ReachedWith size texts { m with pending }

/-- Whether a machine has the program and the input that two texts come to. -/
structure Holds (texts : Text × Text) (m : Machine) : Prop where
  program : m.core.program = .ofSource texts.1
  input : m.core.input = Core.inputBytes texts.2

section Reached

variable {size : Nat} {texts : Text × Text} {m m' : Machine}

theorem Holds.perform {action : Action} {answer : Except Refusal Reply} (h : m.Holds texts)
    (hm : m.perform action = some (m', answer)) : m'.Holds (action.lastLoaded texts) := by
  have turns := core_perform hm
  cases action with
  | load source input =>
      cases hm
      exact ⟨by rw [core_load]; rfl, by rw [core_load]; rfl⟩
  | reset rewind =>
      rw [Action.Turns] at turns
      exact ⟨by rw [turns]; exact h.program, by rw [turns]; exact h.input⟩
  | step | batch | run =>
      obtain ⟨n, turned⟩ := turns
      refine ⟨?_, ?_⟩
      · rw [turned, Core.program_after]
        exact h.program
      · rw [turned, Core.input_after]
        exact h.input
  | start | pause | cancelPending | setDelay | setSteps | park =>
      rw [Action.Turns] at turns
      exact ⟨by rw [turns]; exact h.program, by rw [turns]; exact h.input⟩

theorem ReachedWith.holds (h : m.ReachedWith size texts) : m.Holds texts := by
  induction h with
  | blank => exact ⟨rfl, rfl⟩
  | perform action _ hm ih => exact ih.perform hm
  | assign pending _ ih => exact ⟨ih.program, ih.input⟩

theorem ReachedWith.valid_machine (hsize : 0 < size) (h : m.ReachedWith size texts) :
    m.Valid size := by
  induction h with
  | blank => exact valid_blank hsize
  | perform action _ hm ih => exact ih.perform hsize hm
  | assign pending _ ih => exact { ih with }

end Reached

/-- With the input rewound, a restart is a load of the same texts. -/
theorem Holds.reset_rewinding {source input : Text} {m : Machine}
    (h : m.Holds (source, input)) : m.reset true = m.load source input := by
  rw [reset_eq, load_eq, Core.load, ← h.program, ← h.input]
  rfl

/-- Two machines that differ in nothing but how much of their input stands before
what is left of it. -/
structure Twins (m m' : Machine) : Prop where
  rest : m' = { m with core := m'.core }
  core : m.core.SameButInput m'.core
  unread : m'.core.unread = m.core.unread

/-- All that there is to see of a machine: what it runs and how far it is, its tape,
output and settings, and how much input is left. -/
structure Sight where
  program : Program
  pc : Nat
  command : Option Command
  sourceOffset : Option Nat
  halted : Bool
  pointer : Nat
  tapeSize : Nat
  cell : Memory → Json → Except Refusal UInt8
  window : Json → Except Refusal (Nat × List UInt8)
  output : Text
  inputRemaining : Nat
  stepCount : Nat
  runState : RunState
  delay : Number
  stepsPerTick : Nat
  pending : Option Handle
  cancelled : List Handle

def sight (m : Machine) : Sight :=
  { program := m.core.program
    pc := m.core.pc
    command := m.core.command?
    sourceOffset := m.core.sourceOffset?
    halted := m.core.halted
    pointer := m.core.ptr
    tapeSize := m.tapeSize
    cell := fun memory index => m.cellOf index memory
    window := m.windowOf
    output := m.core.outputText
    inputRemaining := m.core.inputRemaining
    stepCount := m.core.stepCount
    runState := m.runState
    delay := m.delay
    stepsPerTick := m.stepsPerTick
    pending := m.pending
    cancelled := m.cancelled }

/-- What a machine shows in the course of actions: each answer, with what there is to
see after it, up to an action that never ends. -/
def shows : List Action → Machine → List (Option (Except Refusal Reply × Sight))
  | [], _ => []
  | action :: rest, m =>
    match m.perform action with
    | none => [none]
    | some (m, answer) => some (answer, m.sight) :: shows rest m

section Twins

variable {size : Nat} {m m' : Machine}

theorem Twins.refl (m : Machine) : m.Twins m :=
  ⟨rfl, rfl, rfl⟩

theorem Twins.eq (h : m.Twins m') :
    m' = { m with core := m.core.withInput m'.core.input m'.core.inputPos } :=
  h.rest.trans (congrArg (fun core => { m with core }) h.core)

theorem Twins.sight (h : m.Twins m') : m'.sight = m.sight := by
  have remaining : m'.core.inputRemaining = m.core.inputRemaining := by
    rw [Core.inputRemaining_eq, Core.inputRemaining_eq, h.unread]
  calc m'.sight = { m'.sight with inputRemaining := m.core.inputRemaining } := by
        rw [← remaining]
        rfl
    _ = m.sight := by
        rw [h.eq]
        rfl

theorem Twins.settle (h : m.Twins m') : m.settle.Twins m'.settle := by
  rw [Machine.settle, Machine.settle, h.core.halted]
  split
  · exact ⟨congrArg (fun m => { m with runState := .idle }) h.rest, h.core, h.unread⟩
  · exact h

theorem Twins.step (h : m.Twins m') : m.step.1.Twins m'.step.1 := by
  have stepped : { m with core := m.core.step }.Twins { m' with core := m'.core.step } := by
    refine ⟨?_, ?_, ?_⟩
    · rw [h.rest]
    · exact h.core.step fun _ => by rw [h.unread]
    · change m'.core.step.unread = m.core.step.unread
      rw [Core.unread_step, Core.unread_step, h.unread, h.core.command?]
  exact stepped.settle

theorem Twins.after (h : m.Twins m') (n : Nat) : (m.after n).Twins (m'.after n) := by
  induction n generalizing m m' with
  | zero => exact h
  | succ n ih => exact ih h.step

theorem Twins.halted (h : m.Twins m') (n : Nat) :
    (m'.core.after n).halted = (m.core.after n).halted := by
  have halted := (h.after n).core.halted
  rwa [core_after, core_after] at halted

theorem Twins.stepCount (h : m.Twins m') : m'.core.stepCount = m.core.stepCount := by
  rw [h.eq]
  rfl

theorem Twins.stepsPerTick (h : m.Twins m') : m'.stepsPerTick = m.stepsPerTick := by
  rw [h.rest]

theorem Twins.batch (h : m.Twins m') (count : Option Int) :
    (m.batch count).1.Twins (m'.batch count).1 ∧ (m'.batch count).2 = (m.batch count).2 := by
  have twins : (m.batch count).1.Twins (m'.batch count).1 := by
    rw [batch_fst, batch_fst, h.core.halted, h.stepsPerTick]
    split
    · exact h.after 1
    · exact h.after _
  exact ⟨twins, by rw [batch_snd, batch_snd, twins.core.halted]⟩

/-- Twins halt after the same number of steps, or none of them ever halts. -/
theorem Twins.run (h : m.Twins m') (valid : m.core.Valid size) (valid' : m'.core.Valid size) :
    Option.Rel (fun last last' => last.1.Twins last'.1 ∧ last'.2 = last.2) m.run m'.run := by
  rcases m.core.runs_or_haltsAfter with runs | ⟨n, halts⟩
  · have none : m.run = none := by simp [run_eq, runs]
    have none' : m'.run = .none := by simp [run_eq, h.halted, runs]
    rw [none, none']
    exact .none
  · have halts' : m'.core.HaltsAfter n :=
      ⟨(h.halted n).trans halts.1, fun k hk => (h.halted k).trans (halts.2 k hk)⟩
    have last := (h.after n).core
    have unread := (h.after n).unread
    rw [core_after, core_after] at last unread
    rw [run_of_haltsAfter valid halts, run_of_haltsAfter valid' halts']
    refine .some ⟨⟨?_, last, unread⟩, rfl⟩
    rw [h.rest]

theorem Twins.cancelPending (h : m.Twins m') : m.cancelPending.Twins m'.cancelPending := by
  refine ⟨?_, ?_, ?_⟩
  · rw [m'.core_cancelPending]
    exact (congrArg Machine.cancelPending h.rest).trans (m.cancelPending_setCore m'.core)
  · rw [core_cancelPending, core_cancelPending]
    exact h.core
  · rw [core_cancelPending, core_cancelPending]
    exact h.unread

theorem Twins.reset (h : m.Twins m') : (m.reset false).Twins (m'.reset false) := by
  have cancelled := h.cancelPending.rest
  rw [reset_eq, reset_eq]
  refine ⟨?_, ?_, ?_⟩
  · rw [cancelled]
  · rw [h.eq]
    rfl
  · exact h.unread

theorem Twins.load (h : m.Twins m') (source input : Text) :
    m'.load source input = m.load source input := by
  have cancelled := h.cancelPending.rest
  have size : m'.tapeSize = m.tapeSize := by
    rw [h.eq]
    rfl
  rw [load_eq, load_eq, cancelled, size]

theorem Twins.pause (h : m.Twins m') : m.pause.Twins m'.pause := by
  have cancelled := h.cancelPending
  rw [pause_eq, pause_eq, h.core.halted]
  generalize (if m.core.halted then RunState.idle else .paused) = runState
  exact ⟨congrArg (fun m => { m with runState }) cancelled.rest, cancelled.core,
    cancelled.unread⟩

/-- Short of rewinding the input, every action does the same to twins. -/
theorem Twins.perform (h : m.Twins m') (valid : m.core.Valid size) (valid' : m'.core.Valid size)
    {action : Action} (keeps : action ≠ .reset true) :
    Option.Rel (fun next next' => next.1.Twins next'.1 ∧ next'.2 = next.2) (m.perform action)
      (m'.perform action) := by
  cases action with
  | load source input =>
      rw [Machine.perform, Machine.perform, h.load]
      exact .some ⟨.refl _, rfl⟩
  | reset rewind =>
      cases rewind with
      | true => exact absurd rfl keeps
      | false => exact .some ⟨h.reset, rfl⟩
  | step =>
      have alive : m'.step.2 = m.step.2 := by
        rw [canContinue_step, canContinue_step, ← core_step, ← core_step, h.step.core.halted]
      exact .some ⟨h.step, congrArg (fun alive => Except.ok (Reply.canContinue alive)) alive⟩
  | batch count =>
      simp only [Machine.perform, batchOf]
      split
      · next count _ =>
          obtain ⟨twins, alive⟩ := h.batch count
          exact .some ⟨twins, by rw [alive]⟩
      · rw [h.core.halted]
        split
        · exact .some ⟨h.settle, rfl⟩
        · exact .some ⟨h, rfl⟩
  | run limit =>
      simp only [Machine.perform, runOf]
      split
      · exact .some ⟨h, rfl⟩
      · next limit _ =>
          have twins := h.after limit
          have count : (m'.runFor limit).2 = (m.runFor limit).2 := by
            change (m'.runFor limit).1.core.stepCount - m'.core.stepCount =
              (m.runFor limit).1.core.stepCount - m.core.stepCount
            rw [runFor_fst, runFor_fst, twins.stepCount, h.stepCount]
          rw [← runFor_fst, ← runFor_fst] at twins
          exact .some ⟨twins, by rw [count]⟩
      · have ran := h.run valid valid'
        generalize m.run = last, m'.run = last' at ran
        cases ran with
        | none => exact .none
        | some alike =>
            obtain ⟨twins, count⟩ := alike
            exact .some ⟨twins, by simp only [count]⟩
  | start => exact .some ⟨⟨congrArg Machine.start h.rest, h.core, h.unread⟩, rfl⟩
  | pause => exact .some ⟨h.pause, rfl⟩
  | cancelPending => exact .some ⟨h.cancelPending, rfl⟩
  | setDelay value =>
      simp only [Machine.perform, setDelay]
      cases delayOf value with
      | error refusal => exact .some ⟨h, rfl⟩
      | ok delay =>
          exact .some ⟨⟨congrArg (fun m => { m with delay }) h.rest, h.core, h.unread⟩, rfl⟩
  | setSteps value =>
      simp only [Machine.perform, setSteps]
      cases stepsOf value with
      | error refusal => exact .some ⟨h, rfl⟩
      | ok stepsPerTick =>
          exact
            .some ⟨⟨congrArg (fun m => { m with stepsPerTick }) h.rest, h.core, h.unread⟩, rfl⟩
  | park handle =>
      exact .some ⟨⟨congrArg (fun m => m.park handle) h.rest, h.core, h.unread⟩, rfl⟩

/-- Twins show the same for ever. -/
theorem Twins.shows (hsize : 0 < size) (h : m.Twins m') (valid : m.Valid size)
    (valid' : m'.Valid size) {actions : List Action}
    (keep : ∀ action ∈ actions, action ≠ .reset true) : m'.shows actions = m.shows actions := by
  induction actions generalizing m m' with
  | nil => rfl
  | cons action rest ih =>
      have next := h.perform valid.core valid'.core (keep action List.mem_cons_self)
      rw [Machine.shows, Machine.shows]
      generalize hm : m.perform action = result, hm' : m'.perform action = result' at next
      cases next with
      | none => rfl
      | some alike =>
          obtain ⟨twins, answer⟩ := alike
          simp only [answer, twins.sight]
          rw [ih twins (valid.perform hsize hm) (valid'.perform hsize hm') fun action later =>
            keep action (List.mem_cons_of_mem _ later)]

end Twins

/-- What is left of an input keeps its place after a restart, and is the whole input of
a load. -/
theorem Holds.twins_reset_load {source input : Text} {m : Machine}
    (h : m.Holds (source, input)) :
    (m.reset false).Twins (m.load source (input.drop m.core.inputPos)) := by
  refine ⟨?_, ?_, ?_⟩
  · rw [reset_eq, load_eq]
  · rw [core_load, core_reset, Core.load, ← h.program]
    rfl
  · rw [core_load, core_reset, Core.unread_load, List.map_drop]
    change _ = m.core.input.toList.drop m.core.inputPos
    rw [h.input]
    rfl

/-- However a machine was come by: restarted with its input rewound it is what a load
of the same texts makes of it, with the settings kept and the parked handle cancelled;
and restarted without it goes on as after a load of the same source with the part of
the input that is left. -/
theorem ReachedWith.reset_as_load {size : Nat} {source input : Text} {m : Machine}
    (hsize : 0 < size) (h : m.ReachedWith size (source, input)) :
    (m.reset true = m.load source input ∧ (m.reset true).delay = m.delay ∧
      (m.reset true).stepsPerTick = m.stepsPerTick ∧ (m.reset true).pending = none ∧
      (m.reset true).cancelled = m.pending.toList ++ m.cancelled) ∧
    let left := m.load source (input.drop m.core.inputPos)
    left.sight = (m.reset false).sight ∧
      ∀ actions : List Action, (∀ action ∈ actions, action ≠ .reset true) →
        left.shows actions = (m.reset false).shows actions := by
  have valid := h.valid_machine hsize
  have released := m.releases_reset true
  have twins := h.holds.twins_reset_load
  refine ⟨⟨h.holds.reset_rewinding, m.delay_reset true, m.stepsPerTick_reset true,
    released.pending, released.cancelled⟩, twins.sight, ?_⟩
  intro actions keep
  exact twins.shows hsize (valid.reset false) (valid.load hsize _ _) keep

/-- A machine that has read one of three bytes and has a token parked. The run goes on
to the end of what is left, also after a second restart. -/
theorem reset_as_load_half_read :
    let actions : List Action := [.run .null, .reset false, .start, .step, .pause]
    let source := Text.ofString ",.,."
    let input := Text.ofString "abc"
    ∃ m : Machine, 0 < 2 ∧ m.ReachedWith 2 (source, input) ∧ m.core.inputPos = 1 ∧
      m.pending = some (.token 0) ∧ (∀ action ∈ actions, action ≠ .reset true) ∧
      m.reset true = m.load source input ∧
      (m.load source (input.drop 1)).shows actions = (m.reset false).shows actions := by
  intro actions source input
  have unloaded : (blank 2).ReachedWith 2 ([], []) := .blank
  have reached := unloaded
    |>.perform (.load source input) rfl
    |>.perform .step rfl
    |>.perform (.park (.token 0)) rfl
  have keep : ∀ action ∈ actions, action ≠ .reset true := by
    simp [actions]
  obtain ⟨rewound, _, goesOn⟩ := reached.reset_as_load (by decide)
  exact ⟨_, by decide, reached, rfl, rfl, keep, rewound.1, goesOn actions keep⟩

end Machine

end TapeMachine
