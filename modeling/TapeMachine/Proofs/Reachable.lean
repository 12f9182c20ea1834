import TapeMachine.Machine.Action
import TapeMachine.Proofs.Lifecycle
import TapeMachine.Proofs.Pairing
import TapeMachine.Proofs.Stepping

/-!
What holds of every machine that its operations can lead to. One step keeps the
program counter within one place past the end, and takes it there only from an
opening without a partner; the settings are checked on their way in; and whatever
can halt a machine or put another program in it makes it idle.
-/

namespace TapeMachine

/-- Whether some opening has no closing to pair with: the scan from it comes to
the end. -/
def Program.HasUnpairedOpening (p : Program) : Prop :=
  ∃ i, p.commands[i]? = some .loopStart ∧
    Bracket.scanForward (i + 1) 1 (p.brackets.drop (i + 1)) = p.length

/-- Whether a number can be a delay: finite, also as a floating-point number, and
not below zero. -/
def Number.IsDelay : Number → Prop
  | .int n => 0 ≤ n ∧ Binary64.overflows n = false
  | .real x => x.isFinite = true ∧ x.isBelowZero = false
  | .truth _ => True

theorem isDelay_of_delayOf {value : Json} {delay : Number} (h : delayOf value = .ok delay) :
    delay.IsDelay := by
  unfold delayOf at h
  cases hnumber : Number.ofJson? value with
  | none =>
      rw [hnumber] at h
      cases h
  | some number =>
      rw [hnumber] at h
      cases number with
      | int n =>
          simp only at h
          split at h
          · cases h
          · next fits =>
              split at h
              · cases h
              · next positive =>
                  cases h
                  exact ⟨Int.not_lt.1 positive, by simpa using fits⟩
      | real x =>
          simp only at h
          split at h
          · next fine =>
              cases h
              simpa [Number.IsDelay] using fine
          · cases h
      | truth b =>
          cases h
          trivial

theorem one_le_of_stepsOf {value : Json} {steps : Nat} (h : stepsOf value = .ok steps) :
    1 ≤ steps := by
  unfold stepsOf at h
  cases hwhole : Number.whole value with
  | error refusal =>
      rw [hwhole] at h
      cases h
  | ok n =>
      rw [hwhole] at h
      simp only at h
      split at h
      · cases h
      · next positive =>
          cases h
          omega

namespace Core

/-- What every step keeps of a core with a tape of the given size. -/
structure Valid (size : Nat) (c : Core) : Prop where
  paired : c.program.IsPaired
  size_offsets : c.program.offsets.size = c.program.length
  size_tape : c.tape.size = size
  ptr_lt : c.ptr < size
  pc_le : c.pc ≤ c.program.length + 1
  unpaired : c.pc = c.program.length + 1 → c.program.HasUnpairedOpening
  inputPos_le : c.inputPos ≤ c.input.size
  output_le : c.output.size ≤ c.stepCount

section

variable {size : Nat} {c : Core}

theorem valid_load (hsize : 0 < size) (source input : Text) :
    (load size source input).Valid size where
  paired := Program.isPaired_ofSource source
  size_offsets := Program.size_offsets_ofSource source
  size_tape := by simp [load, install, blankTape]
  ptr_lt := hsize
  pc_le := Nat.zero_le _
  unpaired := by
    intro h
    cases h
  inputPos_le := Nat.zero_le _
  output_le := Nat.zero_le _

theorem Valid.restart (h : c.Valid size) (rewind : Bool) : (c.restart rewind).Valid size where
  paired := h.paired
  size_offsets := h.size_offsets
  size_tape := by simp [Core.restart, blankTape, h.size_tape]
  ptr_lt := Nat.lt_of_le_of_lt (Nat.zero_le _) h.ptr_lt
  pc_le := Nat.zero_le _
  unpaired := by
    intro h
    cases h
  inputPos_le := by
    cases rewind with
    | false => exact h.inputPos_le
    | true => exact Nat.zero_le _
  output_le := Nat.zero_le _

theorem Valid.size_partners (h : c.Valid size) : c.program.partners.size = c.program.length := by
  rw [h.paired, Bracket.size_partners, Program.length_brackets]

theorem pc_lt_of_command {command : Command} (h : c.command? = some command) :
    c.pc < c.program.length := by
  obtain ⟨hlt, _⟩ := Array.getElem?_eq_some_iff.1 h
  exact hlt

/-- An opening leads past the end only where it has no partner. -/
theorem openingTarget_le (paired : c.program.IsPaired) (h : c.command? = some .loopStart) :
    c.openingTarget ≤ c.program.length ∨
      c.openingTarget = c.program.length + 1 ∧ c.program.HasUnpairedOpening := by
  have inside := pc_lt_of_command h
  have bounds := Bracket.scanForward_le (c.program.brackets.drop (c.pc + 1)) (c.pc + 1) 1
  rw [List.length_drop, Program.length_brackets] at bounds
  unfold openingTarget
  split
  · rw [partner?_of_loopStart paired h, Partner.ofForward]
    split
    · next index found =>
        split at found
        · cases found
        · cases found
          left
          omega
    · next other =>
        split at other
        · next past => exact Or.inr ⟨rfl, c.pc, h, past⟩
        · exact absurd rfl (other _)
  · left
    omega

theorem closingTarget_le (paired : c.program.IsPaired) (h : c.command? = some .loopEnd) :
    c.closingTarget ≤ c.program.length := by
  have inside := pc_lt_of_command h
  unfold closingTarget
  split
  · exact inside
  · rw [partner?_of_loopEnd paired h]
    cases hscan : Bracket.scanBackward 1 (c.program.brackets.take c.pc).reverse with
    | none => exact Nat.le_refl _
    | some place =>
        have before := Bracket.scanBackward_lt hscan
        rw [List.length_reverse, List.length_take, Program.length_brackets] at before
        simp only [Partner.ofBackward]
        omega

/-- A move of the program counter within its bounds keeps the rest. -/
theorem Valid.jump (h : c.Valid size) {pc : Nat}
    (hpc : pc ≤ c.program.length ∨ pc = c.program.length + 1 ∧ c.program.HasUnpairedOpening) :
    { c with stepCount := c.stepCount + 1, pc }.Valid size where
  paired := h.paired
  size_offsets := h.size_offsets
  size_tape := h.size_tape
  ptr_lt := h.ptr_lt
  pc_le := by
    rcases hpc with inside | ⟨past, _⟩
    · exact Nat.le_succ_of_le inside
    · exact Nat.le_of_eq past
  unpaired := by
    intro past
    rcases hpc with inside | ⟨_, unpaired⟩
    · have here : pc = c.program.length + 1 := past
      omega
    · exact unpaired
  inputPos_le := h.inputPos_le
  output_le := Nat.le_succ_of_le h.output_le

/-- Where a command sets other parts, each within its bounds, the rest is kept. -/
theorem Valid.set (h : c.Valid size) {tape : Array UInt8} {ptr inputPos : Nat}
    {output : Array UInt8} (htape : tape.size = size) (hptr : ptr < size)
    (hinputPos : inputPos ≤ c.input.size) (houtput : output.size ≤ c.stepCount) :
    { c with tape, ptr, inputPos, output }.Valid size :=
  { h with size_tape := htape, ptr_lt := hptr, inputPos_le := hinputPos, output_le := houtput }

theorem Valid.step (h : c.Valid size) : c.step.Valid size := by
  cases hcommand : c.command? with
  | none => rwa [step_of_halted ((command?_eq_none_iff c).1 hcommand)]
  | some command =>
      have positive : 0 < size := Nat.lt_of_le_of_lt (Nat.zero_le _) h.ptr_lt
      have next := h.jump (Or.inl (pc_lt_of_command hcommand) : c.pc + 1 ≤ _ ∨ _)
      have output := Nat.le_succ_of_le h.output_le
      rw [step_of_command hcommand]
      cases command with
      | right =>
          refine next.set h.size_tape ?_ h.inputPos_le output
          rw [h.size_tape]
          exact Nat.mod_lt _ positive
      | left =>
          refine next.set h.size_tape ?_ h.inputPos_le output
          rw [h.size_tape]
          exact Nat.mod_lt _ positive
      | increment =>
          refine next.set ?_ h.ptr_lt h.inputPos_le output
          rw [Array.size_modify, h.size_tape]
      | decrement =>
          refine next.set ?_ h.ptr_lt h.inputPos_le output
          rw [Array.size_modify, h.size_tape]
      | write =>
          refine next.set h.size_tape h.ptr_lt h.inputPos_le ?_
          rw [Array.size_push]
          exact Nat.succ_le_succ h.output_le
      | read =>
          rw [execute, readByte]
          split
          · next b found =>
              obtain ⟨inside, _⟩ := Array.getElem?_eq_some_iff.1 found
              refine next.set ?_ h.ptr_lt inside output
              rw [mapCell, Array.size_modify, h.size_tape]
          · refine next.set ?_ h.ptr_lt h.inputPos_le output
            rw [Array.size_modify, h.size_tape]
      | loopStart =>
          rw [← step_of_command hcommand, step_of_loopStart hcommand]
          exact h.jump (openingTarget_le h.paired hcommand)
      | loopEnd =>
          rw [← step_of_command hcommand, step_of_loopEnd hcommand]
          exact h.jump (Or.inl (closingTarget_le h.paired hcommand))

theorem Valid.after (h : c.Valid size) (n : Nat) : (c.after n).Valid size := by
  induction n with
  | zero => exact h
  | succ n ih =>
      rw [after_succ_step]
      exact ih.step

end

end Core

namespace Machine

/-- What every operation keeps of a machine with a tape of the given size. -/
structure Valid (size : Nat) (m : Machine) : Prop where
  core : m.core.Valid size
  delay : m.delay.IsDelay
  one_le_stepsPerTick : 1 ≤ m.stepsPerTick
  running_of_paused : m.runState = .paused → m.core.halted = false

/-- The machines that operations lead to from a fresh one. A parked handle may be
exchanged for another or taken away at any time. -/
inductive Reachable (size : Nat) : Machine → Prop
  | blank : Reachable size (blank size)
  | perform {m m' : Machine} {answer : Except Refusal Reply} (action : Action) :
      Reachable size m → m.perform action = some (m', answer) → Reachable size m'
  | assign {m : Machine} (pending : Option Handle) :
      Reachable size m → Reachable size { m with pending }

section

variable {size : Nat} {m : Machine}

theorem valid_blank (hsize : 0 < size) : (blank size).Valid size where
  core := Core.valid_load hsize [] []
  delay := by
    constructor <;> decide
  one_le_stepsPerTick := Nat.le_refl 1
  running_of_paused := by
    intro h
    cases h

/-- Steps keep the settings, and a halt leaves no machine paused. -/
theorem Valid.after (h : m.Valid size) (n : Nat) : (m.after n).Valid size := by
  cases n with
  | zero => exact h
  | succ n =>
      have core := h.core.after (n + 1)
      rw [after_of_pos (Nat.succ_pos n)]
      cases halted : (m.core.after (n + 1)).halted with
      | true =>
          rw [settle_of_halted halted]
          refine ⟨core, h.delay, h.one_le_stepsPerTick, ?_⟩
          intro paused
          cases paused
      | false =>
          rw [settle_of_running halted]
          exact ⟨core, h.delay, h.one_le_stepsPerTick, fun _ => halted⟩

theorem Valid.load (h : m.Valid size) (hsize : 0 < size) (source input : Text) :
    (m.load source input).Valid size where
  core := by
    rw [core_load, tapeSize, h.core.size_tape]
    exact Core.valid_load hsize source input
  delay := by
    rw [delay_load]
    exact h.delay
  one_le_stepsPerTick := by
    rw [stepsPerTick_load]
    exact h.one_le_stepsPerTick
  running_of_paused := by
    intro paused
    cases paused

theorem Valid.reset (h : m.Valid size) (rewind : Bool) : (m.reset rewind).Valid size where
  core := by
    rw [core_reset]
    exact h.core.restart rewind
  delay := by
    rw [delay_reset]
    exact h.delay
  one_le_stepsPerTick := by
    rw [stepsPerTick_reset]
    exact h.one_le_stepsPerTick
  running_of_paused := by
    intro paused
    cases paused

theorem Valid.pause (h : m.Valid size) : m.pause.Valid size where
  core := by
    rw [core_pause]
    exact h.core
  delay := by
    rw [delay_pause]
    exact h.delay
  one_le_stepsPerTick := by
    rw [stepsPerTick_pause]
    exact h.one_le_stepsPerTick
  running_of_paused := by
    intro paused
    rw [runState_pause] at paused
    rw [core_pause]
    split at paused
    · cases paused
    · next running => simpa using running

theorem Valid.cancelPending (h : m.Valid size) : m.cancelPending.Valid size where
  core := by
    rw [core_cancelPending]
    exact h.core
  delay := by
    rw [delay_cancelPending]
    exact h.delay
  one_le_stepsPerTick := by
    rw [stepsPerTick_cancelPending]
    exact h.one_le_stepsPerTick
  running_of_paused := by
    rw [runState_cancelPending, core_cancelPending]
    exact h.running_of_paused

theorem Valid.start (h : m.Valid size) : m.start.Valid size :=
  { h with running_of_paused := fun paused => by cases paused }

theorem Valid.batch (h : m.Valid size) (count : Option Int) : (m.batch count).1.Valid size := by
  rw [batch_fst]
  split
  · exact h.after 1
  · exact h.after _

theorem Valid.perform (h : m.Valid size) (hsize : 0 < size) {action : Action} {m' : Machine}
    {answer : Except Refusal Reply} (hm : m.perform action = some (m', answer)) :
    m'.Valid size := by
  cases action with
  | load source input =>
      cases hm
      exact h.load hsize source input
  | reset rewind =>
      cases hm
      exact h.reset rewind
  | step =>
      cases hm
      exact h.after 1
  | batch count =>
      simp only [Machine.perform, batchOf] at hm
      split at hm
      · next count _ =>
          cases hm
          exact h.batch count
      · split at hm
        · next halted =>
            cases hm
            rw [← after_of_halted halted Nat.one_pos]
            exact h.after 1
        · cases hm
          exact h
  | run limit =>
      simp only [Machine.perform, runOf] at hm
      split at hm
      · cases hm
        exact h
      · next limit _ =>
          cases hm
          rw [runFor_fst]
          exact h.after limit
      · rw [run_eq] at hm
        simp only at hm
        split at hm
        · cases hm
          exact h.after _
        · cases hm
  | start =>
      cases hm
      exact h.start
  | pause =>
      cases hm
      exact h.pause
  | cancelPending =>
      cases hm
      exact h.cancelPending
  | setDelay value =>
      simp only [Machine.perform, setDelay] at hm
      cases hdelay : delayOf value with
      | error refusal =>
          rw [hdelay] at hm
          cases hm
          exact h
      | ok delay =>
          rw [hdelay] at hm
          cases hm
          exact { h with delay := isDelay_of_delayOf hdelay }
  | setSteps value =>
      simp only [Machine.perform, setSteps] at hm
      cases hsteps : stepsOf value with
      | error refusal =>
          rw [hsteps] at hm
          cases hm
          exact h
      | ok steps =>
          rw [hsteps] at hm
          cases hm
          exact { h with one_le_stepsPerTick := one_le_of_stepsOf hsteps }
  | park handle =>
      cases hm
      exact { h with }

/-- Every machine that operations lead to is in bounds, has settings that would
be accepted, and is paused only where it can go on. -/
theorem Reachable.valid (hsize : 0 < size) (h : m.Reachable size) :
    m.core.tape.size = size ∧ m.core.ptr < size ∧ (∀ value ∈ m.core.tape, value.toNat < 256) ∧
      m.core.pc ≤ m.core.program.length + 1 ∧
      (m.core.pc = m.core.program.length + 1 → m.core.program.HasUnpairedOpening) ∧
      m.core.inputPos ≤ m.core.input.size ∧ m.core.output.size ≤ m.core.stepCount ∧
      m.core.program.offsets.size = m.core.program.commands.size ∧
      m.core.program.partners.size = m.core.program.commands.size ∧
      m.delay.IsDelay ∧ 1 ≤ m.stepsPerTick ∧
      (m.runState = .paused → m.core.halted = false) := by
  have valid : m.Valid size := by
    induction h with
    | blank => exact valid_blank hsize
    | perform action _ hm ih => exact ih.perform hsize hm
    | assign pending _ ih => exact { ih with }
  have core := valid.core
  exact ⟨core.size_tape, core.ptr_lt, fun value _ => value.toNat_lt, core.pc_le, core.unpaired,
    core.inputPos_le, core.output_le, core.size_offsets, core.size_partners, valid.delay,
    valid.one_le_stepsPerTick, valid.running_of_paused⟩

theorem valid_of_unpaired_opening :
    let m := ((Machine.blank 1).load (Text.ofString "[") []).step.1
    0 < 1 ∧ m.Reachable 1 ∧ m.core.pc = m.core.program.length + 1 ∧
      m.core.program.HasUnpairedOpening := by
  intro m
  have reachable : m.Reachable 1 :=
    .perform .step (.perform (.load (Text.ofString "[") []) .blank rfl) rfl
  have past : m.core.pc = m.core.program.length + 1 := by decide
  exact ⟨Nat.one_pos, reachable, past, (Reachable.valid Nat.one_pos reachable).2.2.2.2.1 past⟩

end

end Machine

end TapeMachine
