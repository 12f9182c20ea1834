import TapeMachine.Proofs.Halting
import TapeMachine.Proofs.Ledger
import TapeMachine.Transcript

/-!
The ways of advancing a machine come to the same. Single steps, a batch and a run
with a limit lead to one state, rows of them add up, and a run that keeps a record
of its output ends where the run without one does.
-/

namespace TapeMachine

namespace Core

/-- How many of `n` calls for a step execute a command. -/
def executed (n : Nat) (c : Core) : Nat :=
  (c.after n).stepCount - c.stepCount

section Executed

variable {c : Core} {n : Nat}

theorem executed_of_running (h : ∀ k < n, (c.after k).halted = false) : c.executed n = n := by
  rw [executed, stepCount_after_of_running h, Nat.add_sub_cancel_left]

theorem HaltsAfter.executed {k : Nat} (h : c.HaltsAfter k) (n : Nat) :
    c.executed n = min n k := by
  rcases Nat.le_total n k with before | past
  · rw [executed_of_running fun j hj => h.2 j (Nat.lt_of_lt_of_le hj before),
      Nat.min_eq_left before]
  · rw [Core.executed, after_of_halted_le h.1 past, h.stepCount, Nat.add_sub_cancel_left,
      Nat.min_eq_right past]

/-- A run makes all the steps it is asked for unless it halts before. -/
theorem executed_eq_or_halts (n : Nat) (c : Core) :
    c.executed n = n ∨ ∃ k < n, c.HaltsAfter k ∧ c.executed n = k := by
  rcases running_or_haltsAfter c n with running | ⟨k, hk, halts⟩
  · exact Or.inl (executed_of_running running)
  · refine Or.inr ⟨k, hk, halts, ?_⟩
    rw [halts.executed, Nat.min_eq_right (Nat.le_of_lt hk)]

/-- Calls that execute nothing can be left out. -/
theorem after_executed (n : Nat) (c : Core) : c.after (c.executed n) = c.after n := by
  rcases executed_eq_or_halts n c with all | ⟨k, hk, halts, some⟩
  · rw [all]
  · rw [some, after_of_halted_le halts.1 (Nat.le_of_lt hk)]

theorem halted_of_executed_lt (h : c.executed n < n) : (c.after n).halted = true := by
  rcases executed_eq_or_halts n c with all | ⟨k, hk, halts, _⟩
  · omega
  · exact halted_after_mono halts.1 (Nat.le_of_lt hk)

/-- The step counter goes up by what is executed. -/
theorem stepCount_after (n : Nat) (c : Core) :
    (c.after n).stepCount = c.stepCount + c.executed n := by
  rcases running_or_haltsAfter c n with running | ⟨k, hk, halts⟩
  · rw [stepCount_after_of_running running, executed_of_running running]
  · rw [after_of_halted_le halts.1 (Nat.le_of_lt hk), halts.stepCount, halts.executed,
      Nat.min_eq_right (Nat.le_of_lt hk)]

theorem executed_add (m n : Nat) (c : Core) :
    c.executed (m + n) = c.executed m + (c.after m).executed n := by
  have whole := stepCount_after (m + n) c
  rw [after_add, stepCount_after, stepCount_after] at whole
  omega

end Executed

end Core

namespace Machine

theorem after_add (m n : Nat) (machine : Machine) :
    machine.after (m + n) = (machine.after m).after n := by
  induction m generalizing machine with
  | zero => rw [Nat.zero_add, after_zero]
  | succ m ih => rw [Nat.succ_add, after_succ, ih, after_succ]

/-- No call for a step changes a machine that some call has found halted. -/
theorem after_of_halted_le {m : Machine} {j k : Nat} (hj : 0 < j)
    (h : (m.core.after j).halted = true) (hle : j ≤ k) : m.after k = m.after j := by
  rw [after_of_pos hj, after_of_pos (Nat.lt_of_lt_of_le hj hle), Core.after_of_halted_le h hle]

theorem after_of_idle {m : Machine} (h : m.core.halted = true) (idle : m.runState = .idle)
    (n : Nat) : m.after n = m := by
  cases n with
  | zero => rfl
  | succ n =>
      rw [after_of_halted h (Nat.succ_pos n), settle_of_halted h, ← idle]

/-- On an idle machine, calls that execute nothing can be left out. -/
theorem exists_after_counted {m : Machine} (idle : m.runState = .idle) (n : Nat) :
    ∃ k, m.after n = m.after k ∧ (m.after n).core.stepCount = m.core.stepCount + k := by
  refine ⟨m.core.executed n, ?_, ?_⟩
  · rw [after_eq_of_idle idle, after_eq_of_idle idle, Core.after_executed]
  · rw [core_after, Core.stepCount_after]

/-- A batch of any steps is that many single ones, also on a halted machine. -/
theorem batch_fst_of_pos {k : Nat} (hk : 0 < k) (m : Machine) :
    (m.batch (some k)).1 = m.after k := by
  rw [batch_fst]
  split
  · next halted => rw [after_of_halted halted Nat.one_pos, after_of_halted halted hk]
  · rfl

/-- No batch changes a machine that some call for a step has found halted. -/
theorem batch_fst_after_halt {m : Machine} {j : Nat} (hj : 0 < j)
    (h : (m.core.after j).halted = true) (count : Option Int) :
    ((m.after j).batch count).1 = m.after j := by
  rw [batch_fst, core_after, if_pos h, ← after_add]
  exact after_of_halted_le hj h (Nat.le_succ j)

/-- Two batches in a row are one of their joint size. -/
theorem batch_batch (m : Machine) (a b : Nat) :
    (m.batch (some a)).1.batch (some b) = m.batch (some (a + b : Nat)) := by
  have state : ((m.batch (some a)).1.batch (some b)).1 = (m.batch (some (a + b : Nat))).1 := by
    rcases Nat.eq_zero_or_pos a with rfl | positive
    · -- An empty batch makes no step, but it settles a machine that has halted.
      rw [Nat.zero_add, batch_fst m (some (0 : Nat))]
      split
      · next halted =>
          have settled : (m.core.after 1).halted = true := by
            rwa [Core.after_of_halted halted]
          rw [batch_fst_after_halt Nat.one_pos settled, batch_fst, if_pos halted]
      · rfl
    · rw [batch_fst_of_pos positive, batch_fst_of_pos (Nat.add_pos_left positive b)]
      cases h : (m.core.after a).halted with
      | true =>
          rw [batch_fst_after_halt positive h,
            after_of_halted_le positive h (Nat.le_add_right a b)]
      | false =>
          rw [batch_fst, core_after, h, after_add]
          rfl
  apply Prod.ext state
  rw [batch_snd, batch_snd, state]

theorem runFor_snd (m : Machine) (limit : Nat) : (m.runFor limit).2 = m.core.executed limit := by
  have counted : (m.runFor limit).2 = (m.runFor limit).1.core.stepCount - m.core.stepCount := rfl
  rw [counted, runFor_fst, core_after, Core.executed]

/-- Two runs in a row are one with their joint limit, and what they execute adds
up. -/
theorem runFor_runFor (m : Machine) (a b : Nat) :
    ((m.runFor a).1.runFor b).1 = (m.runFor (a + b)).1 ∧
      (m.runFor a).2 + ((m.runFor a).1.runFor b).2 = (m.runFor (a + b)).2 := by
  constructor
  · rw [runFor_fst, runFor_fst, runFor_fst, after_add]
  · rw [runFor_snd, runFor_snd, runFor_snd, runFor_fst, core_after, Core.executed_add]

/-- On an idle machine, calls for a step and the repetition that stops at a halt
are the same. -/
theorem times_step_of_idle {m : Machine} (idle : m.runState = .idle) (n : Nat) :
    Loop.times (fun m => m.core.halted) (fun m => m.step.1) n m = m.after n := by
  rw [times_step]
  split
  · next halted => exact (after_of_idle halted idle n).symm
  · rfl

theorem search_step_of_idle {m : Machine} (idle : m.runState = .idle) :
    Loop.search (fun m => m.core.halted) (fun m => m.step.1) m.core.searchRounds m =
      m.run.map Prod.fst := by
  rw [Loop.search_eq, times_step_of_idle idle, run_eq]
  simp only
  split <;> rfl

@[simp]
theorem tapeSize_blank (size : Nat) : (blank size).tapeSize = size :=
  Array.size_replicate

/-- A run to a limit, or without one. -/
def runWithin (m : Machine) (limit : Option Nat) : Option (Machine × Nat) :=
  limit.elim m.run fun limit => some (m.runFor limit)

theorem runOf_option (m : Machine) (maxSteps : Option Int) :
    m.runOf (.option (maxSteps.map .int)) =
      (m.runWithin (maxSteps.map Int.toNat)).map fun (m, count) => (m, .ok (.executed count)) := by
  cases maxSteps <;> rfl

/-- The count of a run is what the step counter has gone up by. -/
theorem snd_of_runWithin {m : Machine} {limit : Option Nat} {last : Machine × Nat}
    (h : m.runWithin limit = some last) :
    last.2 = last.1.core.stepCount - m.core.stepCount := by
  cases limit with
  | none =>
      rw [runWithin, Option.elim_none, run_eq] at h
      simp only at h
      split at h
      · cases h
        rfl
      · cases h
  | some limit =>
      cases h
      rfl

/-- Whether a machine is as a load leaves it: nothing is counted or written yet, and it
is idle. -/
structure Fresh (m : Machine) : Prop where
  idle : m.runState = .idle
  stepCount : m.core.stepCount = 0
  output : m.core.output = #[]

theorem fresh_load (m : Machine) (source input : Text) : (m.load source input).Fresh := by
  constructor
  case idle => rfl
  case stepCount => rw [core_load]; rfl
  case output => rw [core_load]; rfl

/-- A run without a limit returns where some number of steps leads to a halt. -/
theorem exists_runWithin {size : Nat} {m : Machine} (hm : m.core.Valid size) (limit : Option Nat)
    (h : limit = none → ∃ n, (m.core.after n).halted = true) :
    ∃ last, m.runWithin limit = some last := by
  cases limit with
  | none =>
      obtain ⟨n, halted⟩ := h rfl
      rcases m.core.running_or_haltsAfter (n + 1) with running | ⟨k, _, halts⟩
      · rw [running n (Nat.lt_succ_self n)] at halted
        cases halted
      · exact ⟨_, run_of_haltsAfter hm halts⟩
  | some limit => exact ⟨_, rfl⟩

end Machine

namespace Transcript

/-- A stream that takes any amount fails never. -/
@[simp]
theorem isCut_unlimited (t : Transcript) : t.isCut {} = false := rfl

@[simp]
theorem isDone_unlimited (t : Transcript) : t.isDone {} = t.machine.core.halted :=
  Bool.or_false _

/-- A search for what cannot be written goes on for no less than one for the halt. -/
theorem le_searchRounds (outlets : Outlets) (c : Core) :
    2 ^ c.searchRounds ≤ 2 ^ searchRounds outlets c :=
  Nat.pow_le_pow_right Nat.two_pos (by unfold searchRounds; omega)

/-- Taking notes and passing output on leave the machine to its steps. -/
theorem machine_advance (tracing : Bool) (t : Transcript) :
    (t.advance {} tracing).machine = t.machine.step.1 := by
  simp [advance, stepMachine]

section Counting

variable {outlets : Outlets} {tracing : Bool} {m : Machine}

/-- Watching the step counter comes to the same as counting the passes, since each that
does not end the run is counted. -/
theorem followWithin_eq {limit : Nat} {t : Transcript}
    (h : t.isDone outlets = true → t.advance outlets tracing = t) :
    followWithin outlets tracing limit t =
      Loop.times (isDone outlets) (advance outlets tracing) (limit - t.machine.core.stepCount)
        t := by
  induction hleft : limit - t.machine.core.stepCount generalizing t with
  | zero =>
      have used : ¬t.machine.core.stepCount < limit := by omega
      rw [followWithin, if_neg used, Loop.times]
  | succ left ih =>
      have more : t.machine.core.stepCount < limit := by omega
      rw [followWithin, if_pos more, Loop.times]
      by_cases done : t.isDone outlets = true
      · simp only [h done, done, if_true]
      · simp only [if_neg done]
        split
        · next ends => exact (Loop.times_of_done _ _ ends left).symm
        · next goesOn =>
          have counted := stepCount_of_advance goesOn
          exact ih (fun ends => absurd ends goesOn) (by omega)

@[simp]
theorem isDone_ofMachine : (ofMachine m).isDone outlets = m.core.halted := by
  have none_fail (taken : Option Nat) : Outlets.exceeds taken 0 = false := by
    cases taken <;> rfl
  simp [isDone, isCut, ofMachine, none_fail]

/-- On a halted machine there is nothing to record. -/
theorem advance_ofMachine_of_halted (fresh : m.Fresh) (h : m.core.halted = true) :
    (ofMachine m).advance outlets tracing = ofMachine m := by
  have done : (ofMachine m).isDone outlets = true := isDone_ofMachine.trans h
  have noted : (ofMachine m).note tracing = ofMachine m := by simp [note, ofMachine, h]
  have stepped : (ofMachine m).stepMachine = ofMachine m := by
    have stays : m.step.1 = m := Machine.after_of_idle h fresh.idle 1
    rw [stepMachine, ofMachine, stays]
  have passed : (ofMachine m).passOn = ofMachine m := by simp [passOn, ofMachine, fresh.output]
  rw [advance, noted, stepped, passed, ite_self]

theorem follow_some (fresh : m.Fresh) (limit : Nat) :
    follow tracing (some limit) m outlets =
      some (Loop.times (isDone outlets) (advance outlets tracing) limit (ofMachine m)) := by
  have counted : followWithin outlets tracing limit (ofMachine m) =
      Loop.times (isDone outlets) (advance outlets tracing)
        (limit - (ofMachine m).machine.core.stepCount) (ofMachine m) :=
    followWithin_eq fun done => advance_ofMachine_of_halted fresh (isDone_ofMachine ▸ done)
  have start : (ofMachine m).machine.core.stepCount = 0 := fresh.stepCount
  rw [start, Nat.sub_zero] at counted
  exact congrArg some counted

end Counting

/-- A run with a record takes the machine where the run without one does, and
returns where that one does. -/
theorem machine_follow {m : Machine} (fresh : m.Fresh) (tracing : Bool) (limit : Option Nat) :
    (follow tracing limit m).map machine = (m.runWithin limit).map Prod.fst := by
  let halted (m : Machine) := m.core.halted
  let step (m : Machine) := m.step.1
  have done (t : Transcript) : halted t.machine = t.isDone {} := t.isDone_unlimited.symm
  have stepped (t : Transcript) : (t.advance {} tracing).machine = step t.machine :=
    machine_advance tracing t
  cases limit with
  | none =>
      rw [follow, Loop.map_search (isDone {}) (advance {} tracing) machine done stepped]
      exact Machine.search_step_of_idle fresh.idle
  | some limit =>
      rw [follow_some fresh, Option.map_some,
        Loop.map_times (isDone {}) (advance {} tracing) machine done stepped,
        Machine.runWithin, Option.elim_some, Option.map_some, Machine.runFor_fst]
      exact congrArg some (Machine.times_step_of_idle fresh.idle limit)

theorem sizeOf_nat {memory : Memory} {size : Nat} (positive : 0 < size)
    (fits : memory.holds size = true) : sizeOf memory (.nat size) = .ok size := by
  have small := memory.lt_byteCountLimit size fits
  have counted : isByteCount size = true := by
    simp only [isByteCount, Bool.and_eq_true, decide_eq_true_eq]
    omega
  have held : memory.holds (size : Int).toNat = true := fits
  simp only [sizeOf, Json.nat, Number.ofJson?, counted, held]
  rw [if_neg (by omega), if_neg (by simp), if_neg (by simp), Int.toNat_natCast]

theorem loadedMachine_text {memory : Memory} {size : Nat} (positive : 0 < size)
    (fits : memory.holds size = true) (code input : Text) :
    loadedMachine (.text code) (.text input) (.nat size) memory =
      .ok ((Machine.blank size).load code input) := by
  rw [loadedMachine, Machine.make, sizeOf_nat positive fits]
  rfl

/-- A run of texts on a tape for which there is memory begins on the loaded machine,
unless it is strict and the brackets do not balance. -/
theorem run_text {memory : Memory} {size : Nat} (positive : 0 < size)
    (fits : memory.holds size = true) (code input : Text) (strict trace : Bool)
    (maxSteps : Option Int) (outlets : Outlets)
    (balanced : strict = true → (Program.ofSource code).requireBalanced = .ok ()) :
    run (.text code) (.text input)
        { tapeSize := .nat size, strict, trace, maxSteps := .option (maxSteps.map .int) } memory
        outlets =
      .ok (follow trace (maxSteps.map Int.toNat) ((Machine.blank size).load code input)
        outlets) := by
  have checked : strict = true → checkBalance (.text code) = .ok () := by
    intro h
    simp only [checkBalance, programOf, balanced h]
    rfl
  have loaded := loadedMachine_text positive fits code input
  have limit : limitOf (.option (maxSteps.map .int)) = .ok (maxSteps.map Int.toNat) := by
    cases maxSteps <;> rfl
  simp only [run, loaded, limit]
  cases strict with
  | false => rfl
  | true =>
      rw [checked rfl]
      rfl

end Transcript

namespace Machine

/-- Single steps, a batch and a run with a limit leave one state behind, with the
answers that this state gives; batches and runs add up; and a run with a record of
its output returns the machine that a run of the loaded machine leads to. -/
theorem ways_to_advance_agree :
    (∀ (m : Machine) (k : Nat), 0 < k →
      (m.batch (some k)).1 = m.after k ∧ (m.runFor k).1 = m.after k ∧
        ((m.batch (some k)).2 = true ↔ (m.after k).core.halted = false) ∧
        m.core.stepCount + (m.runFor k).2 = (m.after k).core.stepCount) ∧
    (∀ (m : Machine) (a b : Nat),
      (m.batch (some a)).1.batch (some b) = m.batch (some (a + b : Nat)) ∧
        ((m.runFor a).1.runFor b).1 = (m.runFor (a + b)).1 ∧
        (m.runFor a).2 + ((m.runFor a).1.runFor b).2 = (m.runFor (a + b)).2) ∧
    ∀ (size : Nat) (code input : Text) (maxSteps : Option Int) (trace : Bool), 0 < size →
      let loaded := (blank size).load code input
      let limit := Json.option (maxSteps.map .int)
      (maxSteps = none → ∃ n, (loaded.after n).core.halted = true) →
      ∃ t, Transcript.follow trace (maxSteps.map Int.toNat) loaded = some t ∧
        loaded.runOf limit = some (t.machine, .ok (.executed t.machine.core.stepCount)) ∧
        ∀ strict memory, memory.holds size = true →
          (strict = true → (Program.ofSource code).requireBalanced = .ok ()) →
          Transcript.run (.text code) (.text input)
            { tapeSize := .nat size, strict, trace, maxSteps := limit } memory =
              .ok (some t) := by
  refine ⟨?_, ?_, ?_⟩
  · intro m k hk
    refine ⟨batch_fst_of_pos hk m, runFor_fst m k, ?_, ?_⟩
    · rw [batch_snd, batch_fst_of_pos hk, Bool.not_eq_true']
    · rw [runFor_snd, core_after, Core.stepCount_after]
  · intro m a b
    exact ⟨batch_batch m a b, runFor_runFor m a b⟩
  · intro size code input maxSteps trace positive loaded limit halts
    have valid : loaded.core.Valid size := by
      rw [core_load, tapeSize_blank]
      exact Core.valid_load positive code input
    obtain ⟨last, hlast⟩ := exists_runWithin valid (maxSteps.map Int.toNat) (by
      intro unlimited
      obtain ⟨n, halted⟩ := halts (Option.map_eq_none_iff.1 unlimited)
      exact ⟨n, by rwa [core_after] at halted⟩)
    have same := Transcript.machine_follow ((blank size).fresh_load code input) trace
      (maxSteps.map Int.toNat)
    rw [hlast, Option.map_some] at same
    obtain ⟨t, follows, ends⟩ := Option.map_eq_some_iff.1 same
    refine ⟨t, follows, ?_, ?_⟩
    · have zero : loaded.core.stepCount = 0 := by
        rw [core_load]
        rfl
      have count : last.2 = last.1.core.stepCount := by
        rw [snd_of_runWithin hlast, zero, Nat.sub_zero]
      rw [runOf_option, hlast, ends, ← count]
      rfl
    · intro strict memory fits balanced
      rw [Transcript.run_text positive fits code input strict trace maxSteps {} balanced, follows]

theorem ways_to_advance_agree_after_halt :
    let m := (((blank 1).load (Text.ofString "+") []).after 1).start
    let loaded := (blank 2).load (Text.ofString "+[.-]") []
    (0 < 3 ∧ (m.batch (some (3 : Nat))).1 = m.after 3 ∧ (m.runFor 3).1 = m.after 3) ∧
      (∃ n, (loaded.after n).core.halted = true) ∧
      ∃ t, Transcript.follow true none loaded = some t ∧
        loaded.runOf .null = some (t.machine, .ok (.executed t.machine.core.stepCount)) ∧
        Transcript.run (.text (Text.ofString "+[.-]")) (.text [])
          { tapeSize := .nat 2, strict := true, trace := true, maxSteps := .null } =
            .ok (some t) := by
  intro m loaded
  have halts : ∃ n, (loaded.after n).core.halted = true := ⟨5, by decide⟩
  have agree := ways_to_advance_agree
  obtain ⟨batch, run, _⟩ := agree.1 m 3 (by decide)
  obtain ⟨t, follows, unrecorded, recorded⟩ :=
    agree.2.2 2 (Text.ofString "+[.-]") [] none true (by decide) (fun _ => halts)
  exact ⟨⟨by decide, batch, run⟩, halts, t, follows, unrecorded,
    recorded true .usual (by decide) (fun _ => rfl)⟩

end Machine

end TapeMachine
