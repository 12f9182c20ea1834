import TapeMachine.Proofs.Pacing

/-!
Pacing by timed ticks never changes what a program computes. Starts, pauses,
firings and changes of speed in any order leave the machine somewhere on the run
of its program. From there, a start and firings until no tick is left lead to the
end of that run, with as many ticks as it takes batches to get there.
-/

namespace TapeMachine

namespace Bench

/-- What can be done with a pacer and the settings of its machine. -/
inductive Operation
  | start
  | pause
  | fire
  | setDelay (value : Json)
  | setSteps (value : Json)

/-- Carries out an operation; where no tick is queued, none is fired. -/
def operate (b : Bench) : Operation → Bench
  | .start => b.start
  | .pause => b.pause
  | .fire => b.fire?.getD b
  | .setDelay value => (b.perform (.setDelay value)).elim b Prod.fst
  | .setSteps value => (b.perform (.setSteps value)).elim b Prod.fst

/-- Every operation leaves the machine somewhere on its run. -/
theorem Orderly.operate {b : Bench} (h : b.Orderly) (operation : Operation) :
    (b.operate operation).Orderly ∧
      ∃ n, (b.operate operation).machine.core = b.machine.core.after n := by
  have ofTicked {d : Bench} (ticked : Ticked b d) :
      d.Orderly ∧ ∃ n, d.machine.core = b.machine.core.after n :=
    ⟨ticked.orderly, _, ticked.core⟩
  cases operation with
  | start =>
      rcases h.mode with rests | ⟨ticket, waits⟩
      · exact ofTicked (h.ticked_start rests)
      · rw [Bench.operate, waits.start]
        exact ⟨h, 0, rfl⟩
  | pause =>
      obtain ⟨kept, rests⟩ := h.pause
      exact ⟨{ kept with mode := Or.inl rests }, 0, Machine.core_pause b.machine⟩
  | fire =>
      rcases h.mode with rests | ⟨ticket, waits⟩
      · rw [Bench.operate, rests.fire?]
        exact ⟨h, 0, rfl⟩
      · obtain ⟨d, fired, ticked⟩ := h.ticked_fire waits
        rw [Bench.operate, fired]
        exact ofTicked ticked
  | setDelay value =>
      simp only [Bench.operate, perform, Machine.perform, Machine.setDelay]
      cases delayOf value with
      | ok delay => exact ⟨h.adjust delay h.one_le_stepsPerTick, 0, rfl⟩
      | error refusal => exact ⟨h.adjust b.machine.delay h.one_le_stepsPerTick, 0, rfl⟩
  | setSteps value =>
      simp only [Bench.operate, perform, Machine.perform, Machine.setSteps]
      cases hsteps : stepsOf value with
      | ok steps => exact ⟨h.adjust b.machine.delay (one_le_of_stepsOf hsteps), 0, rfl⟩
      | error refusal => exact ⟨h.adjust b.machine.delay h.one_le_stepsPerTick, 0, rfl⟩

theorem Orderly.foldl_operate {b : Bench} (h : b.Orderly) (operations : List Operation) :
    (operations.foldl Bench.operate b).Orderly ∧
      ∃ n, (operations.foldl Bench.operate b).machine.core = b.machine.core.after n := by
  induction operations generalizing b with
  | nil => exact ⟨h, 0, rfl⟩
  | cons operation operations ih =>
      obtain ⟨orderly, m, core⟩ := h.operate operation
      obtain ⟨final, n, along⟩ := ih orderly
      refine ⟨final, m + n, ?_⟩
      rw [List.foldl_cons, along, core, Core.after_add]

/-- Once no tick is left, more firings change nothing. -/
theorem fireUpTo_eq_of_queue_nil {b : Bench} {m n : Nat} (hm : (b.fireUpTo m).1.queue = [])
    (hn : (b.fireUpTo n).1.queue = []) : (b.fireUpTo m).1 = (b.fireUpTo n).1 := by
  have still {b : Bench} (h : b.queue = []) (n : Nat) : (b.fireUpTo n).1 = b := by
    cases n with
    | zero => rfl
    | succ n => rw [fireUpTo, fire?, h]
  induction m generalizing b n with
  | zero => exact (still hm n).symm
  | succ m ih =>
      cases n with
      | zero => exact still hn (m + 1)
      | succ n =>
          rw [fireUpTo] at hm
          rw [fireUpTo] at hn
          rw [fireUpTo, fireUpTo]
          cases fired : b.fire? with
          | none => rfl
          | some d =>
              rw [fired] at hm hn
              exact ih hm hn

theorem fireUpTo_succ {b d : Bench} (h : b.fire? = some d) (n : Nat) :
    (b.fireUpTo (n + 1)).1 = (d.fireUpTo n).1 := by
  rw [fireUpTo, h]

/-- How many ticks it takes to make `rest` steps. A run that is over takes one to
be found so. -/
def ticksFor (rest steps : Nat) : Nat :=
  max 1 (rest ⌈/⌉ steps)

theorem ticksFor_of_le {rest steps : Nat} (hsteps : 1 ≤ steps) (h : rest ≤ steps) :
    ticksFor rest steps = 1 := by
  rw [ticksFor, Nat.max_eq_left]
  exact (ceilDiv_le_iff_le_mul hsteps).2 (by omega)

theorem ticksFor_of_lt {rest steps : Nat} (hsteps : 1 ≤ steps) (h : steps < rest) :
    ticksFor rest steps = ticksFor (rest - steps) steps + 1 := by
  rw [ticksFor, ticksFor, Nat.ceilDiv_eq_add_pred_div, Nat.ceilDiv_eq_add_pred_div]
  have whole : rest + steps - 1 = rest - steps + steps - 1 + steps := by omega
  have one : 1 ≤ (rest - steps + steps - 1) / steps := (Nat.one_le_div_iff hsteps).2 (by omega)
  rw [whole, Nat.add_div_right _ hsteps]
  omega

/-- The end of a run that has `rest` steps left, where each tick makes as many as
it does now. -/
structure Ends (b d : Bench) (rest : Nat) : Prop where
  queue : d.queue = []
  core : d.machine.core = b.machine.core.after rest
  runState : d.machine.runState = .idle
  pending : d.machine.pending = none
  events : ∃ last ticks, last.occasion = .halt ∧ (∀ event ∈ ticks, event.occasion = .tick) ∧
    d.events = last :: (ticks ++ b.events) ∧
    ticks.length = ticksFor rest b.machine.stepsPerTick

/-- After a tick, firings lead to the end of the run. The induction is on the
steps that are left before the tick, of which it makes at least one. -/
theorem Ticked.exists_ends {b t : Bench} {rest : Nat} (h : Ticked b t)
    (hsteps : 1 ≤ b.machine.stepsPerTick) (halts : b.machine.core.HaltsAfter rest) :
    ∃ n, Ends b (t.fireUpTo n).1 rest := by
  induction rest using Nat.strong_induction_on generalizing b t with
  | h rest ih =>
      obtain ⟨event, hevent, events⟩ := h.events
      have halted := halts.halted_iff b.machine.stepsPerTick
      rw [← h.core] at halted
      by_cases last : rest ≤ b.machine.stepsPerTick
      · have ended := halted.2 last
        have rests := h.rests ended
        rw [if_pos ended] at events
        obtain ⟨lastEvent, hlast, events⟩ := events
        refine ⟨0, rests.queue, ?_, ?_, rests.pending, lastEvent, [event], hlast, ?_, events, ?_⟩
        · rw [fireUpTo, h.core, Core.after_of_halted_le halts.1 last]
        · rw [fireUpTo, h.runState, if_pos ended]
        · simpa using hevent
        · exact (ticksFor_of_le hsteps last).symm
      · have more : b.machine.stepsPerTick < rest := Nat.lt_of_not_le last
        have running : t.machine.core.halted = false :=
          Bool.eq_false_iff.2 fun now => last (halted.1 now)
        obtain ⟨ticket, waits⟩ := h.waits running
        obtain ⟨u, fired, ticked⟩ := h.orderly.ticked_fire waits
        have left := halts.after (Nat.le_of_lt more)
        rw [← h.core] at left
        obtain ⟨n, ends⟩ := ih _ (by omega) ticked h.orderly.one_le_stepsPerTick left
        obtain ⟨lastEvent, ticks, hlast, hticks, all, length⟩ := ends.events
        simp only [running, Bool.false_eq_true, if_false] at events
        refine ⟨n + 1, ?_⟩
        rw [fireUpTo_succ fired]
        refine ⟨ends.queue, ?_, ends.runState, ends.pending, lastEvent, ticks ++ [event], hlast,
          ?_, ?_, ?_⟩
        · rw [ends.core, h.core, ← Core.after_add, Nat.add_sub_cancel' (Nat.le_of_lt more)]
        · simpa [or_imp, forall_and, hevent] using hticks
        · rw [all, events, List.append_assoc]
          rfl
        · rw [List.length_append, length, h.stepsPerTick, ticksFor_of_lt hsteps more]
          rfl

/-- Wherever an orderly bench stands, a start and firings lead to the end of the
run. -/
theorem Orderly.exists_ends {b : Bench} {rest : Nat} (h : b.Orderly)
    (halts : b.machine.core.HaltsAfter rest) : ∃ n, Ends b (b.start.fireUpTo n).1 rest := by
  rcases h.mode with rests | ⟨ticket, waits⟩
  · exact (h.ticked_start rests).exists_ends h.one_le_stepsPerTick halts
  · obtain ⟨d, fired, ticked⟩ := h.ticked_fire waits
    obtain ⟨n, ends⟩ := ticked.exists_ends h.one_le_stepsPerTick halts
    refine ⟨n + 1, ?_⟩
    rw [waits.start, fireUpTo_succ fired]
    exact ends

theorem orderly_load {size steps : Nat} (hsteps : 1 ≤ steps) (delay : Number)
    (source input : Text) {onTick onHalt : Callback} (hTick : onTick.Observes)
    (hHalt : onHalt.Observes) :
    (ofMachine ({ Machine.blank size with delay, stepsPerTick := steps }.load source input)
      (some onTick) (some onHalt)).Orderly where
  watched := ⟨⟨onTick, rfl, hTick⟩, ⟨onHalt, rfl, hHalt⟩⟩
  fresh := fun id cancelled => by cases cancelled
  one_le_stepsPerTick := hsteps
  mode := Or.inl ⟨by simp [ofMachine], rfl, by simp [ofMachine]⟩

/-- However a pacer is started, paused, fired and changed in speed, the machine is
as many steps into its run as its counter says. If the run ends after `total`
steps, then a start and firings until no tick is left lead to where a run without
a limit ends, with one call for the halt after the calls for the ticks. A fresh
load has all of the `total` steps left. -/
theorem operate_follows_run {size steps : Nat} (hsize : 0 < size) (hsteps : 1 ≤ steps)
    (delay : Number) (source input : Text) {onTick onHalt : Callback} (hTick : onTick.Observes)
    (hHalt : onHalt.Observes) (operations : List Operation) :
    let loaded := { Machine.blank size with delay, stepsPerTick := steps }.load source input
    let b := operations.foldl operate (ofMachine loaded (some onTick) (some onHalt))
    b.machine.core = (loaded.after b.machine.core.stepCount).core ∧
      ∀ total, loaded.core.HaltsAfter total →
        (∃ n, (b.start.fireUpTo n).1.queue = []) ∧
          ∀ n, (b.start.fireUpTo n).1.queue = [] →
            let d := (b.start.fireUpTo n).1
            loaded.run = some ({ loaded with core := d.machine.core }, total) ∧
              d.machine.runState = .idle ∧ d.machine.pending = none ∧
              ∃ last ticks, last.occasion = .halt ∧
                (∀ event ∈ ticks, event.occasion = .tick) ∧
                d.events = last :: (ticks ++ b.events) ∧
                ticks.length =
                  ticksFor (total - b.machine.core.stepCount) b.machine.stepsPerTick := by
  intro loaded b
  have zero : loaded.core.stepCount = 0 := by
    rw [Machine.core_load]
    rfl
  have valid : loaded.core.Valid size := by
    rw [Machine.core_load, Machine.tapeSize, (Machine.valid_blank hsize).core.size_tape]
    exact Core.valid_load hsize source input
  have orderly : (ofMachine loaded (some onTick) (some onHalt)).Orderly :=
    orderly_load hsteps delay source input hTick hHalt
  obtain ⟨along, k, core⟩ := orderly.foldl_operate operations
  change b.machine.core = loaded.core.after k at core
  have place : b.machine.core = loaded.core.after b.machine.core.stepCount := by
    rw [core, Core.after_stepCount zero]
  refine ⟨place.trans (Machine.core_after _ _).symm, ?_⟩
  intro total halts
  have early := halts.stepCount_after_le zero k
  rw [← core] at early
  have left := halts.after early
  rw [← place] at left
  obtain ⟨n, ends⟩ := along.exists_ends left
  refine ⟨⟨n, ends.queue⟩, ?_⟩
  intro n' empty d
  have same : d = (b.start.fireUpTo n).1 := fireUpTo_eq_of_queue_nil empty ends.queue
  rw [← same] at ends
  have final : d.machine.core = loaded.core.after total :=
    calc d.machine.core
        = b.machine.core.after (total - b.machine.core.stepCount) := ends.core
      _ = (loaded.core.after b.machine.core.stepCount).after
            (total - b.machine.core.stepCount) := by rw [← place]
      _ = loaded.core.after total := by rw [← Core.after_add, Nat.add_sub_cancel' early]
  refine ⟨?_, ends.runState, ends.pending, ends.events⟩
  rw [Machine.run_of_haltsAfter valid halts, final]
  rfl

/-- Two of four steps are made before a pause, and the rest in one tick after
it. -/
theorem operate_follows_run_pause :
    let loaded :=
      { Machine.blank 1 with delay := .int 0, stepsPerTick := 2 }.load (Text.ofString "+-,.") []
    let note : Callback := ⟨0, []⟩
    let b := [.start, .pause, .setSteps (.int 3)].foldl operate
      (ofMachine loaded (some note) (some note))
    0 < 1 ∧ 1 ≤ 2 ∧ note.Observes ∧ loaded.core.HaltsAfter 4 ∧
      ∃ n, (b.start.fireUpTo n).1.queue = [] ∧
        ∃ last ticks, last.occasion = .halt ∧ (∀ event ∈ ticks, event.occasion = .tick) ∧
          (b.start.fireUpTo n).1.events = last :: (ticks ++ b.events) ∧ ticks.length = 1 := by
  intro loaded note b
  have steps : 1 ≤ 2 := by decide
  have observes : note.Observes := fun _ member => nomatch member
  have halts : loaded.core.HaltsAfter 4 := ⟨by decide, by decide⟩
  have stepCount : b.machine.core.stepCount = 2 := by decide
  have stepsPerTick : b.machine.stepsPerTick = 3 := rfl
  obtain ⟨_, follows⟩ := operate_follows_run Nat.one_pos steps (.int 0) (Text.ofString "+-,.") []
    observes observes [.start, .pause, .setSteps (.int 3)]
  -- From here on the bench is opaque; to compare its counters would else be to run it.
  generalize hb : [.start, .pause, .setSteps (.int 3)].foldl operate
    (ofMachine loaded (some note) (some note)) = d at follows
  have same : b = d := hb
  clear_value b
  subst same
  obtain ⟨⟨n, empty⟩, ends⟩ := follows 4 halts
  have ended := (ends n empty).2.2.2
  rw [stepCount, stepsPerTick] at ended
  exact ⟨Nat.one_pos, steps, observes, halts, n, empty, ended⟩

end Bench

end TapeMachine
