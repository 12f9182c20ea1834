import TapeMachine.Pacer.Bench
import TapeMachine.Proofs.Halting

/-!
What one tick of a pacer comes to. With callbacks that only note their calls, a
bench between two operations either rests, with no tick queued, or waits for the
one tick that its machine has parked. A tick makes the steps of one batch and
leaves the bench in one of the two, and so do a start, a pause and a change of
speed.
-/

namespace TapeMachine

namespace Callback

/-- Whether a callback does no more than note its calls. -/
def Observes (c : Callback) : Prop :=
  ∀ entry ∈ c.script, entry.2 = []

theorem Observes.moves {c : Callback} (h : c.Observes) : c.moves = [] := by
  obtain ⟨calls, script⟩ := c
  rw [Callback.moves]
  induction script with
  | nil => rfl
  | cons entry rest ih =>
      obtain ⟨number, moves⟩ := entry
      rw [List.lookup_cons]
      split
      · exact h (number, moves) List.mem_cons_self
      · exact ih fun entry hentry => h entry (List.mem_cons_of_mem _ hentry)

end Callback

namespace Bench

/-- Whether a bench has both callbacks, and they only note their calls. -/
structure Watched (b : Bench) : Prop where
  onTick : ∃ c, b.onTick = some c ∧ c.Observes
  onHalt : ∃ c, b.onHalt = some c ∧ c.Observes

/-- What a call to a callback that observes comes to: one more event. -/
structure Noted (occasion : Occasion) (b d : Bench) : Prop where
  watched : d.Watched
  machine : d.machine = b.machine
  queue : d.queue = b.queue
  scheduled : d.scheduled = b.scheduled
  events : ∃ event, event.occasion = occasion ∧ d.events = event :: b.events

theorem Watched.noted {b : Bench} (h : b.Watched) (occasion : Occasion)
    (start : Bench → Bench) : Noted occasion b (call occasion start b) := by
  obtain ⟨t, ht, tickObserves⟩ := h.onTick
  obtain ⟨e, he, haltObserves⟩ := h.onHalt
  cases occasion with
  | tick =>
      have still : ({ t with calls := t.calls + 1 } : Callback).moves = [] :=
        Callback.Observes.moves tickObserves
      simp only [call, callback?, ht, still, List.foldl_nil]
      exact ⟨⟨⟨_, rfl, tickObserves⟩, ⟨e, he, haltObserves⟩⟩, rfl, rfl, rfl, _, rfl, rfl⟩
  | halt =>
      have still : ({ e with calls := e.calls + 1 } : Callback).moves = [] :=
        Callback.Observes.moves haltObserves
      simp only [call, callback?, he, still, List.foldl_nil]
      exact ⟨⟨⟨t, ht, tickObserves⟩, ⟨_, rfl, haltObserves⟩⟩, rfl, rfl, rfl, _, rfl, rfl⟩

/-- A bench that no tick will come to. -/
structure Rests (b : Bench) : Prop where
  runState : b.machine.runState ≠ .running
  queue : b.queue = []
  pending : b.machine.pending = none

/-- A bench that waits for a tick, the one that its machine has parked. -/
structure Waits (b : Bench) (ticket : Ticket) : Prop where
  runState : b.machine.runState = .running
  halted : b.machine.core.halted = false
  queue : b.queue = [ticket]
  pending : b.machine.pending = some (.tick ticket.id)
  scheduled : ticket.id < b.scheduled
  live : .tick ticket.id ∉ b.machine.cancelled

/-- What holds of a watched bench at any time: no tick is cancelled before it is
scheduled. -/
structure Kept (b : Bench) : Prop where
  watched : b.Watched
  fresh : ∀ id, .tick id ∈ b.machine.cancelled → id < b.scheduled
  one_le_stepsPerTick : 1 ≤ b.machine.stepsPerTick

theorem Noted.kept {occasion : Occasion} {b d : Bench} (n : Noted occasion b d) (h : b.Kept) :
    d.Kept where
  watched := n.watched
  fresh := by
    rw [n.machine, n.scheduled]
    exact h.fresh
  one_le_stepsPerTick := by
    rw [n.machine]
    exact h.one_le_stepsPerTick

theorem Noted.rests {occasion : Occasion} {b d : Bench} (n : Noted occasion b d) (h : b.Rests) :
    d.Rests where
  runState := by
    rw [n.machine]
    exact h.runState
  queue := n.queue.trans h.queue
  pending := by
    rw [n.machine]
    exact h.pending

/-- What holds of a watched bench between two operations. -/
structure Orderly (b : Bench) : Prop extends Kept b where
  mode : b.Rests ∨ ∃ ticket, b.Waits ticket

/-- A bench in the moment before a tick that its running machine takes part
in. -/
structure Ready (b : Bench) : Prop extends Kept b where
  runState : b.machine.runState = .running
  queue : b.queue = []

/-- What one tick comes to. -/
structure Ticked (b t : Bench) : Prop where
  orderly : t.Orderly
  core : t.machine.core = b.machine.core.after b.machine.stepsPerTick
  stepsPerTick : t.machine.stepsPerTick = b.machine.stepsPerTick
  runState : t.machine.runState = if t.machine.core.halted then .idle else .running
  events : ∃ event, event.occasion = .tick ∧
    if t.machine.core.halted then
      ∃ last, last.occasion = .halt ∧ t.events = last :: event :: b.events
    else t.events = event :: b.events

theorem Ticked.rests {b t : Bench} (h : Ticked b t) (halted : t.machine.core.halted = true) :
    t.Rests := by
  have idle := h.runState
  rw [if_pos halted] at idle
  rcases h.orderly.mode with rests | ⟨ticket, waits⟩
  · exact rests
  · rw [waits.runState] at idle
    cases idle

theorem Ticked.waits {b t : Bench} (h : Ticked b t) (running : t.machine.core.halted = false) :
    ∃ ticket, t.Waits ticket := by
  have goesOn := h.runState
  rw [running] at goesOn
  exact h.orderly.mode.resolve_left fun rests => rests.runState goesOn

private theorem pacer_eq (depth : Nat) :
    ∃ start, pacer depth =
      { machine := Bench.machine, setMachine, schedule
        onTick := call .tick start
        onHalt := call .halt start } := by
  cases depth with
  | zero => exact ⟨id, rfl⟩
  | succ depth => exact ⟨(pacer depth).start, rfl⟩

theorem setMachine_of_queue_nil {b : Bench} (h : b.queue = []) (m : Machine) :
    b.setMachine m = { b with machine := m } := by
  simp [setMachine, h]

/-- The bench in the middle of a tick, after the batch and before the callback. -/
def stepped (b : Bench) : Bench :=
  { b with machine := { b.machine with pending := none }.after b.machine.stepsPerTick }

theorem core_stepped (b : Bench) :
    b.stepped.machine.core = b.machine.core.after b.machine.stepsPerTick :=
  Machine.core_after _ _

/-- The batch of a tick parks nothing and changes no setting, and it makes a
halted machine idle. -/
theorem Ready.machine_stepped {b : Bench} (h : b.Ready) :
    b.stepped.machine =
      { b.machine with
        core := b.stepped.machine.core
        pending := none
        runState := if b.stepped.machine.core.halted then .idle else .running } := by
  rw [core_stepped, stepped, Machine.after_of_pos h.one_le_stepsPerTick]
  cases halted : (b.machine.core.after b.machine.stepsPerTick).halted with
  | true => exact Machine.settle_of_halted halted
  | false =>
      rw [Machine.settle_of_running halted, ← h.runState]
      rfl

theorem Ready.kept_stepped {b : Bench} (h : b.Ready) : b.stepped.Kept where
  watched := ⟨h.watched.onTick, h.watched.onHalt⟩
  fresh := by
    rw [h.machine_stepped]
    exact h.fresh
  one_le_stepsPerTick := by
    rw [h.machine_stepped]
    exact h.one_le_stepsPerTick

theorem Ready.tick_eq {b : Bench} (h : b.Ready) (depth : Nat) :
    ∃ start, (pacer depth).tick b =
      let noted := call .tick start b.stepped
      if b.stepped.machine.core.halted then
        call .halt start (noted.setMachine noted.machine.pause)
      else noted.schedule := by
  obtain ⟨start, hpacer⟩ := pacer_eq depth
  refine ⟨start, ?_⟩
  have running : ({ b.machine with pending := none } : Machine).runState = .running := h.runState
  have batch := Machine.batch_none (m := { b.machine with pending := none }) h.one_le_stepsPerTick
  have noted := h.kept_stepped.watched.noted .tick start
  rw [hpacer, Pacer.tick, if_pos running, batch, core_stepped]
  simp only [setMachine_of_queue_nil h.queue]
  change (if (!(b.machine.core.after b.machine.stepsPerTick).halted) = true then _ else _) = _
  cases halted : (b.machine.core.after b.machine.stepsPerTick).halted with
  | true => rfl
  | false =>
      have goesOn : (call .tick start b.stepped).machine.runState = .running := by
        rw [noted.machine, h.machine_stepped, core_stepped, halted]
        rfl
      exact if_pos (decide_eq_true goesOn)

/-- A bench that schedules a tick waits for it, since no one has cancelled it
yet. -/
theorem Ready.waits_schedule {b : Bench} (h : b.Ready) (halted : b.machine.core.halted = false) :
    b.schedule.Waits ⟨b.scheduled, b.machine.delay⟩ where
  runState := h.runState
  halted := halted
  queue := by rw [schedule, h.queue, List.nil_append]
  pending := rfl
  scheduled := Nat.lt_succ_self b.scheduled
  live := fun cancelled => Nat.lt_irrefl _ (h.fresh b.scheduled cancelled)

theorem Ready.kept_schedule {b : Bench} (h : b.Ready) : b.schedule.Kept where
  watched := ⟨h.watched.onTick, h.watched.onHalt⟩
  fresh := fun id cancelled => Nat.lt_succ_of_lt (h.fresh id cancelled)
  one_le_stepsPerTick := h.one_le_stepsPerTick

/-- A pause takes the one tick that can be queued out of the queue. -/
theorem Orderly.pause {b : Bench} (h : b.Orderly) : b.pause.Kept ∧ b.pause.Rests := by
  have idle : b.machine.pause.runState ≠ .running := by
    rw [Machine.runState_pause]
    split <;> simp
  have cancelled : ∀ id, .tick id ∈ b.machine.pause.cancelled → id < b.scheduled := by
    intro id hid
    rw [Machine.cancelled_pause, List.mem_append] at hid
    rcases hid with parked | before
    · rcases h.mode with rests | ⟨ticket, waits⟩
      · simp [rests.pending] at parked
      · have same : id = ticket.id := by simpa [waits.pending, eq_comm] using parked
        rw [same]
        exact waits.scheduled
    · exact h.fresh id before
  have queue : b.pause.queue = [] := by
    rcases h.mode with rests | ⟨ticket, waits⟩
    · simp [Bench.pause, setMachine, rests.queue]
    · simp [Bench.pause, setMachine, waits.queue, waits.pending, Machine.cancelled_pause]
  have kept : b.pause.Kept :=
    { watched := ⟨h.watched.onTick, h.watched.onHalt⟩
      fresh := cancelled
      one_le_stepsPerTick := by
        rw [Bench.pause, setMachine, Machine.stepsPerTick_pause]
        exact h.one_le_stepsPerTick }
  exact ⟨kept, idle, queue, Machine.pending_pause b.machine⟩

private theorem Ready.ticked_schedule {b d : Bench} (h : b.Ready) (n : Noted .tick b.stepped d)
    (halted : b.stepped.machine.core.halted = false) : Ticked b d.schedule := by
  have same := h.machine_stepped
  rw [halted] at same
  obtain ⟨event, hevent, events⟩ := n.events
  have ready : d.Ready :=
    { n.kept h.kept_stepped with
      runState := by
        rw [n.machine, same]
        rfl
      queue := n.queue.trans h.queue }
  have running : d.machine.core.halted = false := by
    rw [n.machine]
    exact halted
  exact
    { orderly := { ready.kept_schedule with mode := Or.inr ⟨_, ready.waits_schedule running⟩ }
      core := (congrArg Machine.core n.machine).trans (core_stepped b)
      stepsPerTick := by
        change d.machine.stepsPerTick = _
        rw [n.machine, same]
      runState := by
        change d.machine.runState = if d.machine.core.halted then _ else _
        rw [running]
        exact ready.runState
      events := by
        change ∃ event, _ ∧ if d.machine.core.halted then _ else d.events = _
        rw [running]
        exact ⟨event, hevent, events⟩ }

private theorem Ready.ticked_pause {b d : Bench} (h : b.Ready) (n : Noted .tick b.stepped d)
    (halted : b.stepped.machine.core.halted = true) (start : Bench → Bench) :
    Ticked b (call .halt start d.pause) := by
  have same := h.machine_stepped
  rw [halted] at same
  obtain ⟨event, hevent, events⟩ := n.events
  have kept := n.kept h.kept_stepped
  have rests : d.Rests :=
    { runState := by
        rw [n.machine, same]
        simp
      queue := n.queue.trans h.queue
      pending := by rw [n.machine, same] }
  obtain ⟨keptPause, restsPause⟩ := Orderly.pause { kept with mode := Or.inl rests }
  have last := keptPause.watched.noted .halt start
  obtain ⟨lastEvent, hlast, lastEvents⟩ := last.events
  have ended : d.machine.core.halted = true := by
    rw [n.machine]
    exact halted
  have machine : (call .halt start d.pause).machine = d.machine.pause := last.machine
  have halts : (call .halt start d.pause).machine.core.halted = true := by
    rw [machine, Machine.core_pause]
    exact ended
  exact
    { orderly := { last.kept keptPause with mode := Or.inl (last.rests restsPause) }
      core := by rw [machine, Machine.core_pause, n.machine, core_stepped]
      stepsPerTick := by rw [machine, Machine.stepsPerTick_pause, n.machine, same]
      runState := by rw [if_pos halts, machine, Machine.runState_pause, if_pos ended]
      events := by
        simp only [halts, if_true]
        exact ⟨event, hevent, lastEvent, hlast, lastEvents.trans (congrArg _ events)⟩ }

/-- A tick makes the steps of one batch, calls back, and then either ends the run
and calls back once more or queues the tick that it parks. -/
theorem Ready.tick {b : Bench} (h : b.Ready) (depth : Nat) : Ticked b ((pacer depth).tick b) := by
  obtain ⟨start, htick⟩ := h.tick_eq depth
  have noted := h.kept_stepped.watched.noted .tick start
  rw [htick]
  cases halted : b.stepped.machine.core.halted with
  | false => exact h.ticked_schedule noted halted
  | true => exact h.ticked_pause noted halted start

/-- A pacer that is not running starts with a tick. -/
theorem Orderly.ticked_start {b : Bench} (h : b.Orderly) (rests : b.Rests) :
    Ticked b b.start := by
  let d : Bench := { b with machine := b.machine.start }
  have ready : d.Ready :=
    { watched := ⟨h.watched.onTick, h.watched.onHalt⟩
      fresh := h.fresh
      one_le_stepsPerTick := h.one_le_stepsPerTick
      runState := rfl
      queue := rests.queue }
  have start : b.start = (pacer b.depth).tick d := by
    obtain ⟨_, hpacer⟩ := pacer_eq b.depth
    rw [Bench.start, hpacer, Pacer.start, if_neg (by simpa [Pacer.isRunning] using rests.runState)]
    exact congrArg _ (setMachine_of_queue_nil rests.queue _)
  obtain ⟨orderly, core, stepsPerTick, runState, events⟩ := ready.tick b.depth
  rw [start]
  exact ⟨orderly, core, stepsPerTick, runState, events⟩

/-- A running pacer has nothing to start. -/
theorem Waits.start {b : Bench} {ticket : Ticket} (h : b.Waits ticket) : b.start = b := by
  obtain ⟨_, hpacer⟩ := pacer_eq b.depth
  rw [Bench.start, hpacer, Pacer.start, if_pos (by simpa [Pacer.isRunning] using h.runState)]

/-- The tick that a bench waits for is the one that comes. -/
theorem Orderly.ticked_fire {b : Bench} {ticket : Ticket} (h : b.Orderly) (waits : b.Waits ticket) :
    ∃ d, b.fire? = some d ∧ Ticked b d := by
  let d : Bench := { b with queue := [] }
  have ready : d.Ready :=
    { watched := ⟨h.watched.onTick, h.watched.onHalt⟩
      fresh := h.fresh
      one_le_stepsPerTick := h.one_le_stepsPerTick
      runState := waits.runState
      queue := rfl }
  obtain ⟨orderly, core, stepsPerTick, runState, events⟩ := ready.tick d.depth
  refine ⟨d.tick, ?_, orderly, core, stepsPerTick, runState, events⟩
  rw [fire?, waits.queue]

theorem Rests.fire? {b : Bench} (h : b.Rests) : b.fire? = none := by
  rw [Bench.fire?, h.queue]

/-- A change of speed leaves the tick that a bench waits for in the queue. -/
theorem Orderly.adjust {b : Bench} (h : b.Orderly) (delay : Number) {steps : Nat}
    (hsteps : 1 ≤ steps) :
    (b.setMachine { b.machine with delay, stepsPerTick := steps }).Orderly where
  watched := ⟨h.watched.onTick, h.watched.onHalt⟩
  fresh := h.fresh
  one_le_stepsPerTick := hsteps
  mode := by
    rcases h.mode with rests | ⟨ticket, waits⟩
    · refine Or.inl ⟨rests.runState, ?_, rests.pending⟩
      simp [setMachine, rests.queue]
    · refine Or.inr ⟨ticket, waits.runState, waits.halted, ?_, waits.pending, waits.scheduled,
        waits.live⟩
      simp [setMachine, waits.queue, waits.live]

end Bench

end TapeMachine
