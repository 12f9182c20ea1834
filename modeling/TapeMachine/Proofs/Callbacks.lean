import TapeMachine.Pacer.Bench
import TapeMachine.Proofs.Ticking

/-!
Callbacks that act within a tick, and may start the pacer again from there. The
tick around such a call knows nothing of a tick that the call has parked: it parks
the next one in its place. So all is well where each call of the first callback
comes back with nothing parked. The second callback is the last thing a tick does,
and may leave what it likes.
-/

namespace TapeMachine

/-- Whether a tick may be parked after a move, by whether one may be before it.
There is no answer for a move that can lose a parked tick: one that parks something
in its place, and a step by hand, which may stop the machine before the tick comes. -/
def Move.parks? (parked : Bool) : Move → Option Bool
  | .start => some true
  | .pause | .install _ _ | .reset => some false
  | .faster => some parked
  | .perform action =>
    match action.hold with
    | .keeps => some parked
    | .steps => if parked then none else some false
    | .releases => some false
    | .replaces => none

/-- Whether a tick may be parked after moves that find none parked. -/
def Move.allPark? (moves : List Move) : Option Bool :=
  moves.foldlM parks? false

namespace Callback

/-- Whether every call comes back with nothing parked. -/
def Clears (c : Callback) : Prop :=
  ∀ entry ∈ c.script, Move.allPark? entry.2 = some false

/-- Whether no call loses a tick that it has parked. -/
def Minds (c : Callback) : Prop :=
  ∀ entry ∈ c.script, ∃ parked, Move.allPark? entry.2 = some parked

theorem moves_of_forall {c : Callback} {P : List Move → Prop} (nil : P [])
    (h : ∀ entry ∈ c.script, P entry.2) : P c.moves := by
  obtain ⟨calls, script⟩ := c
  rw [moves]
  induction script with
  | nil => exact nil
  | cons entry rest ih =>
      obtain ⟨number, moves⟩ := entry
      rw [List.lookup_cons]
      split
      · exact h (number, moves) List.mem_cons_self
      · exact ih fun entry hentry => h entry (List.mem_cons_of_mem _ hentry)

theorem Clears.moves {c : Callback} (h : c.Clears) : Move.allPark? c.moves = some false :=
  moves_of_forall (P := fun moves => Move.allPark? moves = some false) rfl h

theorem Minds.moves {c : Callback} (h : c.Minds) :
    ∃ parked, Move.allPark? c.moves = some parked :=
  moves_of_forall (P := fun moves => ∃ parked, Move.allPark? moves = some parked) ⟨false, rfl⟩ h

end Callback

namespace Bench

def ledger (b : Bench) : Ledger where
  machine := b.machine
  queued := b.queue.map Ticket.id
  scheduled := b.scheduled

theorem ledger_setMachine (b : Bench) (m : Machine) :
    (b.setMachine m).ledger = b.ledger.setMachine m := by
  simp [ledger, setMachine, Ledger.setMachine, List.filter_map, Function.comp_def]

/-- The pacer of a bench whose callbacks have a way to start a pacer. -/
def pacerWith (start : Bench → Bench) : Pacer Bench where
  machine := Bench.machine
  setMachine := setMachine
  schedule := schedule
  onTick := call .tick start
  onHalt := call .halt start

theorem pacer_zero : pacer 0 = pacerWith id := rfl

theorem pacer_succ (depth : Nat) : pacer (depth + 1) = pacerWith (pacer depth).start := rfl

theorem follows_ledger (start : Bench → Bench) : (pacerWith start).Follows ledger where
  machine := fun _ => rfl
  setMachine := ledger_setMachine
  schedule := fun b => by simp [ledger, pacerWith, schedule, Ledger.schedule]

/-- Whether the callbacks, if there are any, lose no tick. -/
structure Tame (b : Bench) : Prop where
  onTick : ∀ c ∈ b.onTick, c.Clears
  onHalt : ∀ c ∈ b.onHalt, c.Minds

/-- What holds of a tame bench as long as no tick is lost. -/
structure Accounted (b : Bench) (fired : List Nat) : Prop extends Tame b where
  settled : b.ledger.Settled fired

/-- What also holds as long as no step by hand stops the machine while a tick is
parked, and so within a tick. -/
structure Sound (b : Bench) (fired : List Nat) : Prop extends Accounted b fired where
  steady : b.ledger.Steady

/-- A sound bench with something parked at most where it may be. -/
structure Within (b : Bench) (fired : List Nat) (parked : Bool) : Prop extends Sound b fired where
  clear : parked = false → b.ledger.Clear

section

variable {b : Bench} {fired : List Nat} {start : Bench → Bench}

theorem Tame.sound_of_clear (h : b.Tame) (accounts : b.ledger.Accounts fired)
    (clear : b.ledger.Clear) : b.Sound fired :=
  { h with settled := ⟨accounts, Or.inl clear⟩, steady := fun _ => clear.pending }

/-- On a machine that does not run nothing is queued. -/
theorem Sound.clear_of_stopped (h : b.Sound fired) (stopped : b.machine.runState ≠ .running) :
    b.ledger.Clear := by
  rcases h.settled.mode with clear | ⟨id, awaits⟩
  · exact clear
  · have nothing := h.steady stopped
    rw [awaits.pending] at nothing
    cases nothing

section Operations

variable {m : Machine}

theorem Tame.setMachine (h : b.Tame) : (b.setMachine m).Tame :=
  ⟨h.onTick, h.onHalt⟩

theorem Accounted.keep (h : b.Accounted fired) (kept : b.machine.Keeps m) :
    (b.setMachine m).Accounted fired where
  toTame := h.setMachine
  settled := by
    rw [ledger_setMachine]
    exact h.settled.keep kept

/-- What is parked may be kept on a machine that runs if the one before did. -/
theorem Sound.keep (h : b.Sound fired) (kept : b.machine.Keeps m)
    (runs : m.runState = b.machine.runState ∨ m.runState = .running) :
    (b.setMachine m).Sound fired where
  toAccounted := h.toAccounted.keep kept
  steady := by
    intro stopped
    rcases runs with same | running
    · have before : b.machine.runState ≠ .running := by
        rw [← same]
        exact stopped
      exact kept.pending.trans (h.steady before)
    · exact absurd running stopped

theorem Accounted.release (h : b.Accounted fired) (released : b.machine.Releases m)
    (parked : Bool) : (b.setMachine m).Within fired parked := by
  have settled := h.settled.release released
  have clear := h.settled.clear_release released
  rw [← ledger_setMachine] at settled clear
  exact { h.setMachine.sound_of_clear settled.accounts clear with clear := fun _ => clear }

/-- While nothing is parked, the machine may also stop. -/
theorem Sound.stop (h : b.Sound fired) (clear : b.ledger.Clear) (kept : b.machine.Keeps m) :
    (b.setMachine m).Within fired false := by
  have accounts := h.settled.accounts.setMachine kept.cancelled
  have still := clear.setMachine (kept.pending.trans clear.pending)
  rw [← ledger_setMachine] at accounts still
  exact { h.setMachine.sound_of_clear accounts still with clear := fun _ => still }

theorem Within.keep {parked : Bool} (h : b.Within fired parked) (kept : b.machine.Keeps m)
    (runs : m.runState = b.machine.runState ∨ m.runState = .running) :
    (b.setMachine m).Within fired parked :=
  { h.toSound.keep kept runs with
    clear := fun nothing => by
      rw [ledger_setMachine]
      exact (h.clear nothing).setMachine (kept.pending.trans (h.clear nothing).pending) }

end Operations

/-- A move leaves a tick parked at most where it may. -/
theorem Within.move (hstart : ∀ d : Bench, d.Sound fired → (start d).Sound fired)
    {parked after : Bool} (h : b.Within fired parked) {move : Move}
    (parks : move.parks? parked = some after) : (b.move start move).Within fired after := by
  cases move with
  | start =>
      cases parks
      exact { hstart b h.toSound with clear := fun no => by cases no }
  | pause => exact h.release b.machine.releases_pause after
  | install program input => exact h.release (b.machine.releases_install program input) after
  | reset => exact h.release (b.machine.releases_reset false) after
  | faster =>
      cases parks
      exact h.keep ⟨rfl, rfl⟩ (Or.inl rfl)
  | perform action =>
      rw [Bench.move, perform]
      cases result : b.machine.perform action with
      | none =>
          rw [Move.parks?, Machine.hold_of_perform_eq_none result] at parks
          cases parked with
          | false =>
              cases parks
              exact h
          | true => cases parks
      | some outcome =>
          obtain ⟨m, answer⟩ := outcome
          have relates := Machine.perform_hold result
          change (b.setMachine m).Within fired after
          rw [Move.parks?] at parks
          cases hold : action.hold with
          | keeps =>
              rw [hold] at parks relates
              cases parks
              exact h.keep relates.1 relates.2
          | steps =>
              rw [hold] at parks relates
              cases parked with
              | false =>
                  cases parks
                  exact h.toSound.stop (h.clear rfl) relates
              | true => cases parks
          | releases =>
              rw [hold] at relates
              exact h.release relates after
          | replaces =>
              rw [hold] at parks
              cases parks

theorem Within.foldl_move (hstart : ∀ d : Bench, d.Sound fired → (start d).Sound fired)
    {parked after : Bool} (h : b.Within fired parked) {moves : List Move}
    (parks : moves.foldlM Move.parks? parked = some after) :
    (moves.foldl (Bench.move start) b).Within fired after := by
  induction moves generalizing b parked with
  | nil =>
      cases parks
      exact h
  | cons move moves ih =>
      rw [List.foldlM_cons] at parks
      obtain ⟨between, one, rest⟩ := Option.bind_eq_some_iff.1 parks
      exact ih (h.move hstart one) rest

/-- A call that finds nothing parked loses no tick, and the first callback parks
none. -/
theorem Sound.call (hstart : ∀ d : Bench, d.Sound fired → (start d).Sound fired)
    (h : b.Sound fired) (clear : b.ledger.Clear) (occasion : Occasion) :
    (Bench.call occasion start b).Sound fired ∧
      (occasion = .tick → (Bench.call occasion start b).ledger.Clear) := by
  rw [Bench.call]
  cases hc : b.callback? occasion with
  | none => exact ⟨h, fun _ => clear⟩
  | some c =>
      let called : Callback := { c with calls := c.calls + 1 }
      let event : Event := ⟨occasion, b.machine.core.stepCount, b.machine.runState⟩
      let noted : Bench := { b.setCallback called occasion with events := event :: b.events }
      change (called.moves.foldl (Bench.move start) noted).Sound fired ∧
        (_ → (called.moves.foldl (Bench.move start) noted).ledger.Clear)
      cases occasion with
      | tick =>
          have clears : called.Clears := h.onTick c hc
          have tame : noted.Tame := ⟨fun d hd => Option.some.inj hd ▸ clears, h.onHalt⟩
          have before : noted.Within fired false :=
            { tame.sound_of_clear h.settled.accounts clear with clear := fun _ => clear }
          have after := before.foldl_move hstart clears.moves
          exact ⟨after.toSound, fun _ => after.clear rfl⟩
      | halt =>
          have minds : called.Minds := h.onHalt c hc
          have tame : noted.Tame := ⟨h.onTick, fun d hd => Option.some.inj hd ▸ minds⟩
          have before : noted.Within fired false :=
            { tame.sound_of_clear h.settled.accounts clear with clear := fun _ => clear }
          obtain ⟨parked, parks⟩ := minds.moves
          exact ⟨(before.foldl_move hstart parks).toSound, fun no => by cases no⟩

/-- A tick that comes while no other is queued leaves a sound bench, whatever was
parked before it. -/
theorem Tame.sound_tick (hstart : ∀ d : Bench, d.Sound fired → (start d).Sound fired)
    (h : b.Tame) (accounts : b.ledger.Accounts fired) (empty : b.ledger.queued = []) :
    ((pacerWith start).tick b).Sound fired := by
  have f := follows_ledger start
  by_cases running : b.machine.runState = .running
  · let s := (pacerWith start).stepped b
    have tame : s.Tame := h.setMachine
    have before := tame.sound_of_clear (f.accounts_stepped accounts) (f.clear_stepped empty)
    obtain ⟨called, clears⟩ := before.call hstart (f.clear_stepped empty) .tick
    have clear := clears rfl
    rw [f.tick_of_running running]
    simp only
    split
    · have paused := called.release (Machine.releases_pause _) false
      exact (paused.toSound.call hstart (paused.clear rfl) .halt).1
    · split
      · next goesOn =>
          have settled := clear.settled_schedule called.settled.accounts
          rw [← f.schedule] at settled
          exact
            { onTick := called.onTick
              onHalt := called.onHalt
              settled := settled
              steady := fun stopped => absurd goesOn stopped }
      · exact called
  · have stopped := f.tick_stopped running accounts
    rw [Pacer.tick_of_stopped running] at stopped ⊢
    refine h.setMachine.sound_of_clear ?_ ⟨?_, rfl⟩
    · exact stopped ▸ accounts
    · exact stopped ▸ empty

/-- A start while nothing is parked is a tick. -/
theorem Tame.sound_start (hstart : ∀ d : Bench, d.Sound fired → (start d).Sound fired)
    (h : b.Tame) (accounts : b.ledger.Accounts fired) (clear : b.ledger.Clear)
    (stopped : b.machine.runState ≠ .running) : ((pacerWith start).start b).Sound fired := by
  have started := accounts.setMachine (m := b.machine.start) rfl
  have empty := (clear.setMachine (m := b.machine.start) clear.pending).queued
  rw [← ledger_setMachine] at started empty
  rw [Pacer.start_of_stopped stopped]
  exact h.setMachine.sound_tick hstart started empty

/-- Starts within callbacks are sound, however deep they nest. The induction is on
the depth, since a start on one level calls back with a start on the level below. -/
theorem Sound.start_pacer (depth : Nat) (h : b.Sound fired) :
    ((pacer depth).start b).Sound fired := by
  have atLevel {start : Bench → Bench}
      (hstart : ∀ d : Bench, d.Sound fired → (start d).Sound fired) {d : Bench}
      (hd : d.Sound fired) : ((pacerWith start).start d).Sound fired := by
    by_cases running : d.machine.runState = .running
    · rw [Pacer.start_of_running running]
      exact hd
    · exact hd.toTame.sound_start hstart hd.settled.accounts (hd.clear_of_stopped running) running
  induction depth generalizing b with
  | zero =>
      rw [pacer_zero]
      exact atLevel (fun d hd => hd) h
  | succ depth ih =>
      rw [pacer_succ]
      exact atLevel (fun d hd => ih hd) h

/-- The callbacks of any pacer of the bench start pacers soundly. -/
theorem exists_pacer_eq (depth : Nat) (fired : List Nat) :
    ∃ start, pacer depth = pacerWith start ∧
      ∀ d : Bench, d.Sound fired → (start d).Sound fired := by
  cases depth with
  | zero => exact ⟨id, pacer_zero, fun d hd => hd⟩
  | succ depth => exact ⟨_, pacer_succ depth, fun d hd => hd.start_pacer depth⟩

end

end Bench

end TapeMachine
