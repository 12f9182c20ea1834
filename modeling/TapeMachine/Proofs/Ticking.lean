import TapeMachine.Pacer
import TapeMachine.Proofs.Ledger

/-!
What one tick does to the ledger of any host. Up to the first callback nothing is
queued and nothing parked; after the callbacks a tick that goes on schedules the
next one, and whether that is the only one depends on what they came back with.
-/

namespace TapeMachine.Pacer

variable {σ : Type} {p : Pacer σ} {ledger : σ → Ledger} {s : σ} {fired : List Nat}

/-- Whether a pacer does to its host what is done to the ledger of the host. -/
structure Follows (p : Pacer σ) (ledger : σ → Ledger) : Prop where
  machine : ∀ s, p.machine s = (ledger s).machine
  setMachine : ∀ s m, ledger (p.setMachine s m) = (ledger s).setMachine m
  schedule : ∀ s, ledger (p.schedule s) = (ledger s).schedule

/-- The host in the middle of a tick, after the batch and before the callbacks. -/
def stepped (p : Pacer σ) (s : σ) : σ :=
  p.setMachine s ({ p.machine s with pending := none }.batch none).1

theorem tick_of_stopped (h : (p.machine s).runState ≠ .running) :
    p.tick s = p.setMachine s { p.machine s with pending := none } := by
  rw [tick]
  exact if_neg h

theorem Follows.machine_setMachine (f : p.Follows ledger) (s : σ) (m : Machine) :
    p.machine (p.setMachine s m) = m := by
  rw [f.machine, f.setMachine]
  rfl

/-- A tick of a running machine makes a batch and calls back. Then it ends the run,
goes on, or finds that the callback has stopped the machine. -/
theorem Follows.tick_of_running (f : p.Follows ledger) (h : (p.machine s).runState = .running) :
    p.tick s =
      let t := p.onTick (p.stepped s)
      if (p.machine (p.stepped s)).core.halted then p.onHalt (p.pause t)
      else if (p.machine t).runState = .running then p.schedule t
      else t := by
  have running : ({ p.machine s with pending := none } : Machine).runState = .running := h
  have batch := Machine.batch_snd { p.machine s with pending := none } none
  rw [tick, if_pos running, stepped, f.machine_setMachine]
  generalize Machine.batch _ none = result at batch ⊢
  obtain ⟨m, alive⟩ := result
  obtain rfl : alive = !m.core.halted := batch
  cases halted : m.core.halted with
  | true => simp
  | false => simp [isRunning]

theorem start_of_running (h : (p.machine s).runState = .running) : p.start s = s := by
  rw [start, isRunning, h]
  rfl

theorem start_of_stopped (h : (p.machine s).runState ≠ .running) :
    p.start s = p.tick (p.setMachine s (p.machine s).start) := by
  rw [start, isRunning, decide_eq_false h]
  rfl

/-- Before the callbacks, a tick has forgotten what was parked and made its batch. -/
theorem Follows.ledger_stepped (f : p.Follows ledger) (s : σ) :
    ledger (p.stepped s) =
      (ledger s).forget.setMachine ((ledger s).forget.machine.batch none).1 := by
  rw [stepped, f.setMachine, f.machine]
  rfl

theorem Follows.accounts_stepped (f : p.Follows ledger) (h : (ledger s).Accounts fired) :
    (ledger (p.stepped s)).Accounts fired := by
  have forgotten : (ledger s).forget.Accounts fired := h
  rw [f.ledger_stepped]
  exact forgotten.setMachine (Machine.keeps_batch _ none).cancelled

/-- When the callbacks are called, the tick that brought them is over and nothing
else is parked. -/
theorem Follows.clear_stepped (f : p.Follows ledger) (empty : (ledger s).queued = []) :
    (ledger (p.stepped s)).Clear := by
  have forgotten : (ledger s).forget.Clear := ⟨empty, rfl⟩
  rw [f.ledger_stepped]
  exact forgotten.setMachine (Machine.keeps_batch _ none).pending

/-- A batch that does not end the run leaves the machine running. -/
theorem Follows.runState_stepped (f : p.Follows ledger)
    (running : (p.machine (p.stepped s)).core.halted = false) :
    (p.machine (p.stepped s)).runState = (p.machine s).runState := by
  rw [stepped, f.machine_setMachine] at running ⊢
  exact Machine.runState_batch running

/-- A tick that comes to a stopped machine only makes sure that nothing is parked. -/
theorem Follows.tick_stopped (f : p.Follows ledger) (h : (p.machine s).runState ≠ .running)
    (accounts : (ledger s).Accounts fired) : ledger (p.tick s) = (ledger s).forget := by
  rw [tick_of_stopped h, f.setMachine, f.machine]
  exact accounts.setMachine_eq rfl

end TapeMachine.Pacer
