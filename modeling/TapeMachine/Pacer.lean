import TapeMachine.Machine

/-!
A pacer drives a machine by timed ticks: each runs a batch and schedules the
next one, until the machine halts or is no longer running. What scheduling and
the two callbacks do is up to the host, whose whole state the pacer hands
around; a callback may well start the pacer again within a tick.
-/

namespace TapeMachine

/-- What a pacer needs of a host with states `σ`. `schedule` queues a tick
after the machine's delay and parks its handle on the machine. -/
structure Pacer (σ : Type) where
  machine : σ → Machine
  setMachine : σ → Machine → σ
  schedule : σ → σ
  onTick : σ → σ
  onHalt : σ → σ

namespace Pacer

variable {σ : Type}

def isRunning (p : Pacer σ) (s : σ) : Bool :=
  (p.machine s).runState = .running

def pause (p : Pacer σ) (s : σ) : σ :=
  p.setMachine s (p.machine s).pause

/-- One tick. Nothing is parked while it runs, and outside the running state
it does no more than that. -/
def tick (p : Pacer σ) (s : σ) : σ :=
  let m := { p.machine s with pending := none }
  if m.runState = .running then
    let (m, alive) := m.batch none
    let s := p.onTick (p.setMachine s m)
    if alive then
      if p.isRunning s then p.schedule s else s
    else p.onHalt (p.pause s)
  else p.setMachine s m

def start (p : Pacer σ) (s : σ) : σ :=
  if p.isRunning s then s else p.tick (p.setMachine s (p.machine s).start)

end Pacer

end TapeMachine
