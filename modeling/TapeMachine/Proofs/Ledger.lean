import TapeMachine.Machine.Action
import TapeMachine.Proofs.Lifecycle
import TapeMachine.Proofs.Stepping

/-!
Where the ticks of a pacer are. A host keeps a ledger of them: its machine, with
the handle that is parked on it and those that it has cancelled, the numbers of
the ticks in the queue, and how many were ever scheduled. Every operation on the
machine either leaves the parked handle alone or cancels it, and that is all it
takes to keep the ledger settled: each tick is fired, cancelled or queued, and a
queued one is the one that is parked.
-/

namespace TapeMachine

namespace Machine

/-- What is parked on one machine stays parked on the next. -/
structure Keeps (m m' : Machine) : Prop where
  pending : m'.pending = m.pending
  cancelled : m'.cancelled = m.cancelled

/-- What is parked on one machine is cancelled by the next. -/
structure Releases (m m' : Machine) : Prop where
  pending : m'.pending = none
  cancelled : m'.cancelled = m.pending.toList ++ m.cancelled

section

variable (m : Machine)

theorem keeps_settle : m.Keeps m.settle := by
  unfold settle
  split <;> exact ⟨rfl, rfl⟩

theorem keeps_after (n : Nat) : m.Keeps (m.after n) := by
  cases n with
  | zero => exact ⟨rfl, rfl⟩
  | succ n =>
      rw [after_of_pos (Nat.succ_pos n)]
      exact ⟨(keeps_settle _).pending, (keeps_settle _).cancelled⟩

theorem keeps_batch (count : Option Int) : m.Keeps (m.batch count).1 := by
  rw [batch_fst]
  split
  · exact m.keeps_after 1
  · exact m.keeps_after _

theorem releases_cancelPending : m.Releases m.cancelPending :=
  ⟨m.pending_cancelPending, m.cancelled_cancelPending⟩

theorem releases_reset (rewind : Bool) : m.Releases (m.reset rewind) :=
  ⟨m.pending_cancelPending, m.cancelled_cancelPending⟩

theorem releases_install (program : Program) (input : Array UInt8) :
    m.Releases (m.install program input) :=
  let installed := { m with core := .install m.tapeSize program input }
  ⟨installed.pending_cancelPending, installed.cancelled_cancelPending⟩

theorem releases_load (source input : Text) : m.Releases (m.load source input) :=
  m.releases_install _ _

theorem releases_pause : m.Releases m.pause :=
  ⟨m.pending_pause, m.cancelled_pause⟩

end

/-- A batch goes on exactly as long as the machine has not halted. -/
theorem batch_snd (m : Machine) (count : Option Int) :
    (m.batch count).2 = !(m.batch count).1.core.halted := by
  rw [batch]
  cases h : m.core.halted with
  | true => simp [h]
  | false =>
      simp only [Bool.false_eq_true, if_false]
      rw [steps_snd h, steps_fst, core_after]

/-- Steps that do not end the run leave the machine running or not as it was. -/
theorem runState_after {m : Machine} {n : Nat} (h : (m.core.after n).halted = false) :
    (m.after n).runState = m.runState := by
  cases n with
  | zero => rfl
  | succ n => rw [after_of_pos (Nat.succ_pos n), settle_of_running h]

theorem runState_batch {m : Machine} {count : Option Int}
    (h : (m.batch count).1.core.halted = false) : (m.batch count).1.runState = m.runState := by
  rw [batch_fst] at h ⊢
  split at h
  · next halted =>
      rw [core_after] at h
      rw [if_pos halted, runState_after h]
  · next halted =>
      rw [core_after] at h
      rw [if_neg halted, runState_after h]

end Machine

/-- What an action does with the handle that is parked: it keeps it, it makes
steps and keeps it, it cancels it, or it puts another in its place. -/
inductive Hold
  | keeps
  | steps
  | releases
  | replaces
  deriving DecidableEq

def Action.hold : Action → Hold
  | .start | .setDelay _ | .setSteps _ => .keeps
  | .step | .batch _ | .run _ => .steps
  | .load _ _ | .reset _ | .pause | .cancelPending => .releases
  | .park _ => .replaces

/-- What a hold says of a machine before and after. Only steps can stop a running
machine and leave its handle parked. -/
def Hold.Relates (m m' : Machine) : Hold → Prop
  | keeps => m.Keeps m' ∧ (m'.runState = m.runState ∨ m'.runState = .running)
  | steps => m.Keeps m'
  | releases => m.Releases m'
  | replaces => True

theorem Machine.perform_hold {m m' : Machine} {action : Action} {answer : Except Refusal Reply}
    (h : m.perform action = some (m', answer)) : action.hold.Relates m m' := by
  cases action with
  | load source input =>
      cases h
      exact m.releases_load source input
  | reset rewind =>
      cases h
      exact m.releases_reset rewind
  | step =>
      cases h
      exact m.keeps_after 1
  | batch count =>
      simp only [perform, batchOf] at h
      split at h
      · next count _ =>
          cases h
          exact m.keeps_batch count
      · split at h
        · cases h
          exact m.keeps_settle
        · cases h
          exact ⟨rfl, rfl⟩
  | run limit =>
      simp only [perform, runOf] at h
      split at h
      · cases h
        exact ⟨rfl, rfl⟩
      · next limit _ =>
          cases h
          rw [runFor_fst]
          exact m.keeps_after limit
      · rw [run_eq] at h
        simp only at h
        split at h
        · cases h
          exact m.keeps_after _
        · cases h
  | start =>
      cases h
      exact ⟨⟨rfl, rfl⟩, Or.inr rfl⟩
  | pause =>
      cases h
      exact m.releases_pause
  | cancelPending =>
      cases h
      exact m.releases_cancelPending
  | setDelay value =>
      simp only [perform, setDelay] at h
      cases hdelay : delayOf value <;>
        rw [hdelay] at h <;> cases h <;> exact ⟨⟨rfl, rfl⟩, Or.inl rfl⟩
  | setSteps value =>
      simp only [perform, setSteps] at h
      cases hsteps : stepsOf value <;>
        rw [hsteps] at h <;> cases h <;> exact ⟨⟨rfl, rfl⟩, Or.inl rfl⟩
  | park handle => trivial

/-- Only steps can fail to come to an end. -/
theorem Machine.hold_of_perform_eq_none {m : Machine} {action : Action}
    (h : m.perform action = none) : action.hold = .steps := by
  cases action with
  | step | batch | run => rfl
  | load | reset | start | pause | cancelPending | park => cases h
  | setDelay value =>
      rw [perform] at h
      split at h <;> cases h
  | setSteps value =>
      rw [perform] at h
      split at h <;> cases h

/-- What a host knows of the ticks of its pacer: the machine that parks and cancels
them, the numbers of those in its queue, and how many it has ever scheduled. -/
structure Ledger where
  machine : Machine
  queued : List Nat
  scheduled : Nat

namespace Ledger

/-- Another machine, whose cancelled ticks leave the queue. -/
def setMachine (l : Ledger) (m : Machine) : Ledger :=
  { l with
    machine := m
    queued := l.queued.filter fun id => !m.cancelled.contains (.tick id) }

/-- One more tick at the end of the queue, parked on the machine. -/
def schedule (l : Ledger) : Ledger :=
  { machine := l.machine.park (.tick l.scheduled)
    queued := l.queued ++ [l.scheduled]
    scheduled := l.scheduled + 1 }

/-- What a tick does first: whatever was parked is forgotten. -/
def forget (l : Ledger) : Ledger :=
  { l with machine := { l.machine with pending := none } }

/-- Every tick ever scheduled is accounted for once: as fired, as cancelled or as
still in the queue. -/
def Accounts (l : Ledger) (fired : List Nat) : Prop :=
  ∀ id, fired.count id + l.machine.cancelled.count (.tick id) + l.queued.count id =
    if id < l.scheduled then 1 else 0

/-- No tick is queued and nothing parked. -/
structure Clear (l : Ledger) : Prop where
  queued : l.queued = []
  pending : l.machine.pending = none

/-- One tick is queued, and it is the one that is parked. -/
structure Awaits (l : Ledger) (id : Nat) : Prop where
  queued : l.queued = [id]
  pending : l.machine.pending = some (.tick id)

/-- What holds between two operations that lose no tick. -/
structure Settled (l : Ledger) (fired : List Nat) : Prop where
  accounts : l.Accounts fired
  mode : l.Clear ∨ ∃ id, l.Awaits id

/-- Nothing is parked on a machine that is not running. -/
def Steady (l : Ledger) : Prop :=
  l.machine.runState ≠ .running → l.machine.pending = none

variable {l : Ledger} {fired : List Nat} {m : Machine}

theorem Accounts.live (h : l.Accounts fired) {id : Nat} (queued : id ∈ l.queued) :
    .tick id ∉ l.machine.cancelled := by
  intro cancelled
  have once := h id
  have inQueue : 0 < l.queued.count id := List.count_pos_iff.2 queued
  have dropped : 0 < l.machine.cancelled.count (.tick id) := List.count_pos_iff.2 cancelled
  split at once <;> omega

theorem Accounts.lt_scheduled (h : l.Accounts fired) {id : Nat} (queued : id ∈ l.queued) :
    id < l.scheduled := by
  by_contra beyond
  have once := h id
  have inQueue : 0 < l.queued.count id := List.count_pos_iff.2 queued
  rw [if_neg beyond] at once
  omega

/-- As long as nothing more is cancelled, another machine leaves the queue as it
is. -/
theorem Accounts.setMachine_eq (h : l.Accounts fired) (kept : m.cancelled = l.machine.cancelled) :
    l.setMachine m = { l with machine := m } := by
  have all : l.queued.filter (fun id => !m.cancelled.contains (.tick id)) = l.queued := by
    rw [List.filter_eq_self]
    intro id queued
    simpa [kept] using h.live queued
  rw [setMachine, all]

theorem Accounts.setMachine (h : l.Accounts fired) (kept : m.cancelled = l.machine.cancelled) :
    (l.setMachine m).Accounts fired := by
  rw [h.setMachine_eq kept]
  intro id
  have once := h id
  rwa [← kept] at once

theorem Clear.setMachine (h : l.Clear) (pending : m.pending = none) : (l.setMachine m).Clear :=
  ⟨by rw [Ledger.setMachine, h.queued, List.filter_nil], pending⟩

theorem Settled.keep (h : l.Settled fired) (kept : l.machine.Keeps m) :
    (l.setMachine m).Settled fired where
  accounts := h.accounts.setMachine kept.cancelled
  mode := by
    rw [h.accounts.setMachine_eq kept.cancelled]
    rcases h.mode with clear | ⟨id, awaits⟩
    · exact Or.inl ⟨clear.queued, kept.pending.trans clear.pending⟩
    · exact Or.inr ⟨id, awaits.queued, kept.pending.trans awaits.pending⟩

theorem Settled.clear_release (h : l.Settled fired) (released : l.machine.Releases m) :
    (l.setMachine m).Clear := by
  rcases h.mode with clear | ⟨id, awaits⟩
  · exact clear.setMachine released.pending
  · refine ⟨?_, released.pending⟩
    simp [setMachine, awaits.queued, released.cancelled, awaits.pending]

/-- What is cancelled moves from the queue to the cancelled ticks. -/
theorem Settled.release (h : l.Settled fired) (released : l.machine.Releases m) :
    (l.setMachine m).Settled fired where
  accounts := by
    rcases h.mode with clear | ⟨id, awaits⟩
    · refine h.accounts.setMachine ?_
      simp [released.cancelled, clear.pending]
    · intro other
      have once := h.accounts other
      have empty := (h.clear_release released).queued
      have cancelled : (l.setMachine m).machine.cancelled = .tick id :: l.machine.cancelled := by
        simp [setMachine, released.cancelled, awaits.pending]
      rw [awaits.queued] at once
      rw [empty, cancelled]
      change _ = if other < l.scheduled then 1 else 0
      rw [← once]
      by_cases same : id = other
      · subst same
        rw [List.count_cons_self, List.count_singleton_self, List.count_nil]
        omega
      · have apart : (Handle.tick id) ≠ .tick other := fun equal => same (Handle.tick.inj equal)
        simp [List.count_cons_of_ne apart, same]
  mode := Or.inl (h.clear_release released)

/-- A tick that is scheduled while none is parked is the one to wait for. -/
theorem Clear.awaits_schedule (h : l.Clear) : l.schedule.Awaits l.scheduled :=
  ⟨by rw [schedule, h.queued, List.nil_append], rfl⟩

theorem Clear.settled_schedule (h : l.Clear) (accounts : l.Accounts fired) :
    l.schedule.Settled fired where
  accounts := by
    intro id
    have once := accounts id
    change fired.count id + l.machine.cancelled.count (.tick id) +
      (l.queued ++ [l.scheduled]).count id = if id < l.scheduled + 1 then 1 else 0
    rw [List.count_append]
    by_cases same : l.scheduled = id
    · subst same
      rw [if_neg (Nat.lt_irrefl _)] at once
      rw [if_pos (Nat.lt_succ_self _), List.count_singleton_self]
      omega
    · have apart : [l.scheduled].count id = 0 := by
        rw [List.count_singleton]
        simp [same]
      have before : id < l.scheduled + 1 ↔ id < l.scheduled := by omega
      rw [apart, Nat.add_zero]
      simpa only [before] using once
  mode := Or.inr ⟨l.scheduled, h.awaits_schedule⟩

/-- The tick that is waited for is fired and no longer queued. -/
theorem Awaits.accounts_fire {id : Nat} (h : l.Awaits id) (accounts : l.Accounts fired) :
    { l with queued := [] }.Accounts (id :: fired) := by
  intro other
  have once := accounts other
  rw [h.queued] at once
  change (id :: fired).count other + l.machine.cancelled.count (.tick other) + 0 =
    if other < l.scheduled then 1 else 0
  rw [← once, List.count_cons, List.count_singleton]
  omega

end Ledger

end TapeMachine
