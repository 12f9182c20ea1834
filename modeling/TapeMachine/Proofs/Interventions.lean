import TapeMachine.Proofs.Callbacks

/-!
What a bench goes through from outside. The pacer is started and paused, ticks are
fired, and actions are carried out on the machine, in any order. As long as no
action steps the machine by hand, every tick is fired once, cancelled once or still
waited for, and what is queued can be taken back by a pause or a reset.
-/

namespace TapeMachine

namespace Move

/-- Whether a move leaves the ticks to the pacer: it starts no pacer and parks
nothing. -/
def Defers : Move → Prop
  | .start | .perform (.park _) => False
  | _ => True

theorem Defers.parks? {move : Move} (h : move.Defers) : move.parks? false = some false := by
  cases move with
  | start => cases h
  | pause | install | reset | faster => rfl
  | perform action =>
      cases action with
      | park => cases h
      | load | reset | step | batch | run | start | pause => rfl
      | cancelPending | setDelay | setSteps => rfl

theorem allPark?_of_defers {moves : List Move} (h : ∀ move ∈ moves, move.Defers) :
    allPark? moves = some false := by
  induction moves with
  | nil => rfl
  | cons move moves ih =>
      have rest := ih fun other member => h other (List.mem_cons_of_mem _ member)
      rw [allPark?, List.foldlM_cons, (h move List.mem_cons_self).parks?]
      exact rest

end Move

namespace Callback

/-- Whether a callback leaves the ticks to the pacer that calls it. -/
def Defers (c : Callback) : Prop :=
  ∀ entry ∈ c.script, ∀ move ∈ entry.2, move.Defers

theorem Defers.clears {c : Callback} (h : c.Defers) : c.Clears :=
  fun entry member => Move.allPark?_of_defers (h entry member)

theorem Clears.minds {c : Callback} (h : c.Clears) : c.Minds :=
  fun entry member => ⟨false, h entry member⟩

end Callback

namespace Bench

/-- What can be done to a bench from outside of a tick. -/
inductive Intervention
  | start
  | pause
  | fire
  | perform (action : Action)

/-- The bench after an intervention. It stays as it was where no tick is queued that
could be fired, and where an action has no outcome. -/
def intervene (b : Bench) : Intervention → Bench
  | .start => b.start
  | .pause => b.pause
  | .fire => b.fire?.getD b
  | .perform action => (b.perform action).elim b Prod.fst

/-- The number of the tick that an intervention fires. -/
def firing? (b : Bench) : Intervention → Option Nat
  | .fire => b.queue.head?.map Ticket.id
  | _ => none

/-- The numbers of the ticks that interventions fire, latest first. -/
def firings (b : Bench) : List Intervention → List Nat
  | [] => []
  | intervention :: rest =>
    (b.intervene intervention).firings rest ++ (b.firing? intervention).toList

/-- Whether an intervention makes no step by hand and parks nothing. -/
def Intervention.IsHandsOff : Intervention → Prop
  | .perform action => action.hold = .keeps ∨ action.hold = .releases
  | _ => True

/-- Whether the ticks of a bench can be taken back: at most one is queued, and a
pause or a reset leaves none. -/
structure Recallable (b : Bench) : Prop where
  queue : b.queue.length ≤ 1
  pause : b.pause.queue = []
  reset : ∀ rewind, (b.setMachine (b.machine.reset rewind)).queue = []

section

variable {b : Bench} {fired : List Nat}

theorem queue_of_clear (h : b.ledger.Clear) : b.queue = [] :=
  List.map_eq_nil_iff.1 h.queued

theorem Accounted.recallable (h : b.Accounted fired) : b.Recallable where
  queue := by
    rcases h.settled.mode with clear | ⟨id, awaits⟩
    · rw [queue_of_clear clear]
      exact Nat.zero_le 1
    · obtain ⟨ticket, queue, _⟩ := List.map_eq_singleton_iff.1 awaits.queued
      rw [queue]
      exact Nat.le_refl 1
  pause := queue_of_clear ((h.release b.machine.releases_pause false).clear rfl)
  reset := by
    intro rewind
    exact queue_of_clear ((h.release (b.machine.releases_reset rewind) false).clear rfl)

/-- The tick that is fired is the one that was parked, if any. -/
theorem Accounted.sound_fire (h : b.Accounted fired) :
    (b.intervene .fire).Sound ((b.firing? .fire).toList ++ fired) := by
  rw [intervene, fire?, firing?]
  rcases h.settled.mode with clear | ⟨id, awaits⟩
  · rw [queue_of_clear clear]
    exact h.sound_of_clear h.settled.accounts clear
  · obtain ⟨ticket, queue, rfl⟩ := List.map_eq_singleton_iff.1 awaits.queued
    rw [queue]
    let d : Bench := { b with queue := [] }
    have tame : d.Tame := ⟨h.onTick, h.onHalt⟩
    obtain ⟨start, hpacer, hstart⟩ := exists_pacer_eq d.depth (ticket.id :: fired)
    change ((pacer d.depth).tick d).Sound (ticket.id :: fired)
    rw [hpacer]
    exact tame.sound_tick hstart (awaits.accounts_fire h.settled.accounts) rfl

theorem Sound.start (h : b.Sound fired) : b.start.Sound fired :=
  h.start_pacer b.depth

theorem Sound.intervene (h : b.Sound fired) {intervention : Intervention}
    (handsOff : intervention.IsHandsOff) :
    (b.intervene intervention).Sound ((b.firing? intervention).toList ++ fired) := by
  cases intervention with
  | start => exact h.start
  | pause => exact (h.release b.machine.releases_pause false).toSound
  | fire => exact h.sound_fire
  | perform action =>
      have within : b.Within fired true := { h with clear := fun no => by cases no }
      have parks : ∃ after, (Move.perform action).parks? true = some after := by
        rw [Move.parks?]
        rcases handsOff with keeps | releases
        · exact ⟨true, by rw [keeps]⟩
        · exact ⟨false, by rw [releases]⟩
      obtain ⟨after, parks⟩ := parks
      have unmoved (d : Bench) (sound : d.Sound fired) : (id d).Sound fired := sound
      exact (within.move unmoved parks).toSound

theorem Sound.foldl_intervene (h : b.Sound fired) {interventions : List Intervention}
    (handsOff : ∀ intervention ∈ interventions, intervention.IsHandsOff) :
    (interventions.foldl Bench.intervene b).Sound (b.firings interventions ++ fired) := by
  induction interventions generalizing b fired with
  | nil => exact h
  | cons intervention rest ih =>
      rw [firings, List.append_assoc, List.foldl_cons]
      exact ih (h.intervene (handsOff intervention List.mem_cons_self)) fun other member =>
        handsOff other (List.mem_cons_of_mem _ member)

/-- A tick that comes while the machine does not run does nothing. -/
theorem Sound.tick_of_stopped (h : b.Sound fired) (stopped : b.machine.runState ≠ .running) :
    b.tick = b := by
  have clear := h.clear_of_stopped stopped
  obtain ⟨start, hpacer, _⟩ := exists_pacer_eq b.depth fired
  have nothing : b.machine.pending = none := clear.pending
  have same : { b.machine with pending := none } = b.machine := by rw [← nothing]
  rw [tick, hpacer, Pacer.tick_of_stopped stopped]
  change b.setMachine { b.machine with pending := none } = b
  rw [same, setMachine, queue_of_clear clear, List.filter_nil, ← queue_of_clear clear]

end

section

variable {m : Machine} {onTick onHalt : Option Callback}

/-- A bench is sound that starts out with no tick. -/
theorem sound_ofMachine (pending : m.pending = none) (cancelled : m.cancelled = [])
    (hTick : ∀ c ∈ onTick, c.Clears) (hHalt : ∀ c ∈ onHalt, c.Minds) :
    (ofMachine m onTick onHalt).Sound [] := by
  have tame : (ofMachine m onTick onHalt).Tame := ⟨hTick, hHalt⟩
  refine tame.sound_of_clear ?_ ⟨rfl, pending⟩
  intro id
  simp [ledger, ofMachine, cancelled]

/-- Whatever the callbacks do but start the pacer or park something, and whatever is
done from outside but steps by hand: at most one tick is queued, it is the one that
is parked, and then the machine runs; every tick ever scheduled is fired once,
cancelled once or queued; and while the machine does not run, calling back for any
of them does nothing. -/
theorem every_tick_once (pending : m.pending = none) (cancelled : m.cancelled = [])
    (hTick : ∀ c ∈ onTick, c.Defers) (hHalt : ∀ c ∈ onHalt, c.Defers)
    {interventions : List Intervention}
    (handsOff : ∀ intervention ∈ interventions, intervention.IsHandsOff) :
    let b := ofMachine m onTick onHalt
    let d := interventions.foldl intervene b
    ((d.queue = [] ∧ d.machine.pending = none) ∨
        ∃ ticket, d.queue = [ticket] ∧ d.machine.pending = some (.tick ticket.id) ∧
          d.machine.runState = .running) ∧
      (∀ id, (b.firings interventions).count id + d.machine.cancelled.count (.tick id) +
        (d.queue.map Ticket.id).count id = if id < d.scheduled then 1 else 0) ∧
      (d.machine.runState ≠ .running → ∀ id < d.scheduled, d.replay? id = some d) := by
  intro b d
  have fresh : b.Sound [] := sound_ofMachine pending cancelled (fun c hc => (hTick c hc).clears)
    fun c hc => (hHalt c hc).clears.minds
  have sound : d.Sound (b.firings interventions) := by
    have reached := fresh.foldl_intervene handsOff
    rwa [List.append_nil] at reached
  refine ⟨?_, sound.settled.accounts, ?_⟩
  · rcases sound.settled.mode with clear | ⟨id, awaits⟩
    · exact Or.inl ⟨queue_of_clear clear, clear.pending⟩
    · obtain ⟨ticket, queue, rfl⟩ := List.map_eq_singleton_iff.1 awaits.queued
      refine Or.inr ⟨ticket, queue, awaits.pending, ?_⟩
      by_contra stopped
      have nothing := sound.steady stopped
      rw [awaits.pending] at nothing
      cases nothing
  · intro stopped id made
    have numbered : (0 : Int) ≤ id ∧ (id : Int) < d.scheduled := by omega
    rw [replay?, if_pos numbered, sound.tick_of_stopped stopped]

/-- The first tick is fired and its callback pauses the pacer; the second one, from
the next start, is cancelled by a reset. Neither does anything after that. -/
theorem every_tick_once_pause_reset :
    let m := (Machine.blank 1).load (Text.ofString "+[]") []
    let onTick : Callback := ⟨0, [(1, [.perform (.setSteps (.int 2))]), (2, [.pause])]⟩
    let interventions : List Intervention := [.start, .fire, .start, .perform (.reset false)]
    let b := ofMachine m (some onTick) none
    let d := interventions.foldl intervene b
    onTick.Defers ∧ (∀ intervention ∈ interventions, intervention.IsHandsOff) ∧
      d.scheduled = 2 ∧ b.firings interventions = [0] ∧ d.machine.cancelled = [.tick 1] ∧
      d.queue = [] ∧ d.replay? 0 = some d ∧ d.replay? 1 = some d := by
  intro m onTick interventions b d
  have defers : onTick.Defers := by
    simp [Callback.Defers, onTick, Move.Defers]
  have handsOff : ∀ intervention ∈ interventions, intervention.IsHandsOff := by
    simp [interventions, Intervention.IsHandsOff, Action.hold]
  have tickDefers : ∀ c ∈ some onTick, c.Defers := fun c hc => Option.some.inj hc ▸ defers
  have noHalt : ∀ c ∈ (none : Option Callback), c.Defers := fun c hc => nomatch hc
  obtain ⟨_, _, replays⟩ := every_tick_once (m := m) rfl rfl tickDefers noHalt handsOff
  have stopped : d.machine.runState ≠ .running := by decide
  have scheduled : d.scheduled = 2 := by decide
  refine ⟨defers, handsOff, scheduled, by decide, by decide, ?_, ?_, ?_⟩
  · exact List.map_eq_nil_iff.1 (by decide : d.queue.map Ticket.id = [])
  · exact replays stopped 0 (by rw [scheduled]; decide)
  · exact replays stopped 1 (by rw [scheduled]; decide)

/-- However deep callbacks start the pacer again from within ticks: the ticks can be
taken back as long as every call of the first callback that starts the pacer also
stops it, and the machine is never stepped by hand while a tick may be parked. -/
theorem recallable_of_clears (pending : m.pending = none) (cancelled : m.cancelled = [])
    (hTick : ∀ c ∈ onTick, c.Clears) (hHalt : ∀ c ∈ onHalt, c.Minds)
    {interventions : List Intervention}
    (handsOff : ∀ intervention ∈ interventions, intervention.IsHandsOff) :
    (interventions.foldl intervene (ofMachine m onTick onHalt)).Recallable :=
  ((sound_ofMachine pending cancelled hTick hHalt).foldl_intervene handsOff).recallable

/-- The first call of the first callback starts the pacer and pauses it again, after
two more ticks within it; the second callback restarts the program twice, and the
second time it is within the last tick. -/
theorem recallable_of_clears_restart :
    let m := (Machine.blank 1).load (Text.ofString "++") []
    let onTick : Callback := ⟨0, [(1, [.pause, .start, .pause])]⟩
    let restart : List Move := [.install m.core.program #[], .start]
    let onHalt : Callback := ⟨0, [(1, restart), (2, restart)]⟩
    let d := [.start, .start].foldl intervene (ofMachine m (some onTick) (some onHalt))
    onTick.Clears ∧ onHalt.Minds ∧ d.queue.map Ticket.id = [1] ∧ d.Recallable := by
  intro m onTick restart onHalt d
  have clears : onTick.Clears := by
    intro entry member
    obtain rfl := List.mem_singleton.1 member
    rfl
  have minds : onHalt.Minds := by
    intro entry member
    refine ⟨true, ?_⟩
    rcases List.mem_pair.1 member with rfl | rfl <;> rfl
  have recallable : d.Recallable :=
    recallable_of_clears (m := m) rfl rfl (fun c hc => Option.some.inj hc ▸ clears)
      (fun c hc => Option.some.inj hc ▸ minds) fun intervention member => by
        rcases List.mem_pair.1 member with rfl | rfl <;> trivial
  exact ⟨clears, minds, by decide, recallable⟩

/-- A restart within a tick that goes on queues two ticks, and the second one takes
the place of the first: a reset leaves the first in the queue. -/
theorem restart_within_tick_queues_two :
    let m := (Machine.blank 1).load (Text.ofString "++") []
    let onTick : Callback := ⟨0, [(1, [.install m.core.program #[], .start])]⟩
    let d := (ofMachine m (some onTick) none).start
    d.queue.map Ticket.id = [0, 1] ∧
      (d.setMachine (d.machine.reset false)).queue.map Ticket.id = [0] ∧ ¬d.Recallable := by
  intro m onTick d
  have two : d.queue.map Ticket.id = [0, 1] := by decide
  refine ⟨two, by decide, ?_⟩
  intro recallable
  have one := recallable.queue
  rw [← List.length_map Ticket.id, two] at one
  exact absurd one (by decide)

end

end Bench

end TapeMachine
