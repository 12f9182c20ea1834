import TapeMachine.Proofs.Interventions
import TapeMachine.Proofs.Pacing

/-!
How a tick goes astray where callbacks only observe. A step by hand can stop the
machine while a tick is parked; a start then forgets that tick without cancelling
it, and nothing but its own firing takes it out of the queue again. There is no
other way.
-/

namespace TapeMachine

namespace Ledger

/-- A tick in the queue that nothing can cancel any more, since it is not parked. -/
structure Stray (l : Ledger) (id : Nat) : Prop where
  queued : id ∈ l.queued
  live : .tick id ∉ l.machine.cancelled
  astray : l.machine.pending ≠ some (.tick id)
  scheduled : id < l.scheduled

variable {l : Ledger} {id : Nat} {m : Machine}

theorem Stray.setMachine (h : l.Stray id) (live : .tick id ∉ m.cancelled)
    (astray : m.pending ≠ some (.tick id)) : (l.setMachine m).Stray id where
  queued := List.mem_filter.2 ⟨h.queued, by simpa using live⟩
  live := live
  astray := astray
  scheduled := h.scheduled

theorem Stray.keep (h : l.Stray id) (kept : l.machine.Keeps m) : (l.setMachine m).Stray id := by
  refine h.setMachine ?_ ?_
  · rw [kept.cancelled]
    exact h.live
  · rw [kept.pending]
    exact h.astray

theorem Stray.release (h : l.Stray id) (released : l.machine.Releases m) :
    (l.setMachine m).Stray id := by
  refine h.setMachine ?_ (by simp [released.pending])
  rw [released.cancelled, List.mem_append]
  rintro (parked | before)
  · exact h.astray (Option.mem_toList.1 parked)
  · exact h.live before

theorem Stray.schedule (h : l.Stray id) : l.schedule.Stray id where
  queued := List.mem_append_left _ h.queued
  live := h.live
  astray := by
    intro parked
    have same : l.scheduled = id := Handle.tick.inj (Option.some.inj parked)
    exact Nat.ne_of_gt h.scheduled same
  scheduled := Nat.lt_succ_of_lt h.scheduled

end Ledger

namespace Bench

/-- Whether the callbacks of a bench, if there are any, only observe. -/
structure Passive (b : Bench) : Prop where
  onTick : ∀ c ∈ b.onTick, c.Observes
  onHalt : ∀ c ∈ b.onHalt, c.Observes

/-- Whether a tick is parked on a machine that does not run. -/
def Stranded (b : Bench) : Prop :=
  b.machine.runState ≠ .running ∧ b.machine.pending ≠ none

/-- Whether an intervention puts nothing in the place of a parked tick. -/
def Intervention.ParksNothing : Intervention → Prop
  | .perform action => action.hold ≠ .replaces
  | _ => True

theorem Passive.tame {b : Bench} (h : b.Passive) : b.Tame := by
  have clears {c : Callback} (observes : c.Observes) : c.Clears := by
    intro entry member
    rw [observes entry member]
    rfl
  exact ⟨fun c hc => clears (h.onTick c hc), fun c hc => (clears (h.onHalt c hc)).minds⟩

section

variable {b : Bench} {fired : List Nat}

theorem Passive.setMachine (h : b.Passive) (m : Machine) : (b.setMachine m).Passive :=
  ⟨h.onTick, h.onHalt⟩

theorem Passive.call (h : b.Passive) (start : Bench → Bench) (occasion : Occasion) :
    (Bench.call occasion start b).Passive ∧ (Bench.call occasion start b).ledger = b.ledger := by
  rw [Bench.call]
  cases hc : b.callback? occasion with
  | none => exact ⟨h, rfl⟩
  | some c =>
      have observes : c.Observes := by
        cases occasion with
        | tick => exact h.onTick c hc
        | halt => exact h.onHalt c hc
      have still : ({ c with calls := c.calls + 1 } : Callback).moves = [] :=
        Callback.Observes.moves observes
      simp only [still, List.foldl_nil]
      cases occasion with
      | tick => exact ⟨⟨fun d hd => Option.some.inj hd ▸ observes, h.onHalt⟩, rfl⟩
      | halt => exact ⟨⟨h.onTick, fun d hd => Option.some.inj hd ▸ observes⟩, rfl⟩

/-- A tick keeps callbacks that only observe, and leaves astray what was so when it
came. -/
theorem Passive.tick (h : b.Passive) (start : Bench → Bench) :
    ((pacerWith start).tick b).Passive ∧
      ∀ id, b.ledger.forget.Stray id → ((pacerWith start).tick b).ledger.Stray id := by
  have f := follows_ledger start
  by_cases running : b.machine.runState = .running
  · let s := (pacerWith start).stepped b
    let t := Bench.call .tick start s
    have passive : s.Passive := h.setMachine _
    obtain ⟨called, same⟩ : t.Passive ∧ t.ledger = s.ledger := passive.call start .tick
    have left (id : Nat) (stray : b.ledger.forget.Stray id) : t.ledger.Stray id := by
      rw [same, f.ledger_stepped]
      exact stray.keep (Machine.keeps_batch _ none)
    rw [f.tick_of_running running]
    simp only
    split
    · obtain ⟨last, ended⟩ := (called.setMachine t.machine.pause).call start .halt
      refine ⟨last, fun id stray => ?_⟩
      have paused := (left id stray).release t.machine.releases_pause
      rw [← ledger_setMachine, ← ended] at paused
      exact paused
    · split
      · refine ⟨⟨called.onTick, called.onHalt⟩, fun id stray => ?_⟩
        rw [f.schedule]
        exact (left id stray).schedule
      · exact ⟨called, left⟩
  · rw [Pacer.tick_of_stopped running]
    refine ⟨h.setMachine _, fun id stray => ?_⟩
    rw [f.setMachine]
    exact stray.setMachine stray.live stray.astray

theorem Passive.start (h : b.Passive) : b.start.Passive := by
  obtain ⟨start, hpacer, _⟩ := exists_pacer_eq b.depth []
  rw [Bench.start, hpacer]
  by_cases running : b.machine.runState = .running
  · rw [Pacer.start_of_running running]
    exact h
  · rw [Pacer.start_of_stopped running]
    exact ((h.setMachine b.machine.start).tick start).1

theorem Passive.intervene (h : b.Passive) (intervention : Intervention) :
    (b.intervene intervention).Passive := by
  cases intervention with
  | start => exact h.start
  | pause => exact ⟨h.onTick, h.onHalt⟩
  | fire =>
      rw [Bench.intervene, fire?]
      cases b.queue with
      | nil => exact h
      | cons ticket rest =>
          let d : Bench := { b with queue := rest }
          obtain ⟨start, hpacer, _⟩ := exists_pacer_eq d.depth []
          change ((pacer d.depth).tick d).Passive
          rw [hpacer]
          have kept : d.Passive := ⟨h.onTick, h.onHalt⟩
          exact (kept.tick start).1
  | perform action =>
      rw [Bench.intervene, perform]
      cases b.machine.perform action with
      | none => exact h
      | some outcome => exact ⟨h.onTick, h.onHalt⟩

/-- Only a start that finds a tick parked on a stopped machine can lose one. -/
theorem Accounted.intervene (h : b.Accounted fired) {intervention : Intervention}
    (parks : intervention.ParksNothing) (keeps : intervention = .start → ¬b.Stranded) :
    ∃ fired, (b.intervene intervention).Accounted fired := by
  cases intervention with
  | start =>
      have steady : b.ledger.Steady := by
        intro stopped
        by_contra parked
        exact keeps rfl ⟨stopped, parked⟩
      have sound : b.Sound fired := { h with steady }
      exact ⟨fired, sound.start.toAccounted⟩
  | pause => exact ⟨fired, (h.release b.machine.releases_pause false).toAccounted⟩
  | fire => exact ⟨_, h.sound_fire.toAccounted⟩
  | perform action =>
      refine ⟨fired, ?_⟩
      rw [Bench.intervene, perform]
      cases result : b.machine.perform action with
      | none => exact h
      | some outcome =>
          obtain ⟨m, answer⟩ := outcome
          have relates := Machine.perform_hold result
          change (b.setMachine m).Accounted fired
          cases hold : action.hold with
          | keeps =>
              rw [hold] at relates
              exact h.keep relates.1
          | steps =>
              rw [hold] at relates
              exact h.keep relates
          | releases =>
              rw [hold] at relates
              exact (h.release relates false).toAccounted
          | replaces => exact absurd hold parks

theorem not_recallable_of_stray {id : Nat} (h : b.ledger.Stray id) : ¬b.Recallable := by
  intro recallable
  have left := (h.release b.machine.releases_pause).queued
  rw [← ledger_setMachine] at left
  obtain ⟨ticket, queued, _⟩ := List.mem_map.1 left
  have none : (b.setMachine b.machine.pause).queue = [] := recallable.pause
  rw [none] at queued
  cases queued

/-- A start on a stopped machine sends the tick that is parked on it astray. -/
theorem Accounted.not_recallable_start (h : b.Accounted fired) (passive : b.Passive)
    (stranded : b.Stranded) : ¬b.start.Recallable := by
  obtain ⟨stopped, parked⟩ := stranded
  rcases h.settled.mode with clear | ⟨id, awaits⟩
  · exact absurd clear.pending parked
  · let d : Bench := b.setMachine b.machine.start
    have same : d.ledger = { b.ledger with machine := b.machine.start } := by
      rw [ledger_setMachine]
      exact h.settled.accounts.setMachine_eq rfl
    have queued : id ∈ b.ledger.queued := by
      rw [awaits.queued]
      exact List.mem_singleton_self id
    have stray : d.ledger.forget.Stray id := by
      rw [same]
      exact
        { queued := queued
          live := h.settled.accounts.live queued
          astray := by simp [Ledger.forget]
          scheduled := h.settled.accounts.lt_scheduled queued }
    obtain ⟨start, hpacer, _⟩ := exists_pacer_eq b.depth fired
    have left : b.start.ledger.Stray id := by
      rw [Bench.start, hpacer, Pacer.start_of_stopped stopped]
      exact ((passive.setMachine b.machine.start).tick start).2 id stray
    exact not_recallable_of_stray left

theorem Accounted.recallable_iff (h : b.Accounted fired) (passive : b.Passive)
    {interventions : List Intervention}
    (parks : ∀ intervention ∈ interventions, intervention.ParksNothing) :
    (∀ before, before <+: interventions → (before.foldl Bench.intervene b).Recallable) ↔
      ∀ before, before ++ [.start] <+: interventions →
        ¬(before.foldl Bench.intervene b).Stranded := by
  induction interventions generalizing b fired with
  | nil =>
      constructor
      · intro _ before isPrefix
        simp at isPrefix
      · intro _ before isPrefix
        rw [List.prefix_nil.1 isPrefix]
        exact h.recallable
  | cons intervention rest ih =>
      have next (keeps : intervention = .start → ¬b.Stranded) :
          (∀ before, before <+: rest →
              (before.foldl Bench.intervene (b.intervene intervention)).Recallable) ↔
            ∀ before, before ++ [.start] <+: rest →
              ¬(before.foldl Bench.intervene (b.intervene intervention)).Stranded := by
        obtain ⟨fired, after⟩ := h.intervene (parks intervention List.mem_cons_self) keeps
        exact ih after (passive.intervene intervention) fun other member =>
          parks other (List.mem_cons_of_mem _ member)
      constructor
      · intro recallable
        have keeps : intervention = .start → ¬b.Stranded := by
          rintro rfl stranded
          exact h.not_recallable_start passive stranded
            (recallable [.start] (List.cons_prefix_cons.2 ⟨rfl, List.nil_prefix⟩))
        intro before isPrefix
        cases before with
        | nil => exact keeps (List.cons_prefix_cons.1 isPrefix).1.symm
        | cons first before =>
            obtain ⟨rfl, inRest⟩ := List.cons_prefix_cons.1 isPrefix
            exact (next keeps).1 (fun other ofRest => recallable (first :: other)
              (List.cons_prefix_cons.2 ⟨rfl, ofRest⟩)) before inRest
      · intro unstranded
        have keeps : intervention = .start → ¬b.Stranded := by
          rintro rfl
          exact unstranded [] (List.cons_prefix_cons.2 ⟨rfl, List.nil_prefix⟩)
        intro before isPrefix
        cases before with
        | nil => exact h.recallable
        | cons first before =>
            obtain ⟨rfl, inRest⟩ := List.cons_prefix_cons.1 isPrefix
            exact (next keeps).2 (fun other ofRest => unstranded (first :: other)
              (List.cons_prefix_cons.2 ⟨rfl, ofRest⟩)) before inRest

end

/-- With callbacks that only observe, and whatever is done from outside, steps by
hand included: the ticks can be taken back all the time if and only if no start
finds a tick parked on a machine that does not run. -/
theorem recallable_iff_no_stranded_start {m : Machine} {onTick onHalt : Option Callback}
    (pending : m.pending = none) (cancelled : m.cancelled = [])
    (hTick : ∀ c ∈ onTick, c.Observes) (hHalt : ∀ c ∈ onHalt, c.Observes)
    {interventions : List Intervention}
    (parks : ∀ intervention ∈ interventions, intervention.ParksNothing) :
    let b := ofMachine m onTick onHalt
    (∀ before, before <+: interventions → (before.foldl intervene b).Recallable) ↔
      ∀ before, before ++ [.start] <+: interventions → ¬(before.foldl intervene b).Stranded := by
  intro b
  have passive : b.Passive := ⟨hTick, hHalt⟩
  have tame := passive.tame
  have sound : b.Sound [] := sound_ofMachine pending cancelled tame.onTick tame.onHalt
  exact sound.toAccounted.recallable_iff passive parks

/-- A step by hand that ends the run leaves the tick of the first start within reach,
since no other start comes. -/
theorem recallable_iff_no_stranded_start_step :
    let m := (Machine.blank 1).load (Text.ofString "++") []
    let note : Callback := ⟨0, []⟩
    let interventions : List Intervention := [.start, .perform .step]
    let b := ofMachine m (some note) (some note)
    note.Observes ∧ (∀ intervention ∈ interventions, intervention.ParksNothing) ∧
      (interventions.foldl intervene b).Stranded ∧
      ∀ before, before <+: interventions → (before.foldl intervene b).Recallable := by
  intro m note interventions b
  have observes : note.Observes := fun _ member => nomatch member
  have allObserve : ∀ c ∈ some note, c.Observes := fun c hc => Option.some.inj hc ▸ observes
  have parks : ∀ intervention ∈ interventions, intervention.ParksNothing := by
    simp [interventions, Intervention.ParksNothing, Action.hold]
  have stranded : (interventions.foldl intervene b).Stranded := ⟨by decide, by decide⟩
  refine ⟨observes, parks, stranded, ?_⟩
  refine (recallable_iff_no_stranded_start (m := m) rfl rfl allObserve allObserve parks).2 ?_
  intro before isPrefix here
  -- Only the first of the two interventions is a start, and nothing is parked then.
  cases before with
  | nil => exact here.2 rfl
  | cons first before =>
      cases before with
      | nil => simp [interventions] at isPrefix
      | cons second before => simp [interventions] at isPrefix

/-- A start after such a step sends the tick astray: a pause or a reset leaves it in
the queue, and once the program is loaded again, the next start queues a second. -/
theorem stranded_start_leaves_stray :
    let m := (Machine.blank 1).load (Text.ofString "++") []
    let note : Callback := ⟨0, []⟩
    let b := ofMachine m (some note) (some note)
    let d := [.start, .perform .step, .start].foldl intervene b
    (d.setMachine (d.machine.reset false)).queue.map Ticket.id = [0] ∧
      d.pause.queue.map Ticket.id = [0] ∧
      ([.perform (.load (Text.ofString "++") []), .start].foldl intervene d).queue.map Ticket.id =
        [0, 1] := by
  intro m note b d
  exact ⟨by decide, by decide, by decide⟩

end Bench

end TapeMachine
