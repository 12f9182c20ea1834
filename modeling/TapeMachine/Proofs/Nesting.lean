import TapeMachine.Proofs.Callbacks

/-!
How deep starts nest on a bench. A start within a callback comes from a move of the script, and
no later call makes the moves of this one again. So every level of nesting leaves fewer moves
to come, and the depth that a bench allows is enough for all of them: no start is cut off, and
any greater depth gives the same bench. In effect the callbacks start the bench itself.
-/

namespace TapeMachine

namespace Callback

/-- How many moves a script has for the calls after so many. -/
def movesAfter (calls : Nat) (script : List (Nat × List Move)) : Nat :=
  (script.map fun entry => if calls < entry.1 then entry.2.length else 0).sum

def unplayed (c : Callback) : Nat :=
  movesAfter c.calls c.script

/-- The moves of a call come no more after it. -/
theorem movesAfter_succ_add_le (calls : Nat) (script : List (Nat × List Move)) :
    movesAfter (calls + 1) script + ((script.lookup (calls + 1)).getD []).length ≤
      movesAfter calls script := by
  induction script with
  | nil => exact Nat.le_refl 0
  | cons entry rest ih =>
      obtain ⟨number, moves⟩ := entry
      simp only [movesAfter, List.map_cons, List.sum_cons, List.lookup_cons] at ih ⊢
      by_cases now : calls + 1 = number
      · subst now
        simp only [beq_self_eq_true, Option.getD_some, Nat.lt_irrefl, if_false,
          Nat.lt_succ_self, if_true]
        omega
      · have other : (calls + 1 == number) = false := beq_false_of_ne now
        simp only [other]
        split <;> split <;> omega

theorem movesAfter_le_foldl (calls total : Nat) (script : List (Nat × List Move)) :
    total + movesAfter calls script ≤
      script.foldl (fun total entry => total + entry.2.length) total := by
  induction script generalizing total with
  | nil => exact Nat.le_refl total
  | cons entry rest ih =>
      have after := ih (total + entry.2.length)
      simp only [movesAfter, List.map_cons, List.sum_cons, List.foldl_cons] at after ⊢
      split <;> omega

end Callback

namespace Bench

/-- How many moves the callbacks may still make. -/
def unplayed (b : Bench) : Nat :=
  b.onTick.elim 0 Callback.unplayed + b.onHalt.elim 0 Callback.unplayed

theorem unplayed_le_depth (b : Bench) : b.unplayed ≤ b.depth := by
  have each (c : Option Callback) : c.elim 0 Callback.unplayed ≤ scriptLength c := by
    cases c with
    | none => exact Nat.le_refl 0
    | some c =>
        have all := Callback.movesAfter_le_foldl c.calls 0 c.script
        rwa [Nat.zero_add] at all
  exact Nat.add_le_add (each b.onTick) (each b.onHalt)

/-- The bench at the beginning of a call. -/
def noted (b : Bench) (occasion : Occasion) (c : Callback) : Bench :=
  { b.setCallback c occasion with
    events := ⟨occasion, b.machine.core.stepCount, b.machine.runState⟩ :: b.events }

variable {b : Bench} {occasion : Occasion} {c : Callback} {f g : Bench → Bench}

theorem call_of_none (h : b.callback? occasion = none) : call occasion f b = b := by
  rw [call, h]

theorem call_of_some (h : b.callback? occasion = some c) :
    call occasion f b = ({ c with calls := c.calls + 1 } : Callback).moves.foldl (move f)
      (b.noted occasion { c with calls := c.calls + 1 }) := by
  rw [call, h]
  rfl

theorem unplayed_noted (h : b.callback? occasion = some c) :
    (b.noted occasion { c with calls := c.calls + 1 }).unplayed +
      ({ c with calls := c.calls + 1 } : Callback).moves.length ≤ b.unplayed := by
  have fewer := Callback.movesAfter_succ_add_le c.calls c.script
  cases occasion with
  | tick =>
      have hc : b.onTick = some c := h
      simp only [unplayed, noted, setCallback, hc, Option.elim_some, Callback.unplayed,
        Callback.moves]
      omega
  | halt =>
      have hc : b.onHalt = some c := h
      simp only [unplayed, noted, setCallback, hc, Option.elim_some, Callback.unplayed,
        Callback.moves]
      omega

section Fewer

variable (fewer : ∀ d : Bench, (f d).unplayed ≤ d.unplayed)

include fewer

theorem unplayed_move (b : Bench) (m : Move) : (b.move f m).unplayed ≤ b.unplayed := by
  cases m with
  | start => exact fewer b
  | perform action =>
      rw [move, perform]
      cases b.machine.perform action with
      | none => exact Nat.le_refl _
      | some outcome => exact Nat.le_refl _
  | _ => exact Nat.le_refl _

theorem unplayed_foldl_move (b : Bench) (moves : List Move) :
    (moves.foldl (move f) b).unplayed ≤ b.unplayed := by
  induction moves generalizing b with
  | nil => exact Nat.le_refl _
  | cons m moves ih => exact Nat.le_trans (ih (b.move f m)) (unplayed_move fewer b m)

theorem unplayed_call (b : Bench) (occasion : Occasion) :
    (call occasion f b).unplayed ≤ b.unplayed := by
  cases hc : b.callback? occasion with
  | none => rw [call_of_none hc]
  | some c =>
      rw [call_of_some hc]
      have begun := Nat.le_of_add_right_le (unplayed_noted hc)
      exact Nat.le_trans (unplayed_foldl_move fewer _ _) begun

theorem unplayed_tick (b : Bench) : ((pacerWith f).tick b).unplayed ≤ b.unplayed := by
  by_cases running : b.machine.runState = .running
  · have called : ((pacerWith f).onTick ((pacerWith f).stepped b)).unplayed ≤ b.unplayed :=
      unplayed_call fewer _ .tick
    rw [(follows_ledger f).tick_of_running running]
    simp only
    split
    · exact Nat.le_trans (unplayed_call fewer _ .halt) called
    · split <;> exact called
  · rw [Pacer.tick_of_stopped running]
    exact Nat.le_refl _

theorem unplayed_start (b : Bench) : ((pacerWith f).start b).unplayed ≤ b.unplayed := by
  by_cases running : b.machine.runState = .running
  · rw [Pacer.start_of_running running]
  · rw [Pacer.start_of_stopped running]
    exact unplayed_tick fewer _

end Fewer

/-- No start brings a move back, on any level. -/
theorem unplayed_start_pacer (depth : Nat) (b : Bench) :
    ((pacer depth).start b).unplayed ≤ b.unplayed := by
  induction depth generalizing b with
  | zero =>
      rw [pacer_zero]
      exact unplayed_start (fun d => Nat.le_refl _) b
  | succ depth ih =>
      rw [pacer_succ]
      exact unplayed_start ih b

section Agree

variable (fewer : ∀ d : Bench, (f d).unplayed ≤ d.unplayed)

include fewer

theorem foldl_move_congr (moves : List Move)
    (agree : ∀ d : Bench, d.unplayed ≤ b.unplayed → f d = g d) :
    moves.foldl (move f) b = moves.foldl (move g) b := by
  induction moves generalizing b with
  | nil => rfl
  | cons m moves ih =>
      have same : b.move f m = b.move g m := by
        cases m with
        | start => exact agree b (Nat.le_refl _)
        | _ => rfl
      have less := unplayed_move fewer b m
      rw [List.foldl_cons, List.foldl_cons, ← same]
      exact ih fun d hd => agree d (Nat.le_trans hd less)

/-- A call starts the pacer only where fewer moves are to come. -/
theorem call_congr (occasion : Occasion)
    (agree : ∀ d : Bench, d.unplayed < b.unplayed → f d = g d) :
    call occasion f b = call occasion g b := by
  cases hc : b.callback? occasion with
  | none => rw [call_of_none hc, call_of_none hc]
  | some c =>
      have spent := unplayed_noted hc
      rw [call_of_some hc, call_of_some hc]
      cases moves : ({ c with calls := c.calls + 1 } : Callback).moves with
      | nil => rfl
      | cons m rest =>
          rw [moves, List.length_cons] at spent
          exact foldl_move_congr fewer _ fun d hd => agree d (by omega)

theorem tick_congr (agree : ∀ d : Bench, d.unplayed < b.unplayed → f d = g d) :
    (pacerWith f).tick b = (pacerWith g).tick b := by
  by_cases running : b.machine.runState = .running
  · have called : (pacerWith f).onTick ((pacerWith f).stepped b) =
        (pacerWith g).onTick ((pacerWith g).stepped b) := call_congr fewer .tick agree
    have less : ((pacerWith g).onTick ((pacerWith g).stepped b)).unplayed ≤ b.unplayed :=
      called ▸ unplayed_call fewer _ .tick
    let t := (pacerWith g).onTick ((pacerWith g).stepped b)
    have ended : (pacerWith f).onHalt ((pacerWith f).pause t) =
        (pacerWith g).onHalt ((pacerWith g).pause t) :=
      call_congr fewer .halt fun d hd => agree d (Nat.lt_of_lt_of_le hd less)
    rw [(follows_ledger f).tick_of_running running, (follows_ledger g).tick_of_running running,
      called]
    simp only
    rw [ended]
    rfl
  · rw [Pacer.tick_of_stopped running, Pacer.tick_of_stopped running]
    rfl

theorem start_congr (agree : ∀ d : Bench, d.unplayed < b.unplayed → f d = g d) :
    (pacerWith f).start b = (pacerWith g).start b := by
  by_cases running : b.machine.runState = .running
  · rw [Pacer.start_of_running running, Pacer.start_of_running running]
  · rw [Pacer.start_of_stopped running, Pacer.start_of_stopped running]
    exact tick_congr fewer agree

end Agree

/-- Two depths that both cover the moves to come give the same bench. The induction is on the
lesser one: a start on either goes on one level below, where fewer moves are to come. -/
theorem start_pacer_congr {depth deeper : Nat} (covers : b.unplayed ≤ depth)
    (h : depth ≤ deeper) : (pacer deeper).start b = (pacer depth).start b := by
  induction depth generalizing b deeper with
  | zero =>
      cases deeper with
      | zero => rfl
      | succ deeper =>
          rw [pacer_zero, pacer_succ]
          exact start_congr (unplayed_start_pacer deeper) fun d hd => by omega
  | succ depth ih =>
      cases deeper with
      | zero => omega
      | succ deeper =>
          rw [pacer_succ, pacer_succ]
          exact start_congr (unplayed_start_pacer deeper) fun d hd => ih (by omega) (by omega)

/-- Any depth that covers the moves to come is as good as the one that a bench allows. -/
theorem start_pacer_of_le {depth : Nat} (h : b.unplayed ≤ depth) :
    (pacer depth).start b = b.start :=
  (start_pacer_congr (Nat.le_refl _) h).trans
    (start_pacer_congr (Nat.le_refl _) b.unplayed_le_depth).symm

/-- On a level that covers the moves to come, what the callbacks start is the bench. -/
theorem exists_start_eq {depth : Nat} (h : b.unplayed ≤ depth) :
    ∃ f, pacer depth = pacerWith f ∧ (∀ d : Bench, (f d).unplayed ≤ d.unplayed) ∧
      ∀ d : Bench, d.unplayed < b.unplayed → f d = d.start := by
  cases depth with
  | zero => exact ⟨id, pacer_zero, fun d => Nat.le_refl _, fun d hd => by omega⟩
  | succ depth =>
      exact ⟨_, pacer_succ depth, unplayed_start_pacer depth,
        fun d hd => start_pacer_of_le (by omega)⟩

/-- No start is cut off: the callbacks of a started bench start it as it was started. -/
theorem start_eq_pacerWith (b : Bench) : b.start = (pacerWith start).start b := by
  obtain ⟨f, level, fewer, agree⟩ := exists_start_eq b.unplayed_le_depth
  rw [start, level]
  exact start_congr fewer agree

theorem tick_pacer_eq {depth : Nat} (h : b.unplayed ≤ depth) :
    (pacer depth).tick b = (pacerWith start).tick b := by
  obtain ⟨f, level, fewer, agree⟩ := exists_start_eq h
  rw [level]
  exact tick_congr fewer agree

theorem tick_eq_pacerWith (b : Bench) : b.tick = (pacerWith start).tick b :=
  tick_pacer_eq b.unplayed_le_depth

theorem tick_pacer_of_le {depth : Nat} (h : b.unplayed ≤ depth) :
    (pacer depth).tick b = b.tick :=
  (tick_pacer_eq h).trans b.tick_eq_pacerWith.symm

end Bench

end TapeMachine
