import TapeMachine.Proofs.Reachable
import TapeMachine.Proofs.Structured.Simulation
import TapeMachine.Proofs.Unbalanced

/-!
Where a run leaves its program. In a balanced program every bracket that leads elsewhere
leads behind its partner, so that a run stays in the program until it comes to its end.
In any program the place one past the end is left for an opening without a partner on a
zero cell, which nothing follows, and every other halt is at the end itself.
-/

namespace TapeMachine

/-- Whether the command at a place is an opening behind which the depth never comes back. -/
def Program.IsUnpairedOpening (p : Program) (i : Nat) : Prop :=
  p.commands[i]? = some .loopStart ∧
    Bracket.scanForward (i + 1) 1 (p.brackets.drop (i + 1)) = p.length

namespace Core

/-- Where the table of partners leads from the program counter: to a place in the program,
to -1 or to the length of the program. -/
def jump? (c : Core) : Option Int :=
  c.partner?.map (Partner.position c.program.length)

/-- Whether a jump that the next step makes comes behind the partner of its bracket. -/
structure JumpsToPartner (c : Core) : Prop where
  forward : c.command? = some .loopStart → c.cell = 0 →
    ∃ place : Nat, c.jump? = some (place : Int) ∧ c.pc < place ∧
      c.program.commands[place]? = some .loopEnd ∧ c.step.pc = place + 1
  backward : c.command? = some .loopEnd → c.cell ≠ 0 →
    ∃ place : Nat, c.jump? = some (place : Int) ∧ place < c.pc ∧
      c.program.commands[place]? = some .loopStart ∧ c.step.pc = place + 1

/-- Whether the next step leads from an opening without a partner past the program. -/
def Overruns (c : Core) : Prop :=
  c.program.IsUnpairedOpening c.pc ∧ c.cell = 0

/-- The cores in which `n` calls for a step execute a command, in order. -/
def executions (n : Nat) (c : Core) : List Core :=
  ((List.range n).map fun k => c.after k).filter fun d => !d.halted

end Core

theorem Effect.exists_of_bracket? {command : Command} (h : command.bracket? = none) :
    ∃ effect : Effect, command = effect.command := by
  cases command with
  | right => exact ⟨.right, rfl⟩
  | left => exact ⟨.left, rfl⟩
  | increment => exact ⟨.increment, rfl⟩
  | decrement => exact ⟨.decrement, rfl⟩
  | write => exact ⟨.write, rfl⟩
  | read => exact ⟨.read, rfl⟩
  | loopStart | loopEnd => cases h

def Bracket.command : Bracket → Command
  | opening => .loopStart
  | closing => .loopEnd

theorem Bracket.eq_command_iff (command : Command) (b : Bracket) :
    command.bracket? = some b ↔ command = b.command := by
  cases command <;> cases b <;> simp [Command.bracket?, Bracket.command]

namespace Program

theorem getElem?_brackets_eq_some_iff (p : Program) (i : Nat) (b : Bracket) :
    p.brackets[i]? = some (some b) ↔ p.commands[i]? = some b.command := by
  rw [getElem?_brackets, Option.map_eq_some_iff]
  simp only [Bracket.eq_command_iff]
  exact exists_eq_right

/-- No bracket of a program that is taken lacks a partner. -/
theorem unpaired_eq_nil {source : Text} (h : (ofSource source).requireBalanced = .ok ()) :
    Bracket.unpaired (ofSource source).partners = [] := by
  have none_refused : (ofSource source).unpairedOffsets = [] := by
    rw [requireBalanced_eq] at h
    by_contra refused
    rw [if_neg refused] at h
    cases h
  rw [← List.map_eq_nil_iff (f := fun i => (ofSource source).offsets[i]?), map_offsets_unpaired,
    none_refused, List.map_nil]

section Paired

variable {p : Program} {i : Nat}

theorem exists_closing (paired : p.IsPaired) (h : Bracket.unpaired p.partners = [])
    (hi : p.commands[i]? = some .loopStart) :
    ∃ j, i < j ∧ p.commands[j]? = some .loopEnd ∧ p.partners[i]? = some (some (.slot j)) := by
  have sound := Pairing.sound_ofList p.brackets
  rw [paired] at h ⊢
  rcases sound.opening i ((p.getElem?_brackets_eq_some_iff i .opening).2 hi) with
    waits | ⟨j, hij, hj, hforth, _⟩
  · have stray := Bracket.mem_unpaired.2 ⟨.pastEnd, sound.waiting i waits, rfl⟩
    rw [Bracket.partners] at h
    simp [h] at stray
  · exact ⟨j, hij, (p.getElem?_brackets_eq_some_iff j .closing).1 hj, hforth⟩

theorem exists_opening (paired : p.IsPaired) (h : Bracket.unpaired p.partners = [])
    (hi : p.commands[i]? = some .loopEnd) :
    ∃ j, j < i ∧ p.commands[j]? = some .loopStart ∧ p.partners[i]? = some (some (.slot j)) := by
  have sound := Pairing.sound_ofList p.brackets
  rw [paired] at h ⊢
  rcases sound.closing i ((p.getElem?_brackets_eq_some_iff i .closing).2 hi) with
    unpaired | ⟨j, hji, hj, _, hback⟩
  · have stray := Bracket.mem_unpaired.2 ⟨.beforeStart, unpaired, rfl⟩
    rw [Bracket.partners] at h
    simp [h] at stray
  · exact ⟨j, hji, (p.getElem?_brackets_eq_some_iff j .opening).1 hj, hback⟩

/-- An opening without a partner is one of the brackets that a program is refused for. -/
theorem IsUnpairedOpening.mem_unpaired (paired : p.IsPaired) (h : p.IsUnpairedOpening i) :
    i ∈ Bracket.unpaired p.partners := by
  obtain ⟨hi, hscan⟩ := h
  have hpartner := Bracket.partners_of_opening ((p.getElem?_brackets_eq_some_iff i .opening).2 hi)
  rw [← paired, length_brackets] at hpartner
  exact Bracket.mem_unpaired.2 ⟨_, hpartner, (Partner.isUnpaired_ofForward _ _).2 hscan⟩

end Paired

end Program

namespace Core

section Step

variable {c : Core}

theorem jumpsToPartner (paired : c.program.IsPaired)
    (h : Bracket.unpaired c.program.partners = []) : c.JumpsToPartner where
  forward hcommand zero := by
    obtain ⟨place, after, closing, hpartner⟩ := Program.exists_closing paired h hcommand
    have partner : c.partner? = some (.slot place) := by rw [partner?, hpartner]; rfl
    refine ⟨place, by rw [jump?, partner]; rfl, after, closing, ?_⟩
    simp [step_of_loopStart hcommand, openingTarget, zero, partner]
  backward hcommand nonzero := by
    obtain ⟨place, before, opening, hpartner⟩ := Program.exists_opening paired h hcommand
    have partner : c.partner? = some (.slot place) := by rw [partner?, hpartner]; rfl
    refine ⟨place, by rw [jump?, partner]; rfl, before, opening, ?_⟩
    simp [step_of_loopEnd hcommand, closingTarget, nonzero, partner]

/-- An opening on a zero cell leads behind the place where the depth comes back, or behind
the end. -/
theorem openingTarget_of_zero (paired : c.program.IsPaired) (h : c.command? = some .loopStart)
    (zero : c.cell = 0) :
    c.openingTarget =
      Bracket.scanForward (c.pc + 1) 1 (c.program.brackets.drop (c.pc + 1)) + 1 := by
  rw [openingTarget, if_pos zero, partner?_of_loopStart paired h, Partner.ofForward]
  by_cases past : Bracket.scanForward (c.pc + 1) 1 (c.program.brackets.drop (c.pc + 1)) =
      c.program.length
  · rw [if_pos past, past]
  · rw [if_neg past]

/-- No step but one from an opening without a partner leads past the end. -/
theorem pc_step_eq_iff (paired : c.program.IsPaired) (running : c.halted = false) :
    c.step.pc = c.program.length + 1 ↔ c.Overruns := by
  have inside : c.pc < c.program.length := by simpa [halted] using running
  cases hcommand : c.command? with
  | none =>
      rw [(command?_eq_none_iff c).1 hcommand] at running
      cases running
  | some command =>
      have other (h : command ≠ .loopStart) : ¬c.Overruns := by
        rintro ⟨⟨opening, _⟩, _⟩
        rw [← command?, hcommand] at opening
        exact h (Option.some.inj opening)
      cases hbracket : command.bracket? with
      | none =>
          obtain ⟨effect, rfl⟩ := Effect.exists_of_bracket? hbracket
          have next := (step_effect hcommand).1
          refine iff_of_false (by omega) (other ?_)
          intro opening
          rw [opening] at hbracket
          cases hbracket
      | some b =>
          rw [(Bracket.eq_command_iff command b).1 hbracket] at hcommand other
          cases b with
          | closing =>
              have target := closingTarget_le paired hcommand
              rw [step_of_loopEnd hcommand]
              exact iff_of_false (by change c.closingTarget ≠ _; omega) (other (by decide))
          | opening =>
              rw [step_of_loopStart hcommand]
              change c.openingTarget = _ ↔ _
              by_cases zero : c.cell = 0
              · rw [openingTarget_of_zero paired hcommand zero, Nat.add_right_cancel_iff]
                exact ⟨fun past => ⟨⟨hcommand, past⟩, zero⟩, fun overruns => overruns.1.2⟩
              · rw [openingTarget, if_neg zero]
                exact iff_of_false (by omega) fun overruns => zero overruns.2

end Step

theorem executions_succ (n : Nat) (c : Core) :
    c.executions (n + 1) =
      c.executions n ++ if (c.after n).halted then [] else [c.after n] := by
  rw [executions, List.range_succ, List.map_append, List.filter_append]
  cases h : (c.after n).halted <;> simp [executions, h]

/-- A run is past the end of its program if the command that it executed last is an
opening without a partner. -/
theorem pc_after_eq_iff {c : Core} (paired : c.program.IsPaired) (start : c.pc = 0) (n : Nat) :
    (c.after n).pc = c.program.length + 1 ↔
      ∃ d, (c.executions n).getLast? = some d ∧ d.Overruns := by
  induction n with
  | zero => simp [executions, start]
  | succ n ih =>
      rw [after_succ_step, executions_succ]
      cases h : (c.after n).halted with
      | true =>
          rw [step_of_halted h, ih, if_pos rfl, List.append_nil]
      | false =>
          have next := pc_step_eq_iff (c := c.after n) (by rwa [program_after]) h
          rw [program_after] at next
          rw [next, if_neg Bool.false_ne_true, List.getLast?_concat]
          simp

end Core

/-- A program that is taken as balanced never leads a run past its end, and each of its
jumps leads behind a partner. Of any program the run is past the end exactly if the
command that it executed last was an opening without a partner, on a zero cell; where it
halts otherwise it is at the end. -/
theorem Machine.past_end_iff_unpaired_opening (m : Machine) (hsize : 0 < m.tapeSize)
    (source input : Text) (n : Nat) :
    let program := Program.ofSource source
    let loaded := m.load source input
    let c := (loaded.after n).core
    let byOverrun := ∃ d, (loaded.core.executions n).getLast? = some d ∧ d.Overruns
    c.program = program ∧
    (program.requireBalanced = .ok () → c.pc ≤ program.length ∧ c.JumpsToPartner) ∧
    (c.halted = true ∧ c.pc = program.length + 1 ↔ byOverrun) ∧
    (c.halted = true → ¬byOverrun → c.pc = program.length) := by
  intro program loaded c byOverrun
  have start : loaded.core = .load m.tapeSize source input := core_load m source input
  have core : c = loaded.core.after n := core_after n loaded
  have valid : c.Valid m.tapeSize := by
    rw [core, start]
    exact (Core.valid_load hsize source input).after n
  have same : c.program = program := by
    rw [core, Core.program_after, start]
    rfl
  have past : c.pc = program.length + 1 ↔ byOverrun := by
    have paired : loaded.core.program.IsPaired := by
      rw [start]
      exact Program.isPaired_ofSource source
    have first : loaded.core.pc = 0 := by
      rw [start]
      rfl
    have before := Core.pc_after_eq_iff paired first n
    rwa [← core, ← Core.program_after n loaded.core, ← core, same] at before
  have bound : c.pc ≤ program.length + 1 := by
    rw [← same]
    exact valid.pc_le
  refine ⟨same, ?_, ?_, ?_⟩
  · intro balanced
    have paired_all : Bracket.unpaired c.program.partners = [] := by
      rw [same]
      exact Program.unpaired_eq_nil balanced
    refine ⟨?_, Core.jumpsToPartner valid.paired paired_all⟩
    by_contra hpast
    obtain ⟨i, stray⟩ := valid.unpaired (by rw [same]; omega)
    have refused := Program.IsUnpairedOpening.mem_unpaired valid.paired stray
    simp [paired_all] at refused
  · rw [← past, and_iff_right_iff_imp]
    intro hpast
    simp [Core.halted, same, hpast]
  · intro halted not_past
    have reached : program.length ≤ c.pc := by
      rw [← same]
      simpa [Core.halted] using halted
    rw [← past] at not_past
    omega

/-- A jump back inside a balanced program, a run past an opening without a partner, and an
end at a closing without one. -/
theorem Machine.past_end_iff_unpaired_opening_of_each_kind :
    let m := blank 1
    let balanced := Text.ofString "++[-]"
    let unclosed := Text.ofString "+-["
    let unopened := Text.ofString "-]"
    let atClosing := ((m.load balanced []).after 4).core
    let past := ((m.load unclosed []).after 3).core
    let atEnd := ((m.load unopened []).after 2).core
    0 < m.tapeSize ∧
    (Program.ofSource balanced).requireBalanced = .ok () ∧
    atClosing.command? = some .loopEnd ∧ atClosing.cell ≠ 0 ∧
    atClosing.pc ≤ (Program.ofSource balanced).length ∧ atClosing.JumpsToPartner ∧
    past.pc = 4 ∧
    (∃ d, ((m.load unclosed []).core.executions 3).getLast? = some d ∧ d.Overruns) ∧
    atEnd.halted = true ∧
    (¬∃ d, ((m.load unopened []).core.executions 2).getLast? = some d ∧ d.Overruns) ∧
    atEnd.pc = (Program.ofSource unopened).length := by
  intro m balanced unclosed unopened atClosing past atEnd
  have hsize : 0 < m.tapeSize := by decide
  have taken : (Program.ofSource balanced).requireBalanced = .ok () := rfl
  obtain ⟨_, inside, _, _⟩ := past_end_iff_unpaired_opening m hsize balanced [] 4
  obtain ⟨_, _, overrun, _⟩ := past_end_iff_unpaired_opening m hsize unclosed [] 3
  obtain ⟨_, _, short, ends⟩ := past_end_iff_unpaired_opening m hsize unopened [] 2
  have halted : atEnd.halted = true := by decide
  have none_overruns := mt short.2 (by decide)
  obtain ⟨bound, jumps⟩ := inside taken
  exact ⟨hsize, taken, by decide, by decide, bound, jumps, by decide,
    overrun.1 (by decide), halted, none_overruns, ends halted none_overruns⟩

end TapeMachine
