import TapeMachine.Console
import TapeMachine.Proofs.Advancing

/-!
What single commands come to. A line is known by its first letter, and what it is
understood as fits it; steps, going on, a breakpoint and a reset are all that changes a
console, and none of these is answered with a hint at how commands are spelt. Going on
ends where some step leads to a halt or a breakpoint, and every other command ends.
-/

namespace TapeMachine.Console

/-- The lines that tell how commands are spelt. -/
def hints : List String :=
  ["Usage: s [count]\n", "Usage: m [addr] [count]\n", "Usage: b <pc>\n", help ++ "\n"]

/-- Whether a command is one that a line can be understood as. -/
def Command.Fits (line : Text) : Command → Prop
  | .quit => Text.startsWith line 'q' = true
  | .step _ => Text.startsWith line 's' = true
  | .goOn => Text.startsWith line 'c' = true
  | .memory _ _ => Text.startsWith line 'm' = true
  | .toggle pc =>
    Text.startsWith line 'b' = true ∧
      ∃ word, (Text.words line)[1]? = some word ∧ Literal.integer word = .ok pc
  | .output => Text.startsWith line 'o' = true
  | .reset => Text.startsWith line 'r' = true
  | .usage text => text ∈ hints
  | .help => True

theorem exists_of_argument? {words : List Text} {place : Nat} {pc : Int}
    (h : argument? words place none some = some (some pc)) :
    ∃ word, words[place]? = some word ∧ Literal.integer word = .ok pc := by
  rw [argument?] at h
  cases hword : words[place]? with
  | none => simp [hword] at h
  | some word =>
      cases parsed : Literal.integer word with
      | error fault => simp [hword, parsed] at h
      | ok n =>
          simp only [hword, parsed, Option.some.injEq] at h
          exact ⟨word, rfl, by rw [parsed, h]⟩

theorem Command.fits_ofLine (line : Text) : (ofLine line).Fits line := by
  unfold ofLine
  simp only
  -- The letters in the order in which they are tried; a line that comes to the end of
  -- them asks for help.
  split
  · next letter => exact letter
  split
  · next letter =>
      split
      · exact letter
      · simp [Fits, hints]
  split
  · next letter => exact letter
  split
  · next letter =>
      split
      · exact letter
      · simp [Fits, hints]
  split
  · next letter =>
      split
      · next pc argument => exact ⟨letter, exists_of_argument? argument⟩
      · simp [Fits, hints]
  split
  · next letter => exact letter
  split
  · next letter => exact letter
  · trivial

theorem Command.ofLine_eq_reset {line : Text} (h : Text.startsWith line 'r' = true) :
    ofLine line = .reset := by
  have head : line.head? = some (.scalar 'r') := of_decide_eq_true h
  simp [ofLine, Text.startsWith, head]

/-- Whether going on stops at a core: where it is halted or at a breakpoint. -/
def stopsAt (breakpoints : List Int) (core : Core) : Bool :=
  core.halted || breakpoints.contains (core.pc : Int)

theorem isStop_stopsAt (breakpoints : List Int) : Core.IsStop (stopsAt breakpoints) where
  course same := by
    have pc := congrArg Core.pc same
    rw [stopsAt, stopsAt, Core.halted_of_course same]
    exact congrArg (fun pc : Nat => _ || breakpoints.contains (pc : Int)) pc
  halted h := by rw [stopsAt, h, Bool.true_or]

theorem stepMachine_iterate (n : Nat) (c : Console) :
    stepMachine^[n] c = { c with machine := c.machine.after n } := by
  induction n generalizing c with
  | zero => rfl
  | succ n ih => rw [Function.iterate_succ_apply, ih, stepMachine, Machine.after_succ]

theorem stops_iterate (n : Nat) (c : Console) :
    let last := stepMachine^[n] c.stepMachine
    (last.machine.core.halted || last.atBreakpoint) =
      stopsAt c.breakpoints (c.machine.core.step.after n) := by
  intro last
  have core : last.machine.core = c.machine.core.step.after n := by
    simp [last, stepMachine_iterate, stepMachine]
  have breakpoints : last.breakpoints = c.breakpoints := by
    simp [last, stepMachine_iterate, stepMachine]
  rw [atBreakpoint, core, breakpoints, stopsAt]

/-- Going on makes one step and then as many as lead to the first stop. -/
theorem goOn_of_stopsAfter {size k : Nat} {c : Console} (valid : c.machine.core.Valid size)
    (h : c.machine.core.step.StopsAfter (stopsAt c.breakpoints) k) :
    c.goOn =
      let last := c.machine.after (k + 1)
      some ({ c with machine := last }, if last.core.halted then none else some last.core.pc) := by
  have covered : k < 2 ^ c.stepMachine.machine.core.searchRounds := by
    rw [stepMachine, Machine.core_step]
    exact h.lt_searchRounds (isStop_stopsAt _) valid.step
  have found := Loop.search_of_first
    (fun console : Console => console.machine.core.halted || console.atBreakpoint) stepMachine
    covered (fun j hj => (c.stops_iterate j).trans (h.2 j hj)) ((c.stops_iterate k).trans h.1)
  rw [stepMachine_iterate] at found
  simp only [goOn, found, Option.map_some]
  rfl

/-- Going on never ends where no step leads to a stop. -/
theorem goOn_of_never {c : Console}
    (h : ∀ k, stopsAt c.breakpoints (c.machine.core.step.after k) = false) : c.goOn = none := by
  rw [goOn, Loop.search_of_never _ _ _ fun k => (c.stops_iterate k).trans (h k), Option.map_none]

/-- Going on ends if and only if some number of steps, at least one, leads to a stop. -/
theorem goOn_cases {size : Nat} {c : Console} (valid : c.machine.core.Valid size) :
    (∃ k hit, c.goOn = some ({ c with machine := c.machine.after k }, hit)) ∨
      c.goOn = none ∧ ∀ k, 0 < k → stopsAt c.breakpoints (c.machine.core.after k) = false := by
  by_cases never : ∀ k, stopsAt c.breakpoints (c.machine.core.step.after k) = false
  · refine Or.inr ⟨goOn_of_never never, ?_⟩
    intro k hk
    obtain ⟨k, rfl⟩ := Nat.exists_eq_succ_of_ne_zero (Nat.ne_of_gt hk)
    exact never k
  · simp only [not_forall, Bool.not_eq_false] at never
    obtain ⟨n, stop⟩ := never
    obtain ⟨k, _, first⟩ := Core.exists_stopsAfter stop
    exact Or.inl ⟨k + 1, _, goOn_of_stopsAfter valid first⟩

theorem head?_append {start : String} {first : Char} (h : start.toList.head? = some first)
    (rest : String) : (start ++ rest).toList.head? = some first := by
  rw [String.toList_append, List.head?_append, h, Option.some_or]

theorem head_of_mem_hints {printed : String} (h : printed ∈ hints) :
    printed.toList.head? = some 'U' ∨ printed.toList.head? = some 'C' := by
  simp only [hints, List.mem_cons, List.not_mem_nil, or_false] at h
  rcases h with rfl | rfl | rfl | rfl
  · exact Or.inl rfl
  · exact Or.inl rfl
  · exact Or.inl rfl
  · exact Or.inr (head?_append (head?_append rfl _) _)

/-- What begins in another way than the hints is none of them. -/
theorem notMem_hints {printed : String} {first : Option Char}
    (head : printed.toList.head? = first) (usage : first ≠ some 'U') (help : first ≠ some 'C') :
    printed ∉ hints := by
  intro hinted
  rw [← head] at usage help
  exact (head_of_mem_hints hinted).elim usage help

theorem printed_toggle (c : Console) (pc : Int) : (c.toggle pc).2 ∉ hints := by
  have head : (c.toggle pc).2.toList.head? = some 'B' := by
    rw [toggle]
    split
    · exact head?_append (head?_append rfl _) _
    · exact head?_append (head?_append rfl _) _
  exact notMem_hints head (by decide) (by decide)

theorem breakpointLine_notMem_hints (pc : Nat) : breakpointLine pc ∉ hints :=
  notMem_hints (head?_append (head?_append rfl _) _) (by decide) (by decide)

theorem reset_notMem_hints : "Reset.\n" ∉ hints := by
  have head : "Reset.\n".toList.head? = some 'R' := rfl
  exact notMem_hints head (by decide) (by decide)

theorem empty_notMem_hints : "" ∉ hints := by
  have head : "".toList.head? = none := rfl
  exact notMem_hints head (by decide) (by decide)

/-- Setting or removing a breakpoint leaves all else alone. -/
theorem toggle_fst (c : Console) (pc : Int) :
    ∃ breakpoints, (c.toggle pc).1 = { c with breakpoints } := by
  rw [toggle]
  split
  · exact ⟨_, rfl⟩
  · exact ⟨_, rfl⟩

/-- What a command makes of a console, and that it gives no hint where it changes more
than the last command. -/
def Command.Turns (c next : Console) (printed : String) : Command → Prop
  | .step _ | .goOn => printed ∉ hints ∧ ∃ k, next = { c with machine := c.machine.after k }
  | .toggle _ => printed ∉ hints ∧ ∃ breakpoints, next = { c with breakpoints }
  | .reset => printed ∉ hints ∧ next = c.reset
  | .quit | .memory _ _ | .output | .usage _ | .help => next = c

theorem turns_of_perform {size : Nat} {c : Console} {command : Command} {outcome : Outcome}
    (valid : c.machine.core.Valid size) (h : c.perform command = some outcome) :
    command.Turns c outcome.console outcome.printed := by
  cases command with
  | step count =>
      cases h
      refine ⟨empty_notMem_hints, ?_⟩
      simp only [Outcome.ofPrint, Machine.batch_fst]
      split
      · exact ⟨_, rfl⟩
      · exact ⟨_, rfl⟩
  | goOn =>
      rcases goOn_cases valid with ⟨k, hit, went⟩ | ⟨never, _⟩
      · rw [perform, went] at h
        cases h
        refine ⟨?_, k, rfl⟩
        cases hit with
        | none => exact empty_notMem_hints
        | some pc => exact breakpointLine_notMem_hints pc
      · rw [perform, never] at h
        cases h
  | toggle pc =>
      cases h
      exact ⟨c.printed_toggle pc, c.toggle_fst pc⟩
  | reset =>
      cases h
      exact ⟨reset_notMem_hints, rfl⟩
  | quit | memory | output | usage | help =>
      cases h
      rfl

theorem perform_eq_none {size : Nat} {c : Console} {command : Command}
    (valid : c.machine.core.Valid size) (h : c.perform command = none) :
    command = .goOn ∧
      ∀ k, 0 < k → stopsAt c.breakpoints (c.machine.core.after k) = false := by
  cases command with
  | goOn =>
      rcases goOn_cases valid with ⟨k, hit, went⟩ | ⟨_, stopless⟩
      · rw [perform, went] at h
        cases h
      · exact ⟨rfl, stopless⟩
  | quit | step | memory | toggle | output | reset | usage | help => cases h

theorem turns_of_execute {size : Nat} {c : Console} {line : Text} {outcome : Outcome}
    (valid : c.machine.core.Valid size) (h : c.execute line = some outcome) :
    (Command.ofLine (c.effective line)).Turns { c with last := c.effective line } outcome.console
      outcome.printed :=
  turns_of_perform (c := { c with last := c.effective line }) valid h

/-- A line that is never done with asks to go on and comes to no stop. -/
theorem execute_eq_none {size : Nat} {c : Console} {line : Text}
    (valid : c.machine.core.Valid size) (h : c.execute line = none) :
    Text.startsWith (c.effective line) 'c' = true ∧
      ∀ k, 0 < k → stopsAt c.breakpoints (c.machine.core.after k) = false := by
  obtain ⟨command, stopless⟩ :=
    perform_eq_none (c := { c with last := c.effective line }) valid h
  have fits := Command.fits_ofLine (c.effective line)
  rw [command] at fits
  exact ⟨fits, stopless⟩

end TapeMachine.Console
