import TapeMachine.Proofs.Commands

/-!
What a dialogue makes of a console. Whatever is asked, and in whatever order, the
machine is where so many single steps from its start lead as it has counted since it
was last reset; and a line changes the machine or the breakpoints only where its command
says so.
-/

namespace TapeMachine.Console

/-- What can be asked of a console: to carry out a line, or to show its state or a
part of the tape. -/
inductive Request
  | line (text : Text)
  | state (window context : Json)
  | memory (address count : Json)

/-- The console after a request and what is printed in answer, unless the request
never ends. -/
def answer (console : Console) : Request → Option (Console × String)
  | .line text => (console.execute text).map fun outcome => (outcome.console, outcome.printed)
  | .state window context => some (console, (console.stateViewOf window context).1)
  | .memory address count => some (console, (console.showMemoryOf address count).1)

def converse (console : Console) : List Request → Option Console
  | [] => some console
  | request :: rest => (console.answer request).bind fun (console, _) => console.converse rest

/-- A console as it is opened on two texts. -/
def fresh (size : Nat) (source input : Text) : Console :=
  { program := .ofSource source
    input := Core.inputBytes input
    machine := (Machine.blank size).load source input
    breakpoints := []
    last := Text.ofString "s" }

theorem open?_text {memory : Memory} {size : Nat} (positive : 0 < size)
    (fits : memory.holds size = true) (source input : Text) :
    open? (.text source) (.text input) (.nat size) memory = .ok (fresh size source input) := by
  rw [open?, Machine.make, Transcript.sizeOf_nat positive fits]
  rfl

/-- Whether a request is a line that stands for a command with some first letter. -/
def Asks (c : Console) (letter : Char) (request : Request) : Prop :=
  ∃ line, request = .line line ∧ Text.startsWith (c.effective line) letter = true

/-- Whether a request is a line that stands for a breakpoint command with an integer. -/
def AsksToggle (c : Console) (request : Request) : Prop :=
  ∃ line word pc, request = .line line ∧ Text.startsWith (c.effective line) 'b' = true ∧
    (Text.words (c.effective line))[1]? = some word ∧ Literal.integer word = .ok pc

/-- Whether a console has what a new one was opened with, and its machine some number
of steps on from there. -/
structure Descends (c new : Console) : Prop where
  program : c.program = new.program
  input : c.input = new.input
  machine : ∃ n, c.machine = new.machine.after n

/-- What may come of a request to a console that descends from a new one. -/
structure Lawful (c new : Console) (request : Request) (next : Console) (printed : String) :
    Prop where
  machine : next.machine ≠ c.machine →
    c.Asks 's' request ∨ c.Asks 'c' request ∨ c.Asks 'r' request
  breakpoints : next.breakpoints ≠ c.breakpoints → c.AsksToggle request
  hinted : printed ∈ hints → next.machine = c.machine ∧ next.breakpoints = c.breakpoints
  renewed : c.Asks 'r' request →
    next.machine = new.machine ∧ next.breakpoints = c.breakpoints
  counted : ¬ c.Asks 'r' request →
    ∃ k, next.machine = c.machine.after k ∧
      next.machine.core.stepCount = c.machine.core.stepCount + k

section Lawful

variable {c new next : Console} {request : Request} {printed : String}

theorem asks_reset_iff {line : Text} :
    c.Asks 'r' (.line line) ↔ Command.ofLine (c.effective line) = .reset := by
  constructor
  · rintro ⟨_, same, letter⟩
    cases same
    exact Command.ofLine_eq_reset letter
  · intro command
    have fits := Command.fits_ofLine (c.effective line)
    rw [command] at fits
    exact ⟨line, rfl, fits⟩

theorem lawful_of_kept (other : ¬ c.Asks 'r' request) (machine : next.machine = c.machine)
    (breakpoints : next.breakpoints = c.breakpoints) :
    c.Lawful new request next printed where
  machine changed := absurd machine changed
  breakpoints changed := absurd breakpoints changed
  hinted _ := ⟨machine, breakpoints⟩
  renewed asked := absurd asked other
  counted _ := ⟨0, machine, by rw [machine, Nat.add_zero]⟩

theorem lawful_of_advanced (other : ¬ c.Asks 'r' request) (idle : c.machine.runState = .idle)
    (asked : c.Asks 's' request ∨ c.Asks 'c' request) (silent : printed ∉ hints)
    (advanced : ∃ k, next.machine = c.machine.after k)
    (breakpoints : next.breakpoints = c.breakpoints) :
    c.Lawful new request next printed where
  machine _ := asked.imp_right Or.inl
  breakpoints changed := absurd breakpoints changed
  hinted hinted := absurd hinted silent
  renewed asked := absurd asked other
  counted _ := by
    obtain ⟨n, steps⟩ := advanced
    obtain ⟨k, same, count⟩ := Machine.exists_after_counted idle n
    exact ⟨k, steps.trans same, by rw [steps, count]⟩

theorem lawful_of_toggled (other : ¬ c.Asks 'r' request) (asked : c.AsksToggle request)
    (silent : printed ∉ hints) (machine : next.machine = c.machine) :
    c.Lawful new request next printed where
  machine changed := absurd machine changed
  breakpoints _ := asked
  hinted hinted := absurd hinted silent
  renewed asked := absurd asked other
  counted _ := ⟨0, machine, by rw [machine, Nat.add_zero]⟩

theorem lawful_of_renewed (asked : c.Asks 'r' request) (silent : printed ∉ hints)
    (machine : next.machine = new.machine) (breakpoints : next.breakpoints = c.breakpoints) :
    c.Lawful new request next printed where
  machine _ := Or.inr (Or.inr asked)
  breakpoints changed := absurd breakpoints changed
  hinted hinted := absurd hinted silent
  renewed _ := ⟨machine, breakpoints⟩
  counted other := absurd asked other

end Lawful

section Descends

variable {size : Nat} {source input : Text} {c next : Console} {request : Request}
  {printed : String}

theorem machine_fresh (size : Nat) (source input : Text) :
    (fresh size source input).machine =
      { Machine.blank size with core := .load size source input } := by
  rw [fresh, Machine.load_eq, Machine.cancelPending_of_none rfl, Machine.tapeSize_blank]
  rfl

theorem Descends.machine_eq (h : c.Descends (fresh size source input)) :
    ∃ n, c.machine =
      { Machine.blank size with core := (Core.load size source input).after n } := by
  obtain ⟨n, descent⟩ := h.machine
  refine ⟨n, ?_⟩
  rw [descent, machine_fresh, Machine.after_eq_of_idle rfl]

theorem Descends.idle (h : c.Descends (fresh size source input)) : c.machine.runState = .idle := by
  obtain ⟨n, descent⟩ := h.machine_eq
  rw [descent]
  rfl

theorem Descends.valid_core (hsize : 0 < size) (h : c.Descends (fresh size source input)) :
    c.machine.core.Valid size := by
  obtain ⟨n, descent⟩ := h.machine_eq
  rw [descent]
  exact (Core.valid_load hsize source input).after n

/-- The step counter says how many steps the machine is from its start. -/
theorem Descends.stepCount (h : c.Descends (fresh size source input)) :
    c.machine = (fresh size source input).machine.after c.machine.core.stepCount := by
  obtain ⟨n, descent⟩ := h.machine_eq
  rw [descent, machine_fresh, Machine.after_eq_of_idle rfl, Core.after_stepCount rfl]

theorem Descends.running (h : c.Descends (fresh size source input)) {k : Nat}
    (hk : k < c.machine.core.stepCount) :
    ((fresh size source input).machine.after k).core.halted = false := by
  obtain ⟨n, descent⟩ := h.machine_eq
  have late : k < ((Core.load size source input).after n).stepCount := by rwa [descent] at hk
  rw [machine_fresh, Machine.core_after]
  rcases (Core.load size source input).running_or_haltsAfter (k + 1) with running | ⟨j, hj, halts⟩
  · exact running k (Nat.lt_succ_self k)
  · have few := halts.stepCount_after_le rfl n
    omega

/-- After a reset the machine is the one that a new console has. -/
theorem Descends.machine_reset (h : c.Descends (fresh size source input)) :
    c.reset.machine = (fresh size source input).machine := by
  obtain ⟨n, descent⟩ := h.machine_eq
  have restarted : c.machine.reset false =
      { Machine.blank size with
        core := ((Core.load size source input).after n).restart false } := by
    rw [descent, Machine.reset_eq, Machine.cancelPending_of_none rfl]
    rfl
  have fits : (c.machine.reset false).tapeSize = size := by
    simp [restarted, Machine.tapeSize, Core.restart, Core.blankTape, Core.load, Core.install]
  have installed : c.reset.machine =
      { (c.machine.reset false).cancelPending with
        core := .install size c.program c.input, runState := .idle } := by
    rw [reset, Machine.install_eq, fits]
  rw [installed, restarted, machine_fresh, Machine.cancelPending_of_none rfl, h.program, h.input]
  rfl

theorem Descends.refl (c : Console) : c.Descends c :=
  ⟨rfl, rfl, 0, rfl⟩

/-- Which command an empty line repeats is of no account. -/
theorem Descends.recall {new : Console} (h : c.Descends new) (last : Text) :
    { c with last }.Descends new :=
  ⟨h.program, h.input, h.machine⟩

theorem Descends.turns {command : Command} (h : c.Descends (fresh size source input))
    (turns : command.Turns c next printed) : next.Descends (fresh size source input) := by
  cases command with
  | step | goOn =>
      obtain ⟨_, k, advanced⟩ := turns
      obtain ⟨n, descent⟩ := h.machine
      rw [advanced]
      exact ⟨h.program, h.input, n + k, by rw [descent, Machine.after_add]⟩
  | toggle pc =>
      obtain ⟨_, breakpoints, toggled⟩ := turns
      rw [toggled]
      exact ⟨h.program, h.input, h.machine⟩
  | reset =>
      obtain ⟨_, restarted⟩ := turns
      rw [restarted]
      exact ⟨h.program, h.input, 0, h.machine_reset⟩
  | quit | memory | output | usage | help =>
      rw [Command.Turns] at turns
      rw [turns]
      exact h

theorem Descends.answer (hsize : 0 < size) (h : c.Descends (fresh size source input))
    (answered : c.answer request = some (next, printed)) :
    next.Descends (fresh size source input) := by
  cases request with
  | state window context =>
      cases answered
      exact h
  | memory address count =>
      cases answered
      exact h
  | line line =>
      obtain ⟨outcome, performed, same⟩ := Option.map_eq_some_iff.1 answered
      cases same
      exact (h.recall _).turns (turns_of_execute (h.valid_core hsize) performed)

theorem Descends.converse {requests : List Request} (hsize : 0 < size)
    (h : c.Descends (fresh size source input)) (conversed : c.converse requests = some next) :
    next.Descends (fresh size source input) := by
  induction requests generalizing c with
  | nil =>
      cases conversed
      exact h
  | cons request rest ih =>
      obtain ⟨⟨later, printed⟩, answered, conversed⟩ := Option.bind_eq_some_iff.1 conversed
      exact ih (h.answer hsize answered) conversed

theorem Descends.lawful (hsize : 0 < size) (h : c.Descends (fresh size source input))
    (answered : c.answer request = some (next, printed)) :
    c.Lawful (fresh size source input) request next printed := by
  cases request with
  | state window context =>
      cases answered
      exact lawful_of_kept (by rintro ⟨_, ⟨⟩, _⟩) rfl rfl
  | memory address count =>
      cases answered
      exact lawful_of_kept (by rintro ⟨_, ⟨⟩, _⟩) rfl rfl
  | line line =>
      obtain ⟨outcome, performed, same⟩ := Option.map_eq_some_iff.1 answered
      cases same
      have turns := turns_of_execute (h.valid_core hsize) performed
      have fits := Command.fits_ofLine (c.effective line)
      have reset : c.Asks 'r' (.line line) ↔ Command.ofLine (c.effective line) = .reset :=
        asks_reset_iff
      -- From here on nothing but the command counts of the line.
      generalize Command.ofLine (c.effective line) = command at turns fits reset
      cases command with
      | step count =>
          obtain ⟨silent, k, advanced⟩ := turns
          rw [advanced]
          exact lawful_of_advanced (by simp [reset]) h.idle (Or.inl ⟨line, rfl, fits⟩) silent
            ⟨k, rfl⟩ rfl
      | goOn =>
          obtain ⟨silent, k, advanced⟩ := turns
          rw [advanced]
          exact lawful_of_advanced (by simp [reset]) h.idle (Or.inr ⟨line, rfl, fits⟩) silent
            ⟨k, rfl⟩ rfl
      | toggle pc =>
          obtain ⟨silent, breakpoints, toggled⟩ := turns
          obtain ⟨letter, word, second, number⟩ := fits
          rw [toggled]
          exact lawful_of_toggled (by simp [reset]) ⟨line, word, pc, rfl, letter, second, number⟩
            silent rfl
      | reset =>
          obtain ⟨silent, restarted⟩ := turns
          rw [restarted]
          exact lawful_of_renewed ⟨line, rfl, fits⟩ silent (h.recall _).machine_reset rfl
      | quit | memory | output | usage | help =>
          rw [Command.Turns] at turns
          rw [turns]
          exact lawful_of_kept (by simp [reset]) rfl rfl

/-- Only going on without coming to a stop leaves a request without an answer. -/
theorem Descends.unanswered (hsize : 0 < size) (h : c.Descends (fresh size source input))
    (unanswered : c.answer request = none) :
    c.Asks 'c' request ∧
      ∀ k, 0 < k → stopsAt c.breakpoints (c.machine.core.after k) = false := by
  cases request with
  | state | memory => cases unanswered
  | line line =>
      obtain ⟨letter, stopless⟩ :=
        execute_eq_none (h.valid_core hsize) (Option.map_eq_none_iff.1 unanswered)
      exact ⟨⟨line, rfl, letter⟩, stopless⟩

end Descends

/-- After any dialogue the machine is idle and as many steps from its start as it has
counted, none of them past the halt. Each further request changes it only where a
command for that is asked for, a reset alone makes it new, and all else lets it step and
count on; only a command to go on can be left without an answer, where nothing comes to
stop it. -/
theorem converse_counts_steps {size : Nat} {source input : Text} {requests : List Request}
    {c : Console} (hsize : 0 < size) (h : (fresh size source input).converse requests = some c) :
    let new := fresh size source input
    (∀ memory, memory.holds size = true →
      open? (.text source) (.text input) (.nat size) memory = .ok new) ∧
    c.machine = new.machine.after c.machine.core.stepCount ∧
    (∀ k < c.machine.core.stepCount, (new.machine.after k).core.halted = false) ∧
    c.machine.runState = .idle ∧
    ∀ request,
      (∀ next printed, c.answer request = some (next, printed) →
        c.Lawful new request next printed) ∧
      (c.answer request = none → c.Asks 'c' request ∧
        ∀ k, 0 < k → stopsAt c.breakpoints (c.machine.core.after k) = false) := by
  intro new
  have start : new.Descends new := ⟨rfl, rfl, 0, rfl⟩
  have descends := start.converse hsize h
  refine ⟨fun _ fits => open?_text hsize fits source input, descends.stepCount, ?_,
    descends.idle, ?_⟩
  · intro k hk
    exact descends.running hk
  · intro request
    refine ⟨?_, descends.unanswered hsize⟩
    intro next printed answered
    exact descends.lawful hsize answered

/-- A batch, the same again, and on to a breakpoint; the last line has no integer. -/
theorem converse_counts_steps_to_breakpoint :
    let new := fresh 2 (Text.ofString "+++++.+") []
    let requests : List Request :=
      [.line (Text.ofString "s 2"), .state (.int 8) (.int 2), .line [], .line (Text.ofString "b 6"),
        .line (Text.ofString " c"), .line (Text.ofString "b x")]
    ∃ c, 0 < 2 ∧ new.converse requests = some c ∧ c.machine = new.machine.after 6 ∧
      c.breakpoints = [6] ∧ c.machine.runState = .idle := by
  intro new requests
  have ended : (new.converse requests).map (fun c => (c.machine.core.stepCount, c.breakpoints)) =
      some (6, [6]) := by decide
  obtain ⟨c, conversed, seen⟩ := Option.map_eq_some_iff.1 ended
  obtain ⟨count, breakpoints⟩ := Prod.mk.inj seen
  obtain ⟨_, steps, _, idle, _⟩ := converse_counts_steps (by decide) conversed
  rw [count] at steps
  exact ⟨c, by decide, conversed, steps, breakpoints, idle⟩

end TapeMachine.Console
