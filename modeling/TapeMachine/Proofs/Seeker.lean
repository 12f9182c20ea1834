import TapeMachine.Proofs.Lifecycle
import TapeMachine.Proofs.Pairing
import TapeMachine.Proofs.Stepping

/-!
A machine without a table of partners. It looks for the partner of a bracket
whenever it executes one that leads elsewhere, counting the depth command by
command to the end or the start of the program. Step by step the machine with
the table answers as this one does and shows the same state, on unbalanced
programs too.
-/

namespace TapeMachine

structure Seeker where
  commands : List Command
  tape : Array UInt8
  ptr : Nat
  pc : Nat
  input : Array UInt8
  inputPos : Nat
  output : Array UInt8
  stepCount : Nat
  runState : RunState

namespace Seeker

def load (size : Nat) (source input : Text) : Seeker :=
  { commands := source.filterMap Command.ofCodePoint?
    tape := Array.replicate size 0
    ptr := 0
    pc := 0
    input := (input.map CodePoint.lowByte).toArray
    inputPos := 0
    output := #[]
    stepCount := 0
    runState := .idle }

def cell (s : Seeker) : UInt8 :=
  s.tape.getD s.ptr 0

def setCell (s : Seeker) (value : UInt8) : Seeker :=
  { s with tape := s.tape.setIfInBounds s.ptr value }

def brackets (s : Seeker) : List (Option Bracket) :=
  s.commands.map Command.bracket?

/-- Where the depth that the opening here begins comes back to zero, or the place
past the end. -/
def closingPlace (s : Seeker) : Nat :=
  Bracket.scanForward (s.pc + 1) 1 (s.brackets.drop (s.pc + 1))

/-- Where the depth that the closing here begins comes back to zero on the way to
the start. -/
def openingPlace? (s : Seeker) : Option Nat :=
  Bracket.scanBackward 1 (s.brackets.take s.pc).reverse

def read (s : Seeker) : Seeker :=
  match s.input[s.inputPos]? with
  | some b => { s.setCell b with inputPos := s.inputPos + 1 }
  | none => s.setCell 0

/-- What a command does before the program counter moves on by one; none where a
search runs off the start. -/
def dispatch (s : Seeker) : Command → Option Seeker
  | .right => some { s with ptr := (s.ptr + 1) % s.tape.size }
  | .left => some { s with ptr := (((s.ptr : Int) - 1) % (s.tape.size : Int)).toNat }
  | .increment => some (s.setCell (s.cell + 1))
  | .decrement => some (s.setCell (s.cell - 1))
  | .write => some { s with output := s.output.push s.cell }
  | .read => some s.read
  | .loopStart => some (if s.cell = 0 then { s with pc := s.closingPlace } else s)
  | .loopEnd =>
    if s.cell = 0 then some s
    else s.openingPlace?.map fun place => { s with pc := place }

def halt (s : Seeker) : Seeker × Bool :=
  ({ s with runState := .idle }, false)

def settle (s : Seeker) : Seeker × Bool :=
  if s.pc < s.commands.length then (s, true) else s.halt

/-- One step, and whether the machine can go on. -/
def step (s : Seeker) : Seeker × Bool :=
  match s.commands[s.pc]? with
  | none => s.halt
  | some command =>
    let s := { s with stepCount := s.stepCount + 1 }
    match s.dispatch command with
    | some s => { s with pc := s.pc + 1 }.settle
    | none => { s with pc := s.commands.length }.halt

/-- The states and answers of `n` calls for a step, in order. -/
def calls : Nat → Seeker → List (Seeker × Bool)
  | 0, _ => []
  | n + 1, s => s.step :: calls n s.step.1

end Seeker

namespace Machine

/-- The states and answers of `n` calls for a step, in order. -/
def calls : Nat → Machine → List (Machine × Bool)
  | 0, _ => []
  | n + 1, m => m.step :: calls n m.step.1

/-- Each call answers whether the machine can go on. -/
theorem map_snd_calls (n : Nat) (m : Machine) :
    (m.calls n).map Prod.snd =
      (List.range n).map fun k => !(m.core.after (k + 1)).halted := by
  induction n generalizing m with
  | zero => rfl
  | succ n ih =>
      rw [calls, List.map_cons, ih, List.range_succ_eq_map, List.map_cons, List.map_map,
        canContinue_step, core_step]
      rfl

/-- What there is to see of a machine, its table of partners and what its hosts
set left out. -/
def asSeeker (m : Machine) : Seeker :=
  { commands := m.core.program.commands.toList
    tape := m.core.tape
    ptr := m.core.ptr
    pc := m.core.pc
    input := m.core.input
    inputPos := m.core.inputPos
    output := m.core.output
    stepCount := m.core.stepCount
    runState := m.runState }

theorem asSeeker_load (m : Machine) (source input : Text) :
    (m.load source input).asSeeker = Seeker.load m.tapeSize source input := by
  simp [asSeeker, Seeker.load, Core.load, Core.install, Core.blankTape, Core.inputBytes,
    Program.toList_commands_ofSource]

private theorem left_of_pos {ptr size : Nat} (h : 0 < size) :
    (ptr + (size - 1)) % size = (((ptr : Int) - 1) % (size : Int)).toNat := by
  have same : ((ptr : Int) - 1) % (size : Int) =
      (((ptr + (size - 1) : Nat) : Int)) % (size : Int) := by
    rw [← Int.add_emod_right]
    congr 1
    omega
  rw [same, ← Int.natCast_mod, Int.toNat_natCast]

private theorem asSeeker_mapCell (m : Machine) (f : UInt8 → UInt8) :
    { m.asSeeker.setCell (f m.asSeeker.cell) with pc := m.core.pc + 1 } =
      { m with core := m.core.mapCell f }.asSeeker := by
  simp only [asSeeker, Core.tape_mapCell]
  rfl

private theorem pc_read (s : Seeker) : s.read.pc = s.pc := by
  unfold Seeker.read
  split <;> rfl

private theorem asSeeker_read (m : Machine) :
    { m.asSeeker.read with pc := m.asSeeker.read.pc + 1 } =
      { m with core := m.core.readByte }.asSeeker := by
  rw [pc_read]
  unfold Seeker.read Core.readByte
  change { (match m.core.input[m.core.inputPos]? with
    | some b => { m.asSeeker.setCell b with inputPos := m.core.inputPos + 1 }
    | none => m.asSeeker.setCell 0) with pc := m.core.pc + 1 } = _
  cases m.core.input[m.core.inputPos]? with
  | none => exact asSeeker_mapCell m fun _ => 0
  | some b =>
      simp only [asSeeker, Core.tape_mapCell]
      rfl

private theorem closingPlace_asSeeker (m : Machine) :
    m.asSeeker.closingPlace =
      Bracket.scanForward (m.core.pc + 1) 1 (m.core.program.brackets.drop (m.core.pc + 1)) := rfl

private theorem openingPlace?_asSeeker (m : Machine) :
    m.asSeeker.openingPlace? =
      Bracket.scanBackward 1 (m.core.program.brackets.take m.core.pc).reverse := rfl

private theorem asSeeker_enterLoop {m : Machine} (paired : m.core.program.IsPaired)
    (h : m.core.command? = some .loopStart) (zero : m.core.cell = 0) :
    { m.asSeeker with pc := m.asSeeker.closingPlace + 1 } =
      { m with core := m.core.enterLoop }.asSeeker := by
  rw [Core.enterLoop, if_pos zero, Core.partner?_of_loopStart paired h, closingPlace_asSeeker,
    Partner.ofForward]
  split
  · next index found =>
      split at found
      · cases found
      · cases found
        rfl
  · next unpaired =>
      split at unpaired
      · next past => simp [asSeeker, past]
      · next place _ => exact absurd rfl (unpaired _)

private theorem asSeeker_leaveLoop {m : Machine} (paired : m.core.program.IsPaired)
    (h : m.core.command? = some .loopEnd) (nonzero : m.core.cell ≠ 0) :
    ((m.asSeeker.openingPlace?.map fun place => { m.asSeeker with pc := place }).elim
      { m.asSeeker with pc := m.asSeeker.commands.length }
      fun s => { s with pc := s.pc + 1 }) =
      { m with core := m.core.leaveLoop }.asSeeker := by
  rw [Core.leaveLoop, if_neg nonzero, Core.partner?_of_loopEnd paired h, openingPlace?_asSeeker]
  cases Bracket.scanBackward 1 (m.core.program.brackets.take m.core.pc).reverse with
  | none => simp [Partner.ofBackward, asSeeker, Program.length]
  | some place => rfl

/-- The table leads where the search does, and the other commands act alike. -/
theorem dispatch_asSeeker {m : Machine} {command : Command} (hsize : 0 < m.core.tape.size)
    (paired : m.core.program.IsPaired) (h : m.core.command? = some command) :
    ((m.asSeeker.dispatch command).elim
      { m.asSeeker with pc := m.asSeeker.commands.length }
      fun s => { s with pc := s.pc + 1 }) =
    { m with core := m.core.execute command }.asSeeker := by
  cases command with
  | right => rfl
  | left => simp [Seeker.dispatch, asSeeker, Core.execute, left_of_pos hsize]
  | increment => exact asSeeker_mapCell m (· + 1)
  | decrement => exact asSeeker_mapCell m (· - 1)
  | write => rfl
  | read => exact asSeeker_read m
  | loopStart =>
      by_cases zero : m.core.cell = 0
      · have here : m.asSeeker.cell = 0 := zero
        rw [Seeker.dispatch, if_pos here]
        exact asSeeker_enterLoop paired h zero
      · have here : m.asSeeker.cell ≠ 0 := zero
        rw [Seeker.dispatch, if_neg here, Core.execute, Core.enterLoop, if_neg zero]
        rfl
  | loopEnd =>
      by_cases zero : m.core.cell = 0
      · have here : m.asSeeker.cell = 0 := zero
        rw [Seeker.dispatch, if_pos here, Core.execute, Core.leaveLoop, if_pos zero]
        rfl
      · have here : m.asSeeker.cell ≠ 0 := zero
        rw [Seeker.dispatch, if_neg here]
        exact asSeeker_leaveLoop paired h zero

private theorem settle_asSeeker (m : Machine) :
    m.asSeeker.settle = (m.settle.asSeeker, !m.core.halted) := by
  have length : m.asSeeker.commands.length = m.core.program.length := Array.length_toList
  cases h : m.core.halted with
  | false =>
      have inside : m.core.pc < m.core.program.length := by simpa [Core.halted] using h
      rw [settle_of_running h, Seeker.settle, length]
      exact if_pos inside
  | true =>
      have outside : ¬ m.core.pc < m.core.program.length := by simpa [Core.halted] using h
      rw [settle_of_halted h, Seeker.settle, length]
      exact if_neg outside

/-- One step of the machine with the table is one step of the machine without. -/
theorem step_asSeeker {m : Machine} (hsize : 0 < m.core.tape.size)
    (paired : m.core.program.IsPaired) :
    m.asSeeker.step = (m.step.1.asSeeker, m.step.2) := by
  cases h : m.core.command? with
  | none =>
      have halted := (Core.command?_eq_none_iff m.core).1 h
      have stuck : m.asSeeker.commands[m.asSeeker.pc]? = none := by
        simpa [asSeeker, Core.command?] using h
      rw [Seeker.step, stuck, step]
      simp [Core.step_of_halted halted, settle, halted, Seeker.halt, asSeeker]
  | some command =>
      have next : m.asSeeker.commands[m.asSeeker.pc]? = some command := by
        simpa [asSeeker, Core.command?] using h
      let counted : Machine :=
        { m with core := { m.core with stepCount := m.core.stepCount + 1 } }
      let moved : Machine := { counted with core := counted.core.execute command }
      have stepped : m.step = (moved.settle, !moved.core.halted) := by
        simp [step, Core.step_of_command h, moved, counted]
      have effect : (counted.asSeeker.dispatch command).elim _ _ = moved.asSeeker :=
        dispatch_asSeeker hsize paired h
      rw [stepped, ← settle_asSeeker, Seeker.step, next]
      change (match counted.asSeeker.dispatch command with
        | some s => { s with pc := s.pc + 1 }.settle
        | none => { counted.asSeeker with pc := m.asSeeker.commands.length }.halt) = _
      cases found : counted.asSeeker.dispatch command with
      | some s =>
          rw [found] at effect
          exact congrArg Seeker.settle effect
      | none =>
          rw [found] at effect
          have past : moved.asSeeker.settle = moved.asSeeker.halt := by
            rw [← effect]
            exact if_neg (Nat.lt_irrefl _)
          rw [past, ← effect]
          rfl

/-- Call by call, a loaded machine answers and looks like one that seeks the
partner of every bracket anew. -/
theorem calls_load_asSeeker (m : Machine) (source input : Text) (n : Nat)
    (hsize : 0 < m.tapeSize) :
    ((m.load source input).calls n).map (fun call => (call.1.asSeeker, call.2)) =
      (Seeker.load m.tapeSize source input).calls n := by
  have along (m : Machine) (hsize : 0 < m.core.tape.size) (paired : m.core.program.IsPaired) :
      (m.calls n).map (fun call => (call.1.asSeeker, call.2)) = m.asSeeker.calls n := by
    induction n generalizing m with
    | zero => rfl
    | succ n ih =>
        rw [calls, Seeker.calls, List.map_cons, step_asSeeker hsize paired]
        rw [ih m.step.1 (by simpa using hsize) (by simpa using paired)]
  rw [← asSeeker_load]
  apply along
  · simpa [Core.load, Core.install, Core.blankTape] using hsize
  · rw [core_load]
    exact Program.isPaired_ofSource source

theorem calls_load_asSeeker_unbalanced :
    0 < (blank 2).tapeSize ∧
      (((blank 2).load (Text.ofString "][-[,]+]") [.scalar 'a']).calls 9).map
          (fun call => (call.1.asSeeker, call.2)) =
        (Seeker.load 2 (Text.ofString "][-[,]+]") [.scalar 'a']).calls 9 :=
  ⟨by decide, calls_load_asSeeker (blank 2) (Text.ofString "][-[,]+]") [.scalar 'a'] 9 (by decide)⟩

end Machine

end TapeMachine
