import TapeMachine.Proofs.Locating
import TapeMachine.Proofs.PanelModes
import TapeMachine.Proofs.Restarting

/-!
What a panel shows. Whatever its user does and whenever its timers run out, the
panel shows its machine as it is, and the program that its machine has loaded is the
text in its editor.
-/

namespace TapeMachine

/-- The status that tells all of where a machine stands. -/
def Status.ofMachine (m : Machine) : Status :=
  .position m.core.stepCount m.core.pc m.core.program.length m.core.ptr m.core.cell m.runState

namespace Panel

/-- A panel whose machine has loaded the text in the editor. -/
structure Loaded (p : Panel) : Prop where
  program : p.machine.core.program = .ofSource p.editor
  core : p.machine.core.Valid Machine.defaultTapeSize

/-- A panel with a picture of the core of its machine. -/
structure Depicts (p : Panel) : Prop extends Loaded p where
  columns : p.columns = columnsOf p.machine.core
  highlight : p.highlight = p.machine.core.sourceOffset?
  output : p.output = p.machine.core.outputText

/-- A panel that also tells where its machine stands. -/
structure Displays (p : Panel) : Prop extends Depicts p where
  status : p.status = .ofMachine p.machine ∨
    p.machine.core.halted = true ∧ p.status = .finished p.machine.core.stepCount

section

variable {p : Panel} {fired : List Nat}

theorem Loaded.tapeSize (h : p.Loaded) : p.machine.tapeSize = Machine.defaultTapeSize :=
  h.core.size_tape

theorem Loaded.updateView (h : p.Loaded) : p.updateView.Displays :=
  { h with
    columns := rfl
    highlight := rfl
    output := rfl
    status := Or.inl rfl }

/-- Steps leave the program loaded. -/
theorem Loaded.advance (h : p.Loaded) {m : Machine} {n : Nat}
    (hm : m.core = p.machine.core.after n) : (p.setMachine m).Loaded := by
  constructor
  · show m.core.program = .ofSource p.editor
    rw [hm, Core.program_after, h.program]
  · show m.core.Valid _
    rw [hm]
    exact h.core.after n

theorem loaded_load (hsize : p.machine.tapeSize = Machine.defaultTapeSize) : p.load.Loaded := by
  have hcore : p.load.machine.core = .load Machine.defaultTapeSize p.editor p.input := by
    rw [← hsize]
    exact p.machine.core_load p.editor p.input
  constructor
  · rw [hcore]
    rfl
  · rw [hcore]
    apply Core.valid_load
    decide

/-- The picture stays right with any machine that has the same core. -/
theorem Depicts.setMachine (h : p.Depicts) {m : Machine} (hm : m.core = p.machine.core) :
    (p.setMachine m).Depicts := by
  have hcore : (p.setMachine m).machine.core = p.machine.core := hm
  constructor
  · constructor
    · rw [hcore]
      exact h.program
    · rw [hcore]
      exact h.core
  · rw [hcore]
    exact h.columns
  · rw [hcore]
    exact h.highlight
  · rw [hcore]
    exact h.output

theorem Depicts.pause (h : p.Depicts) : p.pause.Displays :=
  { h.setMachine p.machine.core_pause with status := Or.inl rfl }

theorem Depicts.finish (h : p.Depicts) (halted : p.machine.core.halted = true) :
    p.finish.Displays := by
  have paused : p.pause.machine.core = p.machine.core := p.machine.core_pause
  rw [← paused] at halted
  exact { h.pause with status := Or.inr ⟨halted, rfl⟩ }

theorem displays_reset (hsize : p.machine.tapeSize = Machine.defaultTapeSize) :
    p.reset.Displays := by
  rw [Panel.reset]
  apply Loaded.updateView
  apply loaded_load
  show (p.machine.pause.reset false).core.tape.size = Machine.defaultTapeSize
  rw [Machine.core_reset, Machine.core_pause, ← hsize]
  simp [Core.restart, Core.blankTape, Machine.tapeSize]

theorem Displays.schedule (h : p.Displays) : p.schedule.Displays :=
  { h with }

/-- A tick of a running panel ends with a picture of what it has come to. -/
theorem Loaded.tick (h : p.Loaded) (running : p.machine.runState = .running) :
    (pacer.tick p).Displays := by
  obtain ⟨n, hn⟩ := Machine.core_batch { p.machine with pending := none } none
  have stepped : (pacer.stepped p).updateView.Displays := (h.advance hn).updateView
  rw [follows_ledger.tick_of_running running]
  simp only
  split
  · next halted =>
      have paused := stepped.toDepicts.setMachine (pacer.stepped p).machine.core_pause
      apply paused.finish
      show (pacer.stepped p).machine.pause.core.halted = true
      rw [Machine.core_pause]
      exact halted
  · split
    · exact stepped.schedule
    · exact stepped

/-- A panel about to step has loaded what it steps through, and what it loaded is the
text in the editor. -/
theorem Loaded.step (h : p.Loaded) : p.step.1.Displays := by
  have loaded : (if p.machine.core.program.length = 0 then p.load else p).Loaded := by
    split
    · exact loaded_load h.tapeSize
    · exact h
  rw [Panel.step]
  generalize (if p.machine.core.program.length = 0 then p.load else p) = q at loaded ⊢
  have stepped : (q.setMachine q.machine.step.1).updateView.Displays :=
    (loaded.advance (n := 1) q.machine.core_step).updateView
  simp only [Machine.canContinue_step]
  cases halted : q.machine.core.step.halted with
  | true =>
      apply stepped.finish
      show q.machine.step.1.core.halted = true
      rw [Machine.core_step, halted]
  | false => exact stepped

theorem Displays.run (h : p.Displays) : p.run.Displays := by
  rw [Panel.run]
  split
  · exact h
  · next stopped =>
      let q := if p.machine.core.halted then p.load else p
      have loaded : q.Loaded := by
        simp only [q]
        split
        · exact loaded_load h.tapeSize
        · exact h.toLoaded
      have same : q.machine.runState ≠ .running := by
        simp only [q]
        split
        · simp [load, setMachine]
        · exact stopped
      rw [Pacer.start_of_stopped same]
      apply Loaded.tick _ rfl
      exact ⟨loaded.program, loaded.core⟩

theorem Displays.fire (h : p.Displays) : (p.fire?.getD p).Displays := by
  rw [fire?]
  split
  · exact h
  · next rest _ =>
      have waiting : { p with timers := rest }.Displays := { h with }
      by_cases running : p.machine.runState = .running
      · exact waiting.tick running
      · show (pacer.tick { p with timers := rest }).Displays
        rw [Pacer.tick_of_stopped running]
        exact { h with }

theorem Displays.setSpeed (h : p.Displays) {value : Json} {q : Panel}
    (hq : p.setSpeed value = .ok q) : q.Displays := by
  rw [Panel.setSpeed] at hq
  split at hq
  · cases hq
  · next x _ =>
      cases hwhole : Number.wholeOfReal x with
      | error refusal =>
          rw [hwhole] at hq
          cases hq
      | ok position =>
          rw [hwhole] at hq
          cases hq
          exact { h with }

theorem Displays.takeUpEdit (h : p.Displays) : p.takeUpEdit.Displays := by
  have taken : { p with edited := false }.Displays := { h with }
  rw [Panel.takeUpEdit]
  split
  · simp only
    split
    · exact taken
    · exact displays_reset taken.tapeSize
  · exact h

/-- A text that is typed on a panel at rest is taken up at once, by a reset. -/
theorem Displays.type (h : p.Displays) (stopped : p.machine.runState ≠ .running)
    (editor : Text) : { p with editor, edited := true }.takeUpEdit.Displays := by
  rw [Panel.takeUpEdit, if_pos rfl]
  simp only
  rw [if_neg stopped]
  exact displays_reset h.tapeSize

/-- An editor that can be edited belongs to a panel at rest. -/
theorem Orderly.stopped_of_editorEnabled (h : p.Orderly fired) (enabled : p.editorEnabled = true) :
    p.machine.runState ≠ .running := by
  rcases h.mode with runs | rests
  · rw [runs.editorEnabled] at enabled
    cases enabled
  · exact rests.runState

theorem Displays.take (h : p.Displays) (orderly : p.Orderly fired) (gesture : Gesture) :
    (p.take gesture).Displays := by
  cases gesture with
  | run => exact h.run
  | step => exact h.step
  | pause => exact h.pause
  | reset => exact displays_reset h.tapeSize
  | setSpeed value =>
      rw [Panel.take]
      split
      · next accepted => exact h.setSpeed accepted
      · exact h
  | edit editor =>
      rw [Panel.take, edit?]
      split
      · next enabled =>
          exact h.type (orderly.stopped_of_editorEnabled enabled) editor
      · exact h
  | setEdited edited =>
      have marked : { p with edited }.Displays := { h with }
      exact marked.takeUpEdit
  | setInput input => exact { h with }
  | fire => exact h.fire

theorem Displays.foldl_take (h : p.Displays) (orderly : p.Orderly fired)
    (gestures : List Gesture) : (gestures.foldl Panel.take p).Displays := by
  induction gestures generalizing p fired with
  | nil => exact h
  | cons gesture gestures ih =>
      obtain ⟨fired, taken⟩ := orderly.take gesture
      exact ih (h.take orderly gesture) taken

end

theorem displays_make (editor : Text) : (make editor).Displays := by
  rw [make]
  apply displays_reset
  exact Array.size_replicate

/-- The columns of a core: one for each cell of the window, in order, and blank ones
up to their number. -/
theorem columnsOf_eq (c : Core) :
    columnsOf c =
      ((c.window radius).2.zipIdx (c.window radius).1).map
          (fun (value, address) => Column.cell address value (address = c.ptr)) ++
        List.replicate (2 * radius + 1 - (c.window radius).2.length) .blank := by
  have hwidth : (c.window radius).2.length ≤ 2 * radius + 1 := by
    rw [Core.length_window]
    omega
  rw [columnsOf]
  simp only [List.length_map, List.length_zipIdx]
  rw [List.take_of_length_le (by simpa using hwidth)]

theorem getElem?_columnsOf_ptr {c : Core} (h : c.ptr < c.tape.size) :
    (columnsOf c)[c.ptr - (c.window radius).1]? = some (.cell c.ptr c.cell true) := by
  obtain ⟨hstart, hstop⟩ := c.ptr_mem_window radius h
  have hinside : c.ptr - (c.window radius).1 < (c.window radius).2.length := by omega
  have hplace : (c.window radius).1 + (c.ptr - (c.window radius).1) = c.ptr := by omega
  have hcell : (c.window radius).2[c.ptr - (c.window radius).1]? = some c.cell := by
    rw [c.getElem?_window radius hinside, ← Core.window_fst, hplace, Core.cell]
    simp [h]
  rw [columnsOf_eq, List.getElem?_append_left (by simpa using hinside)]
  simp [hcell, hplace]

/-- Only the pointer's cell is the current one. -/
theorem eq_of_isCurrent {c : Core} {i : Nat} {column : Column}
    (h : (columnsOf c)[i]? = some column) (current : column.isCurrent = true) :
    i = c.ptr - (c.window radius).1 := by
  rw [columnsOf_eq, List.getElem?_append] at h
  split at h
  · simp only [List.getElem?_map, List.getElem?_zipIdx, Option.map_map, Option.map_eq_some_iff] at h
    obtain ⟨value, _, rfl⟩ := h
    have hplace : (c.window radius).1 + i = c.ptr := by simpa [Column.isCurrent] using current
    omega
  · rw [List.eq_of_mem_replicate (List.mem_of_getElem? h)] at current
    cases current

/-- A panel shows its machine. The columns have the addresses and values of the cells
around the pointer, and only the pointer's own is the current one; the highlight is on
the next command, which stands there in the editor; and the status tells the steps, and
all else about where the machine stands unless it tells that it has finished. -/
theorem take_shows_machine (editor : Text) (gestures : List Gesture) :
    let p := gestures.foldl take (make editor)
    let c := p.machine.core
    let window := c.window 15
    p.output = c.outputText ∧
      p.columns.map Column.label? =
        (window.2.zipIdx window.1).map
            (fun (value, address) =>
              some (toString address, Layout.zeroFilled 3 value.toNat)) ++
          List.replicate (31 - window.2.length) none ∧
      (∃ i, p.columns[i]? = some (Column.cell c.ptr c.cell true) ∧
        ∀ (j : Nat) (column : Column),
          p.columns[j]? = some column → column.isCurrent = true → j = i) ∧
      c.program.source = p.editor ∧
      (c.halted = true → p.highlight = none) ∧
      (c.halted = false → ∃ offset command, p.highlight = some offset ∧
        c.sourceOffset? = some offset ∧ c.command? = some command ∧
        p.editor[offset]? = some (.scalar command.toChar)) ∧
      (p.status = .position c.stepCount c.pc c.program.length c.ptr c.cell p.machine.runState ∨
        c.halted = true ∧ p.status = .finished c.stepCount) := by
  intro p c window
  have h : p.Displays := (displays_make editor).foldl_take (orderly_make editor) gestures
  have hptr : c.ptr < c.tape.size := by
    rw [h.core.size_tape]
    exact h.core.ptr_lt
  refine ⟨h.output, ?_, ?_, ?_, ?_, ?_, h.status⟩
  · rw [h.columns, columnsOf_eq]
    simp [Column.label?, window, radius, c, Function.comp_def]
  · rw [h.columns]
    exact ⟨_, getElem?_columnsOf_ptr hptr, fun j column => eq_of_isCurrent⟩
  · show p.machine.core.program.source = p.editor
    rw [h.program]
    rfl
  · intro halted
    rw [h.highlight, Core.sourceOffset?, if_pos halted]
  · intro running
    rw [h.highlight]
    obtain ⟨offset, command, hoffset, found⟩ := Core.sourceOffset?_of_running h.program running
    exact ⟨offset, command, hoffset, hoffset, found⟩

end Panel

end TapeMachine
