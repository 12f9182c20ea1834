import TapeMachine.Proofs.Advancing
import TapeMachine.Proofs.Reading
import TapeMachine.Proofs.Unbalanced

/-!
What a run with a record leaves in it. A step writes one byte at most, and each pass over a
step hands on what that step wrote, so the pieces are single characters, one for each write
that was executed, and nothing is held back. With a trace there is also one line for each
step, which tells the state that the step was made from, and all else stays the same.
-/

namespace TapeMachine

namespace Core

/-- What the next step writes. -/
def writes (c : Core) : List UInt8 :=
  if c.command? = some .write then [c.cell] else []

theorem output_execute (c : Core) (command : Command) :
    (c.execute command).output =
      if command = .write then c.output.push c.cell else c.output := by
  cases command with
  | right | left | increment | decrement | write => rfl
  | read =>
      simp only [execute, readByte]
      split <;> rfl
  | loopStart =>
      rw [execute, enterLoop_eq]
      rfl
  | loopEnd =>
      rw [execute, leaveLoop_eq]
      rfl

theorem toList_output_step (c : Core) : c.step.output.toList = c.output.toList ++ c.writes := by
  cases h : c.command? with
  | none => simp [step_of_halted ((command?_eq_none_iff c).1 h), writes, h]
  | some command =>
      rw [step_of_command h, output_execute, writes, h]
      by_cases write : command = .write
      · simp [write, cell]
      · simp [write]

/-- What is written stays written. -/
theorem output_after_prefix {m n : Nat} (h : m ≤ n) (c : Core) :
    (c.after m).output.toList <+: (c.after n).output.toList := by
  induction h with
  | refl => exact List.prefix_rfl
  | step _ ih =>
      rw [after_succ_step, toList_output_step]
      exact ih.trans (List.prefix_append _ _)

theorem length_writes (c : Core) : c.writes.length = c.command?.toList.count .write := by
  rw [writes]
  cases c.command? with
  | none => rfl
  | some command => by_cases write : command = .write <;> simp [write]

/-- The output grows by one byte for each write that is executed. -/
theorem size_output_after (n : Nat) (c : Core) :
    (c.after n).output.size = c.output.size + (c.history n).count .write := by
  induction n with
  | zero => rfl
  | succ n ih =>
      have grown := congrArg List.length (toList_output_step (c.after n))
      rw [List.length_append, Array.length_toList, Array.length_toList, length_writes] at grown
      rw [after_succ_step, grown, ih, history_succ, List.count_append, Nat.add_assoc]

end Core

namespace Transcript

/-- The record after `n` passes over a step. -/
def passes (tracing : Bool) (n : Nat) (m : Machine) : Transcript :=
  (advance {} tracing)^[n] (ofMachine m)

/-- The line of a trace about the step with a number, from the state that it is made in. -/
def lineAbout (step pc : Nat) (command : Command) (ptr : Nat) (cell : UInt8) : String :=
  let steps := Layout.right 8 (toString step)
  let pc := Layout.left 6 (toString pc)
  let ptr := Layout.left 6 (toString ptr)
  s!"{steps}  pc={pc} {command.toChar.toString}  ptr={ptr} cell={cell}\n"

theorem traceLine_of_command {c : Core} {command : Command} (h : c.command? = some command) :
    traceLine c = lineAbout c.stepCount c.pc command c.ptr c.cell := by
  rw [traceLine, h]
  rfl

theorem passes_succ (tracing : Bool) (n : Nat) (m : Machine) :
    passes tracing (n + 1) m = (passes tracing n m).advance {} tracing :=
  Function.iterate_succ_apply' _ n _

theorem machine_passes (tracing : Bool) (n : Nat) (m : Machine) :
    (passes tracing n m).machine = m.after n := by
  induction n with
  | zero => rfl
  | succ n ih => rw [passes_succ, machine_advance, ih, Machine.after, Machine.after,
      Function.iterate_succ_apply']

/-- What a record has of the first steps of a machine. -/
structure Records (tracing : Bool) (m : Machine) (n : Nat) (t : Transcript) : Prop where
  written : t.written = (m.after n).core.output.size
  chunks : t.chunks.toList = (m.after n).core.output.toList.map fun b => Text.ofBytes [b]
  flushes : t.flushes = t.chunks.size
  trace : t.trace.toList =
    if tracing then (List.range n).map fun k => traceLine (m.after k).core else []

theorem note_of_running {t : Transcript} (h : t.machine.core.halted = false) (tracing : Bool) :
    t.note tracing =
      { t with
        trace := if tracing then t.trace.push (traceLine t.machine.core) else t.trace } := by
  cases tracing <;> simp [note, h]

theorem passOn_of_same {t : Transcript} (h : t.written = t.machine.core.output.size) :
    t.passOn = t := by
  simp [passOn, h]

theorem passOn_of_push {t : Transcript} {before : Array UInt8} {b : UInt8}
    (h : t.written = before.size) (pushed : t.machine.core.output = before.push b) :
    t.passOn =
      { t with
        chunks := t.chunks.push (Text.ofBytes [b])
        flushes := t.flushes + 1
        written := before.size + 1 } := by
  simp [passOn, h, pushed, Array.extract_push]

theorem records_ofMachine {m : Machine} (h : m.core.output = #[]) (tracing : Bool) :
    Records tracing m 0 (ofMachine m) where
  written := by simp [ofMachine, h]
  chunks := by simp [ofMachine, h]
  flushes := rfl
  trace := by simp [ofMachine]

/-- A pass over a step records that step. -/
theorem Records.advance {tracing : Bool} {m : Machine} {n : Nat} {t : Transcript}
    (h : Records tracing m n t) (place : t.machine = m.after n)
    (running : (m.after n).core.halted = false) :
    Records tracing m (n + 1) (t.advance {} tracing) := by
  have next : m.after (n + 1) = (m.after n).step.1 := Function.iterate_succ_apply' _ n m
  have stepped : (t.note tracing).stepMachine =
      { t with
        machine := m.after (n + 1)
        trace := if tracing then t.trace.push (traceLine (m.after n).core) else t.trace } := by
    rw [note_of_running (by rwa [place]), stepMachine, place, next]
  have trace : (if tracing then t.trace.push (traceLine (m.after n).core) else t.trace).toList =
      if tracing then (List.range (n + 1)).map fun k => traceLine (m.after k).core else [] := by
    have before := h.trace
    cases tracing with
    | false => simpa using before
    | true => simpa [List.range_succ] using before
  have output : (m.after (n + 1)).core.output.toList =
      (m.after n).core.output.toList ++ (m.after n).core.writes := by
    rw [next, Machine.core_step, Core.toList_output_step]
  simp only [Transcript.advance, isCut_unlimited, Bool.false_eq_true, if_false]
  generalize (t.note tracing).stepMachine = s at stepped
  by_cases write : (m.after n).core.command? = some .write
  · rw [Core.writes, if_pos write, ← Array.toList_push, Array.toList_inj] at output
    rw [passOn_of_push (t := s) (by rw [stepped]; exact h.written) (by rw [stepped]; exact output),
      stepped]
    constructor
    case written => simp only [output, Array.size_push]
    case chunks =>
      simp only [output, Array.toList_push, h.chunks, List.map_append, List.map_singleton]
    case flushes => simp only [h.flushes, Array.size_push]
    case trace => exact trace
  · rw [Core.writes, if_neg write, List.append_nil, Array.toList_inj] at output
    rw [passOn_of_same (by rw [stepped, output]; exact h.written), stepped]
    constructor
    case written => simp only [output, h.written]
    case chunks => simp only [output, h.chunks]
    case flushes => exact h.flushes
    case trace => exact trace

/-- Passes over the steps of a run record them one by one. -/
theorem records_passes {m : Machine} (h : m.core.output = #[]) (tracing : Bool) {n : Nat}
    (running : ∀ k < n, (m.after k).core.halted = false) :
    Records tracing m n (passes tracing n m) := by
  induction n with
  | zero => exact records_ofMachine h tracing
  | succ n ih =>
      rw [passes_succ]
      exact (ih fun k hk => running k (Nat.lt_succ_of_lt hk)).advance (machine_passes tracing n m)
        (running n (Nat.lt_succ_self n))

section Records

variable {tracing : Bool} {m : Machine} {n : Nat} {t : Transcript}

theorem Records.length_of_mem (h : Records tracing m n t) {chunk : Text} (hmem : chunk ∈ t.chunks) :
    chunk.length = 1 := by
  rw [← Array.mem_toList_iff, h.chunks, List.mem_map] at hmem
  obtain ⟨b, _, rfl⟩ := hmem
  rfl

theorem Records.outputText_eq (h : Records tracing m n t) :
    t.outputText = (m.after n).core.outputText := by
  rw [outputText, h.chunks, Core.outputText]
  induction (m.after n).core.output.toList with
  | nil => rfl
  | cons b rest ih => simpa [Text.ofBytes] using ih

theorem Records.size_chunks_eq (h : Records tracing m n t) :
    t.chunks.size = (m.after n).core.output.size := by
  have length := congrArg List.length h.chunks
  rwa [List.length_map, Array.length_toList, Array.length_toList] at length

theorem Records.size_chunks (h : Records tracing m n t) (fresh : m.core.output = #[]) :
    t.chunks.size = (m.core.history n).count .write := by
  rw [h.size_chunks_eq, Machine.core_after, Core.size_output_after, fresh]
  simp

/-- A trace is all that tells two records of the same steps apart. -/
theorem Records.eq_traced {t' : Transcript} (h : Records false m n t) (h' : Records true m n t')
    (place : t.machine = m.after n) (place' : t'.machine = m.after n) :
    t' = { t with trace := t'.trace } := by
  have chunks : t'.chunks = t.chunks := by rw [← Array.toList_inj, h.chunks, h'.chunks]
  have flushes : t'.flushes = t.flushes := by rw [h.flushes, h'.flushes, chunks]
  have written : t'.written = t.written := by rw [h.written, h'.written]
  rw [← chunks, ← flushes, ← written, place, ← place']

/-- The trace has a line for each step, about the state that the step was made in. -/
theorem Records.getElem?_trace (h : Records true m n t) (zero : m.core.stepCount = 0)
    (running : ∀ k < n, (m.after k).core.halted = false) {k : Nat} (hk : k < n) :
    let c := (m.after k).core
    ∃ command, c.command? = some command ∧
      t.trace[k]? = some (lineAbout k c.pc command c.ptr c.cell) := by
  intro c
  have line : t.trace[k]? = some (traceLine c) := by
    rw [← Array.getElem?_toList, h.trace, if_pos rfl, List.getElem?_map, List.getElem?_range hk]
    rfl
  cases hcommand : c.command? with
  | none =>
      have halted := (Core.command?_eq_none_iff c).1 hcommand
      rw [running k hk] at halted
      cases halted
  | some command =>
      have count : c.stepCount = k := by
        have running' (j : Nat) (hj : j < k) : (m.core.after j).halted = false := by
          rw [← Machine.core_after]
          exact running j (Nat.lt_trans hj hk)
        simp only [c, Machine.core_after, Core.stepCount_after_of_running running', zero,
          Nat.zero_add]
      refine ⟨command, rfl, ?_⟩
      rw [line, traceLine_of_command hcommand, count]

end Records

/-- Whether a run to a limit, or without one, makes exactly `n` steps when everything
can be written. -/
structure Covers (m : Machine) (limit : Option Nat) (n : Nat) : Prop where
  running : ∀ k < n, (m.after k).core.halted = false
  within : ∀ l, limit = some l → n ≤ l
  stops : limit = some n ∨ (m.after n).core.halted = true

theorem exists_covers {m : Machine} {limit : Option Nat}
    (h : limit = none → ∃ n, (m.after n).core.halted = true) : ∃ n, Covers m limit n := by
  simp only [Machine.core_after] at h
  have halts (n : Nat) (halted : (m.core.after n).halted = true) :
      ∃ k ≤ n, m.core.HaltsAfter k := Core.exists_stopsAfter halted
  cases limit with
  | none =>
      obtain ⟨n, halted⟩ := h rfl
      obtain ⟨k, _, first⟩ := halts n halted
      exact ⟨k, by simpa using first.2, by simp, Or.inr (by simpa using first.1)⟩
  | some limit =>
      rcases m.core.running_or_haltsAfter limit with running | ⟨k, hk, first⟩
      · exact ⟨limit, by simpa using running, by simp, Or.inl rfl⟩
      · refine ⟨k, by simpa using first.2, ?_, Or.inr (by simpa using first.1)⟩
        intro l same
        cases same
        exact Nat.le_of_lt hk

section Outlets

variable {outlets : Outlets} {tracing : Bool}

/-- A pass that leaves nothing unwritten is the pass that has room for everything. -/
theorem advance_eq_of_uncut {t : Transcript} (h : (t.advance {} tracing).isCut outlets = false) :
    t.advance outlets tracing = t.advance {} tracing := by
  have whole : t.advance {} tracing = (t.note tracing).stepMachine.passOn := by
    simp [Transcript.advance]
  rw [whole, isCut, trace_passOn, Bool.or_eq_false_iff] at h
  have pieces : (t.note tracing).chunks.size ≤ (t.note tracing).stepMachine.passOn.chunks.size := by
    simp only [passOn]
    split
    · rw [Array.size_push]
      exact Nat.le_succ _
    · exact Nat.le_refl _
  have before : (t.note tracing).isCut outlets = false := by
    rw [isCut, Bool.or_eq_false_iff]
    exact ⟨h.1, Outlets.exceeds_of_le pieces h.2⟩
  rw [whole, Transcript.advance, before]
  rfl

theorem iterate_advance {m : Machine} {n : Nat}
    (h : ∀ k < n, (passes tracing (k + 1) m).isCut outlets = false) :
    (advance outlets tracing)^[n] (ofMachine m) = passes tracing n m := by
  induction n with
  | zero => rfl
  | succ n ih =>
      have last := h n (Nat.lt_succ_self n)
      rw [passes_succ] at last
      rw [Function.iterate_succ_apply', ih fun k hk => h k (Nat.lt_succ_of_lt hk),
        advance_eq_of_uncut last, passes_succ]

theorem isDone_passes {m : Machine} {k : Nat} (h : (passes tracing k m).isCut outlets = false) :
    (passes tracing k m).isDone outlets = (m.after k).core.halted := by
  rw [isDone, h, Bool.or_false, machine_passes]

end Outlets

/-- A run with a record of which everything can be written is so many passes as the run
makes steps. -/
theorem Covers.follow_eq {size : Nat} {m : Machine} {limit : Option Nat} {n : Nat}
    {outlets : Outlets} (h : Covers m limit n) (valid : m.core.Valid size) (fresh : m.Fresh)
    (tracing : Bool) (room : ∀ k ≤ n, (passes tracing k m).isCut outlets = false) :
    follow tracing limit m outlets = some (passes tracing n m) := by
  have iterated (k : Nat) (hk : k ≤ n) :
      (advance outlets tracing)^[k] (ofMachine m) = passes tracing k m :=
    iterate_advance fun j hj => room (j + 1) (Nat.le_trans hj hk)
  have running (k : Nat) (hk : k < n) :
      ((advance outlets tracing)^[k] (ofMachine m)).isDone outlets = false := by
    rw [iterated k (Nat.le_of_lt hk), isDone_passes (room k (Nat.le_of_lt hk))]
    exact h.running k hk
  have ends (halted : (m.after n).core.halted = true) :
      ((advance outlets tracing)^[n] (ofMachine m)).isDone outlets = true := by
    rw [iterated n (Nat.le_refl n), isDone_passes (room n (Nat.le_refl n))]
    exact halted
  rw [← iterated n (Nat.le_refl n)]
  cases limit with
  | none =>
      have halted : (m.after n).core.halted = true := h.stops.resolve_left (by simp)
      have first : m.core.HaltsAfter n :=
        ⟨by simpa using halted, by simpa using h.running⟩
      have covered := Core.StopsAfter.lt_searchRounds Core.isStop_halted valid first
      exact Loop.search_of_first _ _ (Nat.lt_of_lt_of_le covered (le_searchRounds outlets m.core))
        running (ends halted)
  | some limit =>
      rw [follow_some fresh]
      rcases h.stops with same | halted
      · cases same
        rw [Loop.times_of_running _ _ running]
      · rw [Loop.times_of_first _ _ (h.within limit rfl) running (ends halted)]

/-- A run that is cut short has handed on all that was written by then. -/
theorem Covers.exists_early {size : Nat} {m : Machine} {limit : Option Nat} {n k : Nat}
    (h : Covers m limit n) (valid : m.core.Valid size) (fresh : m.Fresh) (hk : k ≤ n) :
    ∃ early, follow false (some k) m = some early ∧ early.machine = m.after k ∧
      early.outputText = early.machine.core.outputText ∧
      early.chunks.toList <+: (passes false n m).chunks.toList := by
  have running (j : Nat) (hj : j < k) : (m.after j).core.halted = false :=
    h.running j (Nat.lt_of_lt_of_le hj hk)
  have early : Covers m (some k) k :=
    ⟨running, fun l same => Nat.le_of_eq (Option.some.inj same), Or.inl rfl⟩
  have records := records_passes fresh.output false running
  refine ⟨passes false k m, early.follow_eq valid fresh false fun _ _ => rfl,
    machine_passes false k m, ?_, ?_⟩
  · rw [records.outputText_eq, machine_passes]
  · rw [records.chunks, (records_passes fresh.output false h.running).chunks, Machine.core_after,
      Machine.core_after]
    exact (Core.output_after_prefix hk m.core).map _

/-- Where brackets must balance, a source that does not is refused before there is
anything to record. -/
theorem run_of_not_balanced {code : Text} (h : ¬Bracket.Balanced (Bracket.ofText code))
    (input tapeSize maxSteps : Json) (trace : Bool) (memory : Memory) (outlets : Outlets) :
    run (.text code) input { tapeSize, strict := true, trace, maxSteps } memory outlets =
      .error (.unbalanced ⟨Bracket.unpaired (Bracket.partners (Bracket.ofText code))⟩) := by
  have checked : checkBalance (.text code) =
      .error (.unbalanced ⟨Bracket.unpaired (Bracket.partners (Bracket.ofText code))⟩) := by
    simp only [checkBalance, programOf, Program.requireBalanced_of_not_balanced h]
    rfl
  simp only [run, checked]
  rfl

/-- A run hands on every character of its output by itself and at once, and nothing else;
a trace adds one line for each step and changes nothing else; and a strict run is the same
on a balanced source, and leaves no record of any other. -/
theorem follow_records_each_write {size : Nat} (hsize : 0 < size) (code input : Text)
    (maxSteps : Option Int)
    (halts : maxSteps = none →
      ∃ n, (((Machine.blank size).load code input).after n).core.halted = true) :
    let loaded := (Machine.blank size).load code input
    let limit := maxSteps.map Int.toNat
    let options (strict trace : Bool) : Options :=
      { tapeSize := .nat size, strict, trace, maxSteps := .option (maxSteps.map .int) }
    ∃ t lines,
      let n := t.machine.core.stepCount
      follow false limit loaded = some t ∧
      follow true limit loaded = some { t with trace := lines } ∧
      t.machine = loaded.after n ∧ Covers loaded limit n ∧
      (∀ chunk ∈ t.chunks, chunk.length = 1) ∧ t.flushes = t.chunks.size ∧
      t.outputText = t.machine.core.outputText ∧
      t.chunks.size = (loaded.core.history n).count .write ∧
      (∀ k ≤ n, ∃ early, follow false (some k) loaded = some early ∧
        early.machine = loaded.after k ∧
        early.outputText = early.machine.core.outputText ∧
        early.chunks.toList <+: t.chunks.toList) ∧
      t.trace = #[] ∧ lines.size = n ∧
      (∀ k < n, let c := (loaded.after k).core
        ∃ command, c.command? = some command ∧
          lines[k]? = some (lineAbout k c.pc command c.ptr c.cell)) ∧
      (∀ memory, memory.holds size = true → ∀ strict,
        (strict = true → Bracket.Balanced (Bracket.ofText code)) →
        run (.text code) (.text input) (options strict false) memory = .ok (some t) ∧
        run (.text code) (.text input) (options strict true) memory =
          .ok (some { t with trace := lines })) ∧
      (¬Bracket.Balanced (Bracket.ofText code) → ∀ tapeSize maxSteps trace memory outlets,
        run (.text code) (.text input) { tapeSize, strict := true, trace, maxSteps } memory
            outlets =
          .error (.unbalanced ⟨Bracket.unpaired (Bracket.partners (Bracket.ofText code))⟩)) := by
  intro loaded limit options
  have core : loaded.core = Core.load size code input := by
    simp only [loaded, Machine.core_load, Machine.tapeSize_blank]
  have valid : loaded.core.Valid size := by
    rw [core]
    exact Core.valid_load hsize code input
  have fresh : loaded.Fresh := (Machine.blank size).fresh_load code input
  obtain ⟨n, covers⟩ := exists_covers (m := loaded) fun unlimited : limit = none =>
    halts (Option.map_eq_none_iff.1 unlimited)
  have records (tracing : Bool) : Records tracing loaded n (passes tracing n loaded) :=
    records_passes fresh.output tracing covers.running
  have follows (tracing : Bool) : follow tracing limit loaded = some (passes tracing n loaded) :=
    covers.follow_eq valid fresh tracing fun _ _ => rfl
  have traced := (records false).eq_traced (records true) (machine_passes false n loaded)
    (machine_passes true n loaded)
  have count : (passes false n loaded).machine.core.stepCount = n := by
    rw [machine_passes, Machine.core_after, Core.stepCount_after_of_running, fresh.stepCount,
      Nat.zero_add]
    simpa using covers.running
  refine ⟨passes false n loaded, (passes true n loaded).trace, ?_⟩
  simp only [count]
  refine ⟨follows false, traced ▸ follows true, machine_passes false n loaded, covers,
    fun _ hmem => (records false).length_of_mem hmem, (records false).flushes, ?_,
    (records false).size_chunks fresh.output, fun _ hk => covers.exists_early valid fresh hk,
    Array.toList_inj.1 (records false).trace, ?_,
    fun _ hk => (records true).getElem?_trace fresh.stepCount covers.running hk, ?_,
    fun unbalanced => run_of_not_balanced unbalanced (.text input)⟩
  · rw [(records false).outputText_eq, machine_passes]
  · have length := congrArg List.length (records true).trace
    simpa using length
  · intro memory fits strict balanced
    have checked (h : strict = true) := Program.requireBalanced_of_balanced (balanced h)
    constructor
    · rw [run_text hsize fits code input strict false maxSteps {} checked]
      exact congrArg Except.ok (follows false)
    · rw [run_text hsize fits code input strict true maxSteps {} checked, ← traced]
      exact congrArg Except.ok (follows true)

theorem follow_records_each_write_strict :
    let code := Text.ofString "+[.-]"
    let loaded := (Machine.blank 2).load code []
    let unopened := Text.ofString "]"
    0 < 2 ∧ (∃ n, (loaded.after n).core.halted = true) ∧
    Bracket.Balanced (Bracket.ofText code) ∧
    (∃ t lines, follow false none loaded = some t ∧
      t.chunks.size = (loaded.core.history t.machine.core.stepCount).count .write ∧
      lines.size = t.machine.core.stepCount ∧
      run (.text code) (.text []) { tapeSize := .nat 2, strict := true, trace := true } =
        .ok (some { t with trace := lines })) ∧
    ¬Bracket.Balanced (Bracket.ofText unopened) ∧
    run (.text unopened) (.text []) { strict := true, maxSteps := .int 3 } =
      .error (.unbalanced ⟨[0]⟩) := by
  intro code loaded unopened
  have halts : ∃ n, (loaded.after n).core.halted = true := ⟨5, by decide⟩
  have balanced : Bracket.Balanced (Bracket.ofText code) := by
    rw [Bracket.balanced_iff_unpaired]
    rfl
  have unbalanced : ¬Bracket.Balanced (Bracket.ofText unopened) := by
    rw [Bracket.balanced_iff_unpaired]
    decide
  obtain ⟨t, lines, follows, _, _, _, _, _, _, writes, _, _, count, _, strict, _⟩ :=
    follow_records_each_write Nat.two_pos code [] none fun _ => halts
  obtain ⟨_, _, _, _, _, _, _, _, _, _, _, _, _, _, _, refused⟩ :=
    follow_records_each_write Nat.one_pos unopened [] (some 3) (by simp)
  exact ⟨by decide, halts, balanced,
    ⟨t, lines, follows, writes, count, (strict .usual (by decide) true fun _ => balanced).2⟩,
    unbalanced, refused unbalanced _ _ _ _ _⟩

end Transcript

end TapeMachine
