import TapeMachine.CommandLine.Run
import TapeMachine.Proofs.Delivery

/-!
The exit status of a run from the command line. It is 1, with nothing written, where a file
stays closed whose name is a path, or a strict run finds a bracket without a partner. It is 1
also where something fails to be written, with the output up to there. Every other run that
returns has followed the loaded machine to its halt or to its limit. It is 0 or 2 by what the
machine does within that limit, so the step at which the limit and the halt meet counts as a
halt.
-/

namespace TapeMachine

namespace Transcript

section Covers

variable {m : Machine} {limit : Option Nat} {n : Nat}

/-- A run ends in a halt if its limit leaves the steps for one. -/
theorem Covers.halted_iff (h : Covers m limit n) :
    (m.after n).core.halted = true ↔
      ∃ k, (m.after k).core.halted = true ∧ ∀ l, limit = some l → k ≤ l := by
  constructor
  · intro halted
    exact ⟨n, halted, h.within⟩
  · rintro ⟨k, halted, within⟩
    rcases h.stops with same | stops
    · rw [Machine.core_after] at halted ⊢
      exact Core.halted_after_mono halted (within n same)
    · exact stops

/-- A run that does not end in a halt has used up its limit. -/
theorem Covers.eq_limit (h : Covers m limit n) (running : (m.after n).core.halted = false) :
    limit = some n := by
  refine h.stops.resolve_right ?_
  rw [running]
  exact Bool.false_ne_true

theorem Covers.running_iff (h : Covers m limit n) :
    (m.after n).core.halted = false ↔ ∃ l, limit = some l ∧ (m.after l).core.halted = false := by
  constructor
  · intro running
    exact ⟨n, h.eq_limit running, running⟩
  · rintro ⟨l, same, running⟩
    rw [← Bool.not_eq_true] at running ⊢
    intro halted
    rw [Machine.core_after] at running halted
    exact running (Core.halted_after_mono halted (h.within l same))

end Covers

/-- A tape has a size only where there is memory for it. -/
theorem holds_of_sizeOf {memory : Memory} {size cells : Nat}
    (h : sizeOf memory (.nat size) = .ok cells) : memory.holds size = true := by
  simp only [sizeOf, Json.nat, Number.ofJson?] at h
  split at h
  · cases h
  split at h
  · cases h
  split at h
  · cases h
  · next held => simpa using held

/-- What a run does once its brackets are checked. -/
theorem run_of_checked {o : Options} {code : Text}
    (balanced : o.strict = true → Bracket.Balanced (Bracket.ofText code)) (input : Json)
    (memory : Memory) (outlets : Outlets) :
    run (.text code) input o memory outlets =
      match loadedMachine (.text code) input o.tapeSize memory with
      | .error r => .error (.refused r)
      | .ok machine =>
        match limitOf o.maxSteps with
        | .error r => .error (.limit machine r)
        | .ok limit => .ok (follow o.trace limit machine outlets) := by
  have checked (strict : o.strict = true) : checkBalance (.text code) = .ok () := by
    simp only [checkBalance, programOf, Program.requireBalanced_of_balanced (balanced strict)]
    rfl
  cases strict : o.strict with
  | false =>
      simp only [run, strict]
      cases loadedMachine (.text code) input o.tapeSize memory <;> rfl
  | true =>
      simp only [run, strict, checked strict]
      cases loadedMachine (.text code) input o.tapeSize memory <;> rfl

theorem run_eq_unbalanced_iff (o : Options) (code : Text) (input : Json) (memory : Memory)
    (outlets : Outlets) :
    (∃ u, run (.text code) input o memory outlets = .error (.unbalanced u)) ↔
      o.strict = true ∧ ¬Bracket.Balanced (Bracket.ofText code) := by
  constructor
  · rintro ⟨u, h⟩
    by_contra passes
    rw [run_of_checked (fun strict => not_not.1 fun stray => passes ⟨strict, stray⟩)] at h
    split at h
    · cases h
    split at h <;> cases h
  · rintro ⟨strict, stray⟩
    obtain ⟨tapeSize, _, trace, maxSteps⟩ := o
    cases strict
    exact ⟨_, run_of_not_balanced stray input tapeSize maxSteps trace memory outlets⟩

/-- A run that begins follows the loaded machine, on a tape for which there is memory and to
a limit that is one. -/
theorem follow_of_run {size : Nat} (positive : 0 < size) {code input : Text}
    {strict trace : Bool} {maxSteps : Json} {memory : Memory} {outlets : Outlets}
    {last : Option Transcript}
    (h : run (.text code) (.text input) { tapeSize := .nat size, strict, trace, maxSteps } memory
      outlets = .ok last) :
    memory.holds size = true ∧ ∃ limit, limitOf maxSteps = .ok limit ∧
      follow trace limit ((Machine.blank size).load code input) outlets = last := by
  -- A strict run of any other source has ended before there is a machine.
  have balanced (checked : strict = true) : Bracket.Balanced (Bracket.ofText code) := by
    by_contra stray
    obtain ⟨u, refused⟩ := (run_eq_unbalanced_iff
      { tapeSize := .nat size, strict, trace, maxSteps } code (.text input) memory outlets).2
        ⟨checked, stray⟩
    rw [refused] at h
    cases h
  rw [run_of_checked balanced] at h
  cases hsize : sizeOf memory (.nat size) with
  | error refusal =>
      simp only [loadedMachine, Machine.make, hsize] at h
      cases h
  | ok cells =>
      have fits := holds_of_sizeOf hsize
      simp only [loadedMachine_text positive fits] at h
      split at h
      · cases h
      · next limit hlimit =>
        cases h
        exact ⟨fits, limit, hlimit, rfl⟩

end Transcript

/-- Without commands there is nothing left to do. -/
theorem Machine.halted_load_of_empty {m : Machine} {source input : Text}
    (h : (Program.ofSource source).length = 0) : (m.load source input).core.halted = true := by
  rw [core_load, Core.halted, decide_eq_true_eq]
  exact Nat.le_of_eq h

theorem eq_ok_of_toOption {ε α : Type} {x : Except ε α} {value : α}
    (h : x.toOption = some value) : x = .ok value := by
  cases x with
  | error => cases h
  | ok => exact congrArg Except.ok (Option.some.inj h)

namespace CommandLine

deriving instance DecidableEq for Quantity, Arguments

/-- Whether a system takes a text for the name of a file at all: it has no null character, and
its surrogates stand for bytes. -/
def IsPath (path : Text) : Prop :=
  .scalar '\x00' ∉ path ∧ ∀ c ∈ path, isSurrogate c = true → isByteEscape c = true

instance (path : Text) : Decidable (IsPath path) :=
  inferInstanceAs (Decidable (_ ∧ _))

theorem pathFault?_eq_none_iff (path : Text) (position : Nat) :
    pathFault? position path = none ↔
      ∀ c ∈ path, isSurrogate c = true → isByteEscape c = true := by
  induction path generalizing position with
  | nil => simp [pathFault?]
  | cons c rest ih =>
      rw [pathFault?, List.forall_mem_cons, ← ih (position + 1)]
      by_cases hasByte : isSurrogate c = true → isByteEscape c = true
      · have passes : ¬(isSurrogate c && !isByteEscape c) = true := by simpa using hasByte
        rw [if_neg passes, and_iff_right hasByte]
      · have faulty : (isSurrogate c && !isByteEscape c) = true := by simpa using hasByte
        rw [if_pos faulty]
        simp [hasByte]

namespace Environment

variable {env : Environment} {path : Text}

def CanOpen (env : Environment) (path : Text) : Prop :=
  IsPath path ∧ ∃ contents, env.system path = .ok contents

/-- Whether all that can be opened of some files is text. -/
def Decodes (env : Environment) (paths : List Text) : Prop :=
  ∀ path ∈ paths, env.CanOpen path →
    ∃ bytes text, env.system path = .ok (.ok bytes) ∧ Text.decodeUtf8 bytes = .ok text

/-- The file at which the opening of files one after another fails. -/
inductive FailsAt (env : Environment) : List Text → Text → Prop
  | here {path : Text} {rest : List Text} : ¬env.CanOpen path → FailsAt env (path :: rest) path
  | later {first path : Text} {rest : List Text} :
      env.CanOpen first → FailsAt env rest path → FailsAt env (first :: rest) path

theorem canOpen_or_failsAt (env : Environment) (paths : List Text) :
    (∀ path ∈ paths, env.CanOpen path) ∨ ∃ path, env.FailsAt paths path := by
  induction paths with
  | nil => simp
  | cons first rest ih =>
      by_cases opens : env.CanOpen first
      · rcases ih with all | ⟨path, fails⟩
        · exact .inl (List.forall_mem_cons.2 ⟨opens, all⟩)
        · exact .inr ⟨path, .later opens fails⟩
      · exact .inr ⟨first, .here opens⟩

theorem FailsAt.not_canOpen {paths : List Text} (h : env.FailsAt paths path) :
    ¬env.CanOpen path := by
  induction h with
  | here closed => exact closed
  | later _ _ ih => exact ih

theorem FailsAt.mem {paths : List Text} (h : env.FailsAt paths path) : path ∈ paths := by
  induction h with
  | here _ => exact List.mem_cons_self
  | later _ _ ih => exact List.mem_cons_of_mem _ ih

theorem exists_read_of_canOpen {paths : List Text} (decodes : env.Decodes paths)
    (hmem : path ∈ paths) (h : env.CanOpen path) : ∃ text, env.read path = .ok text := by
  obtain ⟨bytes, text, opened, decoded⟩ := decodes path hmem h
  have hasBytes := (pathFault?_eq_none_iff path 0).2 h.1.2
  have noNull : path.contains (.scalar '\x00') = false := by simpa using h.1.1
  refine ⟨Text.unifyNewlines text, ?_⟩
  simp only [read, Opening.read, hasBytes, noNull, Bool.false_eq_true, if_false, opened,
    textOfBytes, decoded]

theorem exists_closed (name : IsPath path) (h : ¬env.CanOpen path) :
    ∃ fault, env.read path = .error (.closed path fault) := by
  have hasBytes := (pathFault?_eq_none_iff path 0).2 name.2
  have noNull : path.contains (.scalar '\x00') = false := by simpa using name.1
  cases opened : env.system path with
  | error fault =>
      refine ⟨fault, ?_⟩
      simp only [read, Opening.read, hasBytes, noNull, Bool.false_eq_true, if_false, opened]
  | ok contents => exact absurd ⟨name, contents, opened⟩ h

/-- A name that is no path is an error of its own, which leaves no exit status. -/
theorem exists_escape (env : Environment) (h : ¬IsPath path) :
    ∃ fault, env.read path = .error fault ∧
      ∀ closed unread, ∃ e, Report.ofFileFault closed unread fault = .ofEscape e [] := by
  rw [read, Opening.read]
  cases hfault : pathFault? 0 path with
  | some fault => exact ⟨_, rfl, fun _ _ => ⟨_, rfl⟩⟩
  | none =>
      have noNull : path.contains (.scalar '\x00') = true := by
        by_contra absent
        exact h ⟨by simpa using absent, (pathFault?_eq_none_iff path 0).1 hfault⟩
      simp only [noNull, if_true]
      exact ⟨_, rfl, fun _ _ => ⟨_, rfl⟩⟩

end Environment

namespace Arguments

variable {a : Arguments} {env : Environment}

/-- The files that a run opens, in order. -/
def paths (a : Arguments) : List Text :=
  a.inputPath?.toList ++ [a.file]

/-- The input for a run, given or read. -/
def readInput (a : Arguments) (env : Environment) : Except FileFault Text :=
  match a.inputPath? with
  | none => .ok a.input
  | some path => env.read path

/-- Whether a source and an input are those that a run reads. -/
def Reads (a : Arguments) (env : Environment) (source input : Text) : Prop :=
  env.read a.file = .ok source ∧ a.readInput env = .ok input

/-- The limit of a run in steps, if one is given as a number. -/
def limit (a : Arguments) : Option Nat :=
  a.maxSteps.bind fun
    | .number k => some k.toNat
    | .void => none

theorem limit_of_map {bound : Option Int} (h : a.maxSteps = bound.map .number) :
    a.limit = bound.map Int.toNat := by
  rw [limit, h]
  cases bound <;> rfl

/-- Whether there is nothing to run: a file with a proper name stays closed, or the brackets
must balance and do not. -/
def NothingToRun (a : Arguments) (env : Environment) : Prop :=
  (∃ path, env.FailsAt a.paths path ∧ IsPath path) ∨
    a.strict = true ∧ (∀ path ∈ a.paths, env.CanOpen path) ∧
      ∃ source, env.read a.file = .ok source ∧ ¬Bracket.Balanced (Bracket.ofText source)

/-- Whether a run of a source with an input begins: it reads them, the brackets balance if
they must, there is memory for the tape, and a limit is a number. -/
structure Begins (a : Arguments) (env : Environment) (size : Nat) (source input : Text) :
    Prop where
  reads : a.Reads env source input
  balanced : a.strict = true → Bracket.Balanced (Bracket.ofText source)
  fits : env.memory.holds size = true
  limited : a.maxSteps ≠ some .void

theorem exists_reads (decodes : env.Decodes a.paths) (all : ∀ path ∈ a.paths, env.CanOpen path) :
    ∃ source input, a.Reads env source input := by
  have texts (path : Text) (hmem : path ∈ a.paths) : ∃ text, env.read path = .ok text :=
    Environment.exists_read_of_canOpen decodes hmem (all path hmem)
  obtain ⟨source, hsource⟩ := texts a.file (by simp [paths])
  cases hpath : a.inputPath? with
  | none => exact ⟨source, a.input, hsource, by rw [readInput, hpath]⟩
  | some path =>
      obtain ⟨input, hinput⟩ := texts path (by simp [paths, hpath])
      exact ⟨source, input, hsource, by rw [readInput, hpath]; exact hinput⟩

theorem transcriptOptions_eq {size : Nat} {bound : Option Int}
    (htape : a.tapeSize = .number size) (hbound : a.maxSteps = bound.map .number) :
    a.transcriptOptions =
      { tapeSize := .nat size, strict := a.strict, trace := a.trace
        maxSteps := .option (bound.map .int) } := by
  rw [transcriptOptions, htape, hbound]
  cases bound <;> rfl

theorem exists_bound (h : a.maxSteps ≠ some .void) :
    ∃ bound : Option Int, a.maxSteps = bound.map .number := by
  rcases hsteps : a.maxSteps with _ | bound | _
  · exact ⟨none, rfl⟩
  · exact ⟨some bound, rfl⟩
  · exact absurd hsteps h

end Arguments

/-- Only a number limits a run. -/
theorem eq_number_of_limitOf {maxSteps : Option Quantity} {limit : Option Nat}
    (h : limitOf ((maxSteps.map Quantity.toJson).getD .null) = .ok limit) :
    ∃ bound : Option Int, maxSteps = bound.map .number ∧ limit = bound.map Int.toNat := by
  rcases maxSteps with _ | bound | _
  · cases h
    exact ⟨none, rfl, rfl⟩
  · cases h
    exact ⟨some bound, rfl, rfl⟩
  · cases h

section Report

variable (r : Reporter) (t : Transcript)

@[simp]
theorem status_reportRun :
    (reportRun r t).status = .ok (if t.machine.core.halted then 0 else 2) := by
  simp only [reportRun]
  split <;> rfl

@[simp]
theorem output_reportRun : (reportRun r t).output = t.outputText.display := by
  simp only [reportRun]
  split <;> rfl

end Report

section Run

variable {time : String} {env : Environment} {outlets : Outlets} {pieces : List Text}
  {a : Arguments} {size : Nat} {source input : Text}

theorem runMain_of_parse (accepted : parse Synopsis.run.grammar pieces = .ok a) :
    runMain time env pieces outlets =
      runWith time env.memory outlets a (a.readInput env) (env.read a.file) := by
  simp only [runMain, accepted]
  rfl

theorem runMain_of_reads (accepted : parse Synopsis.run.grammar pieces = .ok a)
    (reads : a.Reads env source input) :
    runMain time env pieces outlets =
      runWith time env.memory outlets a (.ok input) (.ok source) := by
  rw [runMain_of_parse accepted, reads.1, reads.2]

/-- A file that cannot be opened ends the program. -/
theorem runMain_of_failsAt {path : Text} {fault : FileFault}
    (accepted : parse Synopsis.run.grammar pieces = .ok a) (decodes : env.Decodes a.paths)
    (fails : env.FailsAt a.paths path) (hfault : env.read path = .error fault) :
    runMain time env pieces outlets = some (reportFileFault (runReporter time a) fault) := by
  rw [runMain_of_parse accepted, Arguments.readInput]
  unfold Arguments.paths at fails decodes
  cases hpath : a.inputPath? with
  | none =>
      rw [hpath] at fails
      cases fails with
      | here _ => simp only [runWith, hfault]
      | later _ none_left => cases none_left
  | some named =>
      rw [hpath] at fails decodes
      cases fails with
      | here _ => simp only [runWith, hfault]
      | later opens fails =>
          obtain ⟨input, hinput⟩ :=
            Environment.exists_read_of_canOpen decodes (List.mem_append_left _ (by simp)) opens
          cases fails with
          | here _ => simp only [runWith, hinput, hfault]
          | later _ none_left => cases none_left

/-- What gives an exit status to a program whose files are read. -/
theorem runWith_status {memory : Memory} {report : Report} {status : Nat}
    (h : runWith time memory outlets a (.ok input) (.ok source) = some report)
    (returns : report.status = .ok status) :
    (∃ u, Transcript.run (.text source) (.text input) a.transcriptOptions memory outlets =
      .error (.unbalanced u)) ∨
    ∃ t, Transcript.run (.text source) (.text input) a.transcriptOptions memory outlets =
      .ok (some t) := by
  simp only [runWith] at h
  split at h
  · next u unbalanced =>
    exact .inl ⟨u, unbalanced⟩
  · cases h
    cases returns
  · cases h
    cases returns
  · next last ended =>
    obtain ⟨t, rfl, _⟩ := Option.map_eq_some_iff.1 h
    exact .inr ⟨t, ended⟩

theorem runWith_of_unbalanced {memory : Memory} {u : Program.Unbalanced}
    (h : Transcript.run (.text source) (.text input) a.transcriptOptions memory outlets =
      .error (.unbalanced u)) :
    ∃ errors,
      runWith time memory outlets a (.ok input) (.ok source) = some (.ofStatus 1 errors) := by
  simp only [runWith, h]
  exact ⟨_, rfl⟩

theorem valid_core_loaded (positive : 0 < size) (source input : Text) :
    ((Machine.blank size).load source input).core.Valid size :=
  ((Machine.valid_blank positive).load positive source input).core

/-- Only a run that begins comes to an end. -/
theorem begins_of_run (positive : 0 < size) (htape : a.tapeSize = .number size)
    (reads : a.Reads env source input) {t : Transcript}
    (h : Transcript.run (.text source) (.text input) a.transcriptOptions env.memory outlets =
      .ok (some t)) :
    a.Begins env size source input := by
  have balanced (strict : a.strict = true) : Bracket.Balanced (Bracket.ofText source) := by
    by_contra stray
    obtain ⟨u, unbalanced⟩ := (Transcript.run_eq_unbalanced_iff a.transcriptOptions source
      (.text input) env.memory outlets).2 ⟨strict, stray⟩
    rw [unbalanced] at h
    cases h
  rw [Arguments.transcriptOptions, htape] at h
  obtain ⟨fits, limit, hlimit, _⟩ := Transcript.follow_of_run positive h
  refine ⟨reads, balanced, fits, ?_⟩
  intro void
  obtain ⟨bound, hbound, _⟩ := eq_number_of_limitOf hlimit
  rw [void] at hbound
  cases bound <;> cases hbound

/-- What the exit status and the output of a program tell about the machine that it has
loaded. -/
structure Outcome (outlets : Outlets) (a : Arguments) (loaded : Machine) (report : Report)
    (status : Nat) : Prop where
  one : status = 1 ↔ ∃ k, Transcript.CutAfter outlets a.trace loaded a.limit k
  zero : status = 0 ↔ Transcript.AllTaken outlets a.trace loaded a.limit ∧
    ∃ n, (loaded.after n).core.halted = true ∧ ∀ k, a.maxSteps = some (.number k) → n ≤ k.toNat
  two : status = 2 ↔ Transcript.AllTaken outlets a.trace loaded a.limit ∧
    ∃ k, a.maxSteps = some (.number k) ∧ (loaded.after k.toNat).core.halted = false
  cut_output : ∀ k, Transcript.CutAfter outlets a.trace loaded a.limit k →
    report.output = (loaded.after k).core.outputText.display
  limit_output : status = 2 → ∀ k, a.maxSteps = some (.number k) →
    report.output = (loaded.after k.toNat).core.outputText.display

/-- The exit status of a run that has ended tells whether it ended in a halt or at its
limit. -/
theorem status_iff_of_covers {m : Machine} {t : Transcript} {r : Reporter} {bound : Option Int}
    {n status : Nat} (hbound : a.maxSteps = bound.map .number)
    (covers : Transcript.Covers m (bound.map Int.toNat) n) (place : t.machine = m.after n)
    (returns : (reportRun r t).status = .ok status) :
    (status = 0 ↔ ∃ n, (m.after n).core.halted = true ∧
      ∀ k, a.maxSteps = some (.number k) → n ≤ k.toNat) ∧
    (status = 2 ↔ ∃ k, a.maxSteps = some (.number k) ∧
      (m.after k.toNat).core.halted = false) := by
  have told : status = if (m.after n).core.halted then 0 else 2 := by
    rw [status_reportRun, place] at returns
    cases returns
    rfl
  have zero : status = 0 ↔ (m.after n).core.halted = true := by
    rw [told]
    split <;> simp_all
  have two : status = 2 ↔ (m.after n).core.halted = false := by
    rw [told]
    split <;> simp_all
  rw [zero, two, covers.halted_iff, covers.running_iff, hbound]
  cases bound <;> simp

/-- A run that has ended at its limit has written what the machine wrote in so many steps. -/
theorem output_of_covers {m : Machine} {t : Transcript} {r : Reporter} {bound : Option Int}
    {n : Nat} (hbound : a.maxSteps = bound.map .number)
    (covers : Transcript.Covers m (bound.map Int.toNat) n) (place : t.machine = m.after n)
    (written : t.outputText = (m.after n).core.outputText)
    (cut : (reportRun r t).status = .ok 2) {k : Int} (hk : a.maxSteps = some (.number k)) :
    (reportRun r t).output = (m.after k.toNat).core.outputText.display := by
  have running : (m.after n).core.halted = false := by
    rw [status_reportRun, place] at cut
    cases halted : (m.after n).core.halted with
    | false => rfl
    | true =>
        rw [halted] at cut
        cases cut
  have limit := covers.eq_limit running
  obtain ⟨k', rfl, rfl⟩ := Option.map_eq_some_iff.1 limit
  rw [hbound] at hk
  cases hk
  rw [output_reportRun, written]

section Begins

variable (begins : a.Begins env size source input) (positive : 0 < size)
  (accepted : parse Synopsis.run.grammar pieces = .ok a) (htape : a.tapeSize = .number size)

include begins positive accepted htape

/-- A run that begins reports what becomes of the loaded machine. -/
theorem runMain_of_begins :
    runMain time env pieces outlets =
      (Transcript.follow a.trace a.limit ((Machine.blank size).load source input) outlets).map
        (reportEnd (runReporter time a) outlets) := by
  obtain ⟨bound, hbound⟩ := Arguments.exists_bound begins.limited
  have followed := Transcript.run_text positive begins.fits source input a.strict a.trace bound
    outlets fun strict => Program.requireBalanced_of_balanced (begins.balanced strict)
  rw [← Arguments.transcriptOptions_eq htape hbound] at followed
  rw [runMain_of_reads accepted begins.reads]
  simp only [runWith, followed, Arguments.limit_of_map hbound]

/-- A run that writes something in excess ends there in status 1, with what was written
before. -/
theorem exists_cut_report {k : Nat} :
    let loaded := (Machine.blank size).load source input
    Transcript.CutAfter outlets a.trace loaded a.limit k →
    ∃ report, runMain time env pieces outlets = some report ∧
      report.status = .ok 1 ∧ report.output = (loaded.after k).core.outputText.display := by
  intro loaded cut
  have fresh : loaded.Fresh := (Machine.blank size).fresh_load source input
  rw [runMain_of_begins begins positive accepted htape,
    cut.follow_eq (valid_core_loaded positive source input) fresh, Option.map_some, reportEnd,
    if_pos (cut.isCut_advance fresh)]
  exact ⟨_, rfl, rfl, congrArg Text.display (cut.outputText_delivered fresh)⟩

/-- Where a run begins and can end, the program has an exit status. -/
theorem exists_status
    (ends : a.maxSteps = none →
      ∃ n, let c := (((Machine.blank size).load source input).after n).core
        c.halted = true ∨ outlets.overrun a.trace c = true) :
    ∃ report status, runMain time env pieces outlets = some report ∧
      report.status = .ok status := by
  have valid := valid_core_loaded positive source input
  have fresh := (Machine.blank size).fresh_load source input
  rcases Transcript.allTaken_or_cutAfter fresh outlets a.trace a.limit with all | ⟨k, cut⟩
  · obtain ⟨bound, hbound⟩ := Arguments.exists_bound begins.limited
    have halts (unlimited : a.limit = none) :
        ∃ n, (((Machine.blank size).load source input).after n).core.halted = true := by
      have unbounded : bound = none := by
        rwa [Arguments.limit_of_map hbound, Option.map_eq_none_iff] at unlimited
      rw [hbound, unbounded] at ends
      obtain ⟨n, halted | excess⟩ := ends rfl
      · exact ⟨n, halted⟩
      · rw [all n fun l same => nomatch unlimited.symm.trans same] at excess
        cases excess
    obtain ⟨n, covers⟩ := Transcript.exists_covers halts
    have uncut := all.uncut fresh covers.running covers.within n (Nat.le_refl n)
    rw [runMain_of_begins begins positive accepted htape, all.follow_eq valid fresh covers,
      Option.map_some, reportEnd, uncut]
    exact ⟨_, _, rfl, status_reportRun _ _⟩
  · obtain ⟨report, ended, status, _⟩ := exists_cut_report begins positive accepted htape cut
    exact ⟨report, 1, ended, status⟩

/-- A run that writes something in excess has its outcome. -/
theorem outcome_of_cutAfter {report : Report} {status k : Nat}
    (h : runMain time env pieces outlets = some report) (returns : report.status = .ok status)
    (cut : Transcript.CutAfter outlets a.trace ((Machine.blank size).load source input) a.limit
      k) :
    Outcome outlets a ((Machine.blank size).load source input) report status := by
  obtain ⟨_, ended, failed, _⟩ := exists_cut_report begins positive accepted htape cut
  rw [h] at ended
  cases ended
  rw [returns] at failed
  cases failed
  have excess : ¬Transcript.AllTaken outlets a.trace ((Machine.blank size).load source input)
      a.limit := fun all => all.not_cutAfter k cut
  refine ⟨iff_of_true rfl ⟨k, cut⟩, iff_of_false nofun fun all => excess all.1,
    iff_of_false nofun fun all => excess all.1, ?_, nofun⟩
  intro j hj
  obtain ⟨_, ended, _, output⟩ := exists_cut_report begins positive accepted htape hj
  rw [h] at ended
  cases ended
  exact output

/-- A run that writes nothing in excess has its outcome. -/
theorem outcome_of_allTaken {report : Report} {status : Nat}
    (h : runMain time env pieces outlets = some report) (returns : report.status = .ok status)
    (all : Transcript.AllTaken outlets a.trace ((Machine.blank size).load source input)
      a.limit) :
    Outcome outlets a ((Machine.blank size).load source input) report status := by
  have fresh := (Machine.blank size).fresh_load source input
  rw [runMain_of_begins begins positive accepted htape] at h
  obtain ⟨t, followed, rfl⟩ := Option.map_eq_some_iff.1 h
  obtain ⟨n, covers⟩ := all.exists_covers fresh followed
  rw [all.follow_eq (valid_core_loaded positive source input) fresh covers] at followed
  cases followed
  rw [reportEnd, all.uncut fresh covers.running covers.within n (Nat.le_refl n)] at returns ⊢
  obtain ⟨bound, hbound⟩ := Arguments.exists_bound begins.limited
  rw [Arguments.limit_of_map hbound] at covers
  have place := Transcript.machine_passes a.trace n ((Machine.blank size).load source input)
  obtain ⟨zero, two⟩ := status_iff_of_covers hbound covers place returns
  refine ⟨iff_of_false ?_ fun ⟨k, cut⟩ => all.not_cutAfter k cut, ?_, ?_, ?_, ?_⟩
  · rintro rfl
    rw [if_neg Bool.false_ne_true, status_reportRun] at returns
    split at returns <;> cases returns
  · rw [zero, and_iff_right all]
  · rw [two, and_iff_right all]
  · exact fun k cut => absurd cut (all.not_cutAfter k)
  · rintro rfl k hk
    exact output_of_covers hbound covers place
      (Transcript.records_passes fresh.output a.trace covers.running).outputText_eq returns hk

theorem outcome_of_begins {report : Report} {status : Nat}
    (h : runMain time env pieces outlets = some report) (returns : report.status = .ok status) :
    Outcome outlets a ((Machine.blank size).load source input) report status := by
  rcases Transcript.allTaken_or_cutAfter ((Machine.blank size).fresh_load source input) outlets
    a.trace a.limit with all | ⟨k, cut⟩
  · exact outcome_of_allTaken begins positive accepted htape h returns all
  · exact outcome_of_cutAfter begins positive accepted htape h returns cut

end Begins

theorem runMain_of_not_isPath {path : Text}
    (accepted : parse Synopsis.run.grammar pieces = .ok a) (decodes : env.Decodes a.paths)
    (fails : env.FailsAt a.paths path) (name : ¬IsPath path) :
    ∃ e, runMain time env pieces outlets = some (.ofEscape e []) := by
  obtain ⟨fault, hfault, escapes⟩ := env.exists_escape name
  rw [runMain_of_failsAt accepted decodes fails hfault]
  obtain ⟨e, he⟩ := escapes (fun path _ => cannotRead (runReporter time a) (some path))
    fun _ _ => cannotRead (runReporter time a) none
  exact ⟨e, congrArg some he⟩

/-- Where there is nothing to run the status is 1, and nothing is written. -/
theorem runMain_of_nothingToRun (accepted : parse Synopsis.run.grammar pieces = .ok a)
    (decodes : env.Decodes a.paths) (h : a.NothingToRun env) :
    ∃ errors, runMain time env pieces outlets = some (.ofStatus 1 errors) := by
  rcases h with ⟨path, fails, name⟩ | ⟨strict, all, source, hsource, stray⟩
  · obtain ⟨fault, closed⟩ := Environment.exists_closed name fails.not_canOpen
    exact ⟨_, runMain_of_failsAt accepted decodes fails closed⟩
  · obtain ⟨_, input, _, hinput⟩ := Arguments.exists_reads decodes all
    obtain ⟨u, unbalanced⟩ := (Transcript.run_eq_unbalanced_iff a.transcriptOptions source
      (.text input) env.memory outlets).2 ⟨strict, stray⟩
    rw [runMain_of_reads accepted ⟨hsource, hinput⟩]
    exact runWith_of_unbalanced unbalanced

/-- A program that has an exit status had nothing to run or has begun a run. -/
theorem nothingToRun_or_begins {report : Report} {status : Nat} (positive : 0 < size)
    (htape : a.tapeSize = .number size)
    (accepted : parse Synopsis.run.grammar pieces = .ok a) (decodes : env.Decodes a.paths)
    (h : runMain time env pieces outlets = some report) (returns : report.status = .ok status) :
    a.NothingToRun env ∨ ∃ source input, a.Begins env size source input := by
  rcases env.canOpen_or_failsAt a.paths with all | ⟨path, fails⟩
  · obtain ⟨source, input, reads⟩ := Arguments.exists_reads decodes all
    rw [runMain_of_reads accepted reads] at h
    rcases runWith_status h returns with ⟨u, unbalanced⟩ | ⟨t, ended⟩
    · have stray := (Transcript.run_eq_unbalanced_iff _ _ _ _ _).1 ⟨u, unbalanced⟩
      exact .inl (.inr ⟨stray.1, all, source, reads.1, stray.2⟩)
    · exact .inr ⟨source, input, begins_of_run positive htape reads ended⟩
  · by_cases name : IsPath path
    · exact .inl (.inl ⟨path, fails, name⟩)
    · obtain ⟨e, escapes⟩ : ∃ e, runMain time env pieces outlets = some (.ofEscape e []) :=
        runMain_of_not_isPath accepted decodes fails name
      rw [escapes] at h
      cases h
      cases returns

end Run

end CommandLine

end TapeMachine
