import TapeMachine.Proofs.Lifecycle
import TapeMachine.Proofs.Seeker
import TapeMachine.Proofs.Stepping

/-!
What a program can tell of its input. Reading takes one byte from what is unread,
and a zero once nothing is, so after any steps as many bytes are gone as reads were
executed, and a run depends on no others. What tells two inputs apart is therefore
only the bytes that are read, an input being followed by zeros for ever.
-/

namespace TapeMachine

/-- The byte at a place of an input that goes on with zeros for ever. -/
def Text.lowByteAt (input : Text) (place : Nat) : UInt8 :=
  (input.map CodePoint.lowByte).getD place 0

namespace Core

/-- The part of the input that is not read yet. -/
def unread (c : Core) : List UInt8 :=
  c.input.toList.drop c.inputPos

/-- The commands that `n` calls for a step execute, in order. -/
def history (n : Nat) (c : Core) : List Command :=
  (List.range n).filterMap fun k => (c.after k).command?

/-- The core with another input, of which a part is read. -/
def withInput (c : Core) (input : Array UInt8) (inputPos : Nat) : Core :=
  { c with input, inputPos }

/-- Whether two cores differ in nothing but their input and how far it is read. -/
def SameButInput (c c' : Core) : Prop :=
  c' = c.withInput c'.input c'.inputPos

theorem history_succ (n : Nat) (c : Core) :
    c.history (n + 1) = c.history n ++ (c.after n).command?.toList := by
  rw [history, List.range_succ, List.filterMap_append]
  cases h : (c.after n).command? <;> simp [history, h]

theorem count_history_mono {m n : Nat} (h : m ≤ n) (c : Core) (command : Command) :
    (c.history m).count command ≤ (c.history n).count command := by
  induction h with
  | refl => exact Nat.le_refl _
  | step _ ih =>
      rw [history_succ, List.count_append]
      exact Nat.le_add_right_of_le ih

theorem unread_load (size : Nat) (source input : Text) :
    (load size source input).unread = input.map CodePoint.lowByte := by
  simp [unread, load, install, inputBytes]

/-- A read stores the first unread byte and leaves the rest. -/
theorem readByte_eq (c : Core) :
    ∃ inputPos, c.readByte = (c.mapCell fun _ => c.unread.headD 0).withInput c.input inputPos ∧
      c.input.toList.drop inputPos = c.unread.tail := by
  have next : c.input[c.inputPos]? = c.unread.head? := by
    rw [unread, List.head?_drop, Array.getElem?_toList]
  unfold readByte
  rw [next, unread, List.tail_drop]
  cases h : (c.input.toList.drop c.inputPos).head? with
  | none =>
      refine ⟨c.inputPos, by rw [List.headD_eq_head?_getD, h]; rfl, ?_⟩
      rw [← List.tail_drop, List.head?_eq_none_iff.1 h, List.tail_nil]
  | some b => exact ⟨c.inputPos + 1, by rw [List.headD_eq_head?_getD, h]; rfl, rfl⟩

/-- No command but a read looks at the input. -/
theorem execute_withInput {command : Command} (h : command ≠ .read) (c : Core)
    (input : Array UInt8) (inputPos : Nat) :
    (c.withInput input inputPos).execute command =
      (c.execute command).withInput input inputPos := by
  cases command with
  | right | left | increment | decrement | write => rfl
  | read => exact absurd rfl h
  | loopStart =>
      rw [execute, execute, enterLoop_eq, enterLoop_eq]
      rfl
  | loopEnd =>
      rw [execute, execute, leaveLoop_eq, leaveLoop_eq]
      rfl

theorem unread_execute {command : Command} (h : command ≠ .read) (c : Core) :
    (c.execute command).unread = c.unread := by
  have same := execute_withInput h c c.input c.inputPos
  change c.execute command = _ at same
  rw [same]
  rfl

theorem unread_step (c : Core) :
    c.step.unread = c.unread.drop (c.command?.toList.count .read) := by
  cases hcommand : c.command? with
  | none => rw [step_of_halted ((command?_eq_none_iff c).1 hcommand)]; rfl
  | some command =>
      let counted : Core := { c with stepCount := c.stepCount + 1 }
      rw [step_of_command hcommand, Option.toList_some]
      by_cases h : command = .read
      · obtain ⟨inputPos, read, rest⟩ := counted.readByte_eq
        rw [h, execute, read, List.count_singleton_self, List.drop_one]
        exact rest
      · rw [unread_execute h, List.count_singleton, if_neg (by simpa using h), List.drop_zero]
        rfl

/-- As many bytes are gone as reads were executed. -/
theorem unread_after (n : Nat) (c : Core) :
    (c.after n).unread = c.unread.drop ((c.history n).count .read) := by
  induction n with
  | zero => rfl
  | succ n ih =>
      rw [after_succ_step, unread_step, ih, history_succ, List.count_append, List.drop_drop]

section SameButInput

variable {c c' : Core}

theorem SameButInput.command? (h : c.SameButInput c') : c'.command? = c.command? := by
  rw [h]
  rfl

theorem SameButInput.halted (h : c.SameButInput c') : c'.halted = c.halted := by
  rw [h]
  rfl

/-- A step keeps two cores the same but for the input, as long as a read finds the
same byte in both. -/
theorem SameButInput.step (h : c.SameButInput c')
    (byte : c.command? = some .read → c'.unread.headD 0 = c.unread.headD 0) :
    c.step.SameButInput c'.step := by
  cases hcommand : c.command? with
  | none =>
      rw [step_of_halted ((command?_eq_none_iff c).1 hcommand),
        step_of_halted ((command?_eq_none_iff c').1 (h.command?.trans hcommand))]
      exact h
  | some command =>
      let counted : Core := { c with stepCount := c.stepCount + 1 }
      let counted' : Core := { c' with stepCount := c'.stepCount + 1 }
      have same : counted' = counted.withInput c'.input c'.inputPos :=
        congrArg (fun c : Core => { c with stepCount := c.stepCount + 1 }) h
      rw [step_of_command hcommand, step_of_command (h.command?.trans hcommand)]
      change (counted.execute command).SameButInput (counted'.execute command)
      by_cases hread : command = .read
      · subst hread
        obtain ⟨inputPos, read, _⟩ := counted.readByte_eq
        obtain ⟨inputPos', read', _⟩ := counted'.readByte_eq
        have stored : counted'.unread.headD 0 = counted.unread.headD 0 := byte hcommand
        rw [execute, execute, read, read', stored, same]
        rfl
      · rw [same, execute_withInput hread]
        rfl

/-- Two runs are the same but for the input as long as all bytes that the first one
reads are the same. -/
theorem SameButInput.after {n : Nat} (h : c.SameButInput c')
    (bytes : ∀ i < (c.history n).count .read, c'.unread.getD i 0 = c.unread.getD i 0) :
    (c.after n).SameButInput (c'.after n) ∧
      (c'.after n).unread = c'.unread.drop ((c.history n).count .read) := by
  induction n with
  | zero => exact ⟨h, rfl⟩
  | succ n ih =>
      have before := count_history_mono (Nat.le_succ n) c .read
      obtain ⟨same, rest⟩ := ih fun i hi => bytes i (Nat.lt_of_lt_of_le hi before)
      constructor
      · rw [after_succ_step, after_succ_step]
        apply same.step
        intro hread
        rw [rest, unread_after, List.headD_eq_head?_getD, List.headD_eq_head?_getD,
          List.head?_drop, List.head?_drop, ← List.getD_eq_getElem?_getD,
          ← List.getD_eq_getElem?_getD]
        apply bytes
        rw [history_succ, hread, List.count_append]
        exact Nat.lt_succ_self _
      · rw [after_succ_step, unread_step, rest, same.command?, history_succ, List.count_append,
          List.drop_drop]

end SameButInput

end Core

namespace Machine

/-- Whether two machines answer `n` calls for a step alike and are then in one state,
their input apart. -/
structure RunsAs (n : Nat) (m m' : Machine) : Prop where
  answers : (m'.calls n).map Prod.snd = (m.calls n).map Prod.snd
  tape : (m'.after n).core.tape = (m.after n).core.tape
  ptr : (m'.after n).core.ptr = (m.after n).core.ptr
  pc : (m'.after n).core.pc = (m.after n).core.pc
  output : (m'.after n).core.output = (m.after n).core.output
  stepCount : (m'.after n).core.stepCount = (m.after n).core.stepCount
  runState : (m'.after n).runState = (m.after n).runState

theorem runsAs_load (m : Machine) {source a b : Text} {n : Nat}
    (bytes : ∀ i < ((m.load source a).core.history n).count .read,
      b.lowByteAt i = a.lowByteAt i) :
    (m.load source a).RunsAs n (m.load source b) := by
  have loaded : (m.load source a).core.SameButInput (m.load source b).core := by
    rw [core_load, core_load]
    rfl
  have along (k : Nat) (hk : k ≤ n) :
      ((m.load source a).core.after k).SameButInput ((m.load source b).core.after k) := by
    refine (loaded.after fun i hi => ?_).1
    have reads := Core.count_history_mono hk (m.load source a).core .read
    have same := bytes i (Nat.lt_of_lt_of_le hi reads)
    rw [core_load, core_load, Core.unread_load, Core.unread_load]
    exact same
  have last := along n (Nat.le_refl n)
  rw [Core.SameButInput] at last
  constructor
  case answers =>
    rw [map_snd_calls, map_snd_calls]
    apply List.map_congr_left
    intro k hk
    rw [(along (k + 1) (List.mem_range.1 hk)).halted]
  case runState =>
    rw [after_eq_of_idle (runState_load m source a), after_eq_of_idle (runState_load m source b)]
    rfl
  all_goals
    rw [core_after, core_after, last]
    rfl

/-- A run shows of its input only the bytes that it has read, each text being followed
by zeros for ever: no part that is left unread, no zeros at the end and no high bits
of a character make a difference. -/
theorem sees_only_bytes_read (m : Machine) (source a : Text) (n : Nat) :
    let reads := ((m.load source a).core.history n).count .read
    (∀ b : Text, (∀ i < reads, b.lowByteAt i = a.lowByteAt i) →
      (m.load source a).RunsAs n (m.load source b)) ∧
    (∀ b : Text, b.take reads = a.take reads → (m.load source a).RunsAs n (m.load source b)) ∧
    (∀ zeros, (m.load source a).RunsAs n
      (m.load source (a ++ List.replicate zeros (.scalar '\x00')))) ∧
    ∀ b : Text, b.map CodePoint.lowByte = a.map CodePoint.lowByte →
      (m.load source a).RunsAs n (m.load source b) := by
  intro reads
  refine ⟨fun b bytes => runsAs_load m bytes, ?_, ?_, ?_⟩
  · intro b start
    apply runsAs_load
    intro i hi
    have first (t : Text) : t.lowByteAt i = Text.lowByteAt (t.take reads) i := by
      rw [Text.lowByteAt, Text.lowByteAt, List.map_take, List.getD_eq_getElem?_getD,
        List.getD_eq_getElem?_getD, List.getElem?_take_of_lt hi]
    rw [first b, first a, start]
  · intro zeros
    apply runsAs_load
    intro i _
    have zero : CodePoint.lowByte (.scalar '\x00') = 0 := rfl
    simp only [Text.lowByteAt, List.map_append, List.map_replicate, zero]
    rcases Nat.lt_or_ge i (a.map CodePoint.lowByte).length with inside | past
    · rw [List.getD_append _ _ _ _ inside]
    · rw [List.getD_append_right _ _ _ _ past, List.getD_eq_default _ _ past,
        List.getD_eq_getElem?_getD, List.getElem?_replicate]
      split <;> rfl
  · intro b low
    apply runsAs_load
    intro i _
    rw [Text.lowByteAt, Text.lowByteAt, low]

/-- An echo that reads up to a zero: the second input has other high bits, and stops
where the first one has a zero to read. -/
theorem sees_only_bytes_read_echo :
    let a : Text := [.scalar 'a', .scalar '\x00', .scalar 'b']
    let b : Text := [.scalar (Char.ofNat 0x161)]
    let source := Text.ofString ",[.,]"
    let reads := (((blank 1).load source a).core.history 9).count .read
    reads = 2 ∧ (∀ i < reads, b.lowByteAt i = a.lowByteAt i) ∧
      ((blank 1).load source a).RunsAs 9 ((blank 1).load source b) := by
  intro a b source reads
  have two : reads = 2 := by decide
  have bytes : ∀ i < reads, b.lowByteAt i = a.lowByteAt i := by
    rw [two]
    decide
  exact ⟨two, bytes, (sees_only_bytes_read (blank 1) source a 9).1 b bytes⟩

end Machine

end TapeMachine
