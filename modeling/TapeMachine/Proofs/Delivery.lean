import TapeMachine.Proofs.Deadlines
import TapeMachine.Proofs.Recording

/-!
Runs that come to something they cannot write. Up to there such a run is the one for which
there is room for everything, so it ends before the first step whose line or output is one too
many, and what gets through is what was written before that step. It does come to its end:
from one piece of output to the next a run takes no longer than to a halt, so the search
covers the way to the first piece that is not taken.
-/

namespace TapeMachine

namespace Core

section Output

variable {c : Core} {size n : Nat}

theorem size_output_step (c : Core) : c.step.output.size = c.output.size + c.writes.length := by
  have grown := congrArg List.length c.toList_output_step
  rwa [List.length_append, Array.length_toList, Array.length_toList] at grown

theorem length_writes_le (c : Core) : c.writes.length ≤ 1 := by
  rw [writes]
  split <;> simp

theorem size_output_after_mono {m n : Nat} (h : m ≤ n) (c : Core) :
    (c.after m).output.size ≤ (c.after n).output.size := by
  have grown := output_after_prefix h c
  have kept := grown.length_le
  rwa [Array.length_toList, Array.length_toList] at kept

theorem stepCount_after_mono {m n : Nat} (h : m ≤ n) (c : Core) :
    (c.after m).stepCount ≤ (c.after n).stepCount := by
  obtain ⟨k, rfl⟩ := Nat.exists_eq_add_of_le h
  rw [after_add, stepCount_after k]
  exact Nat.le_add_right _ _

/-- Whether a core is about to write, or never will. -/
def pauses (c : Core) : Bool :=
  c.halted || c.command? = some .write

theorem isStop_pauses : IsStop pauses where
  course h := by
    have command := congrArg Core.command? h
    rw [pauses, pauses, halted_of_course h]
    exact congrArg (fun command => _ || decide (command = some .write)) command
  halted h := by simp [pauses, h]

theorem writes_of_not_pauses (h : c.pauses = false) : c.writes = [] := by
  have passes : c.command? ≠ some .write := by
    rw [pauses, Bool.or_eq_false_iff] at h
    simpa using h.2
  rw [writes, if_neg passes]

theorem size_output_of_not_pauses (h : ∀ k < n, (c.after k).pauses = false) :
    (c.after n).output.size = c.output.size := by
  induction n with
  | zero => rfl
  | succ n ih =>
      rw [after_succ_step, size_output_step, writes_of_not_pauses (h n (Nat.lt_succ_self n)),
        ih fun k hk => h k (Nat.lt_succ_of_lt hk)]
      rfl

@[simp]
theorem deadline_after (n : Nat) (c : Core) : (c.after n).deadline = c.deadline := by
  simp [deadline]

/-- Where more is written at all, the next piece comes before a run has seen all of its
configurations. -/
theorem exists_next_write (hc : c.Valid size) (h : c.output.size < (c.after n).output.size) :
    ∃ k ≤ c.deadline, k < n ∧ (c.after (k + 1)).output.size = c.output.size + 1 := by
  have stops : ∃ i < n, (c.after i).pauses = true := by
    by_contra never
    simp only [not_exists, not_and, Bool.not_eq_true] at never
    rw [size_output_of_not_pauses never] at h
    exact Nat.lt_irrefl _ h
  obtain ⟨i, hi, pause⟩ := stops
  obtain ⟨k, hk, first⟩ := exists_stopsAfter pause
  have few := StopsAfter.le_card isStop_pauses hc first
  rw [← hc.size_tape] at few
  have same : (c.after k).output.size = c.output.size := size_output_of_not_pauses first.2
  have within : k < n := Nat.lt_of_le_of_lt hk hi
  have running : (c.after k).halted = false := by
    rw [← Bool.not_eq_true]
    intro halted
    rw [after_of_halted_le halted (Nat.le_of_lt within), same] at h
    exact Nat.lt_irrefl _ h
  have write : (c.after k).command? = some .write := by
    simpa [pauses, running] using first.1
  refine ⟨k, few, within, ?_⟩
  rw [after_succ_step, size_output_step, same, writes, if_pos write]
  rfl

/-- So many pieces as a run ever writes are written in that many times this span. -/
theorem exists_writes_within (hc : c.Valid size) {count : Nat}
    (h : c.output.size + count ≤ (c.after n).output.size) :
    ∃ k ≤ count * (c.deadline + 1), c.output.size + count ≤ (c.after k).output.size := by
  induction count generalizing c n with
  | zero => exact ⟨0, Nat.zero_le _, Nat.le_refl _⟩
  | succ count ih =>
      obtain ⟨j, few, within, next⟩ := exists_next_write hc (n := n) (by omega)
      have rest : n = j + 1 + (n - (j + 1)) := by omega
      have more : (c.after (j + 1)).output.size + count ≤
          ((c.after (j + 1)).after (n - (j + 1))).output.size := by
        rw [← after_add, ← rest, next]
        omega
      obtain ⟨k, hk, written⟩ := ih (hc.after (j + 1)) more
      rw [deadline_after] at hk
      refine ⟨j + 1 + k, ?_, ?_⟩
      · rw [Nat.succ_mul]
        omega
      · rw [after_add]
        omega

end Output

end Core

namespace Outlets

/-- Whether a core has written more than is taken, where a trace has a line for each step. -/
def overrun (outlets : Outlets) (tracing : Bool) (c : Core) : Bool :=
  exceeds outlets.output c.output.size || tracing && exceeds outlets.trace c.stepCount

variable {outlets : Outlets} {tracing : Bool}

theorem overrun_of_le {m n : Nat} (h : m ≤ n) {c : Core}
    (room : outlets.overrun tracing (c.after n) = false) :
    outlets.overrun tracing (c.after m) = false := by
  rw [overrun, Bool.or_eq_false_iff] at room ⊢
  refine ⟨exceeds_of_le (Core.size_output_after_mono h c) room.1, ?_⟩
  cases tracing with
  | false => rfl
  | true => exact exceeds_of_le (Core.stepCount_after_mono h c) room.2

theorem exceeds_zero (taken : Option Nat) : exceeds taken 0 = false := by
  cases taken <;> rfl

/-- Where one piece more is too many, so many are taken. -/
theorem eq_some_of_exceeds {taken : Option Nat} {m n : Nat} (room : exceeds taken m = false)
    (excess : exceeds taken n = true) (few : n ≤ m + 1) : taken = some m := by
  cases taken with
  | none => cases excess
  | some count =>
      simp only [exceeds, Option.any_some, decide_eq_true_eq, decide_eq_false_iff_not]
        at room excess
      exact congrArg some (by omega)

theorem lt_two_pow_digits (taken : Nat) : taken + 1 < 2 ^ digits (some taken) :=
  Nat.lt_log2_self

end Outlets

namespace Transcript

variable {outlets : Outlets} {tracing : Bool} {m : Machine} {limit : Option Nat} {n k : Nat}
  {t : Transcript}

theorem stepCount_after_of_running (fresh : m.Fresh)
    (running : ∀ k < n, (m.after k).core.halted = false) : (m.after n).core.stepCount = n := by
  simp only [Machine.core_after] at running ⊢
  rw [Core.stepCount_after_of_running running, fresh.stepCount, Nat.zero_add]

/-- The record of a run tells where the run writes more than is taken. -/
theorem Records.isCut_eq (h : Records tracing m n t) (count : (m.after n).core.stepCount = n) :
    t.isCut outlets = outlets.overrun tracing (m.after n).core := by
  have lines := congrArg List.length h.trace
  rw [Array.length_toList] at lines
  rw [isCut, Outlets.overrun, lines, h.size_chunks_eq, count, Bool.or_comm]
  cases tracing with
  | false =>
      cases outlets.trace <;> rfl
  | true => simp

/-- Whether a run ends because what its step after the first `k` writes is one too many. -/
structure CutAfter (outlets : Outlets) (tracing : Bool) (m : Machine) (limit : Option Nat)
    (k : Nat) : Prop where
  within : ∀ l, limit = some l → k < l
  room : outlets.overrun tracing (m.after k).core = false
  overrun : outlets.overrun tracing (m.after (k + 1)).core = true

/-- Whether there is room for all that a run writes. -/
def AllTaken (outlets : Outlets) (tracing : Bool) (m : Machine) (limit : Option Nat) : Prop :=
  ∀ n, (∀ l, limit = some l → n ≤ l) → outlets.overrun tracing (m.after n).core = false

theorem allTaken_or_cutAfter (fresh : m.Fresh) (outlets : Outlets) (tracing : Bool)
    (limit : Option Nat) :
    AllTaken outlets tracing m limit ∨ ∃ k, CutAfter outlets tracing m limit k := by
  by_cases all : AllTaken outlets tracing m limit
  · exact .inl all
  · simp only [AllTaken, not_forall, Bool.not_eq_false] at all
    obtain ⟨n, within, excess⟩ := all
    have some_over : ∃ n, outlets.overrun tracing (m.after n).core = true := ⟨n, excess⟩
    have least := Nat.find_min' some_over excess
    cases hfirst : Nat.find some_over with
    | zero =>
        have start := Nat.find_spec some_over
        rw [hfirst, Machine.after_zero, Outlets.overrun, fresh.output, fresh.stepCount] at start
        simp [Outlets.exceeds_zero] at start
    | succ k =>
        refine .inr ⟨k, ?_, ?_, hfirst ▸ Nat.find_spec some_over⟩
        · intro l same
          have bound := within l same
          omega
        · have before := Nat.find_min some_over (m := k) (by omega)
          simpa using before

theorem chunks_note (tracing : Bool) (t : Transcript) : (t.note tracing).chunks = t.chunks := by
  unfold note
  split <;> rfl

/-- A pass whose line is taken makes its step. -/
theorem advance_passes (taken : ((passes tracing k m).note tracing).isCut outlets = false) :
    (passes tracing k m).advance outlets tracing = passes tracing (k + 1) m := by
  rw [Transcript.advance, taken, passes_succ]
  rfl

/-- What gets through, where all is taken or the piece after the last one taken fails. -/
theorem chunks_delivered {before : Array Text}
    (room : Outlets.exceeds outlets.output before.size = false)
    (first : before.toList <+: t.chunks.toList)
    (rest : t.chunks = before ∨ outlets.output = some before.size) :
    (t.delivered outlets).chunks.toList = before.toList := by
  rw [delivered]
  cases taken : outlets.output with
  | none =>
      rw [taken] at rest
      rw [Option.elim_none, rest.resolve_right nofun]
  | some count =>
      rw [taken] at room rest
      rw [Option.elim_some, Array.take_eq_extract, Array.toList_extract,
        List.extract_eq_take_drop, List.drop_zero, Nat.sub_zero]
      rcases rest with all | full
      · have fits : before.size ≤ count := by
          simpa [Outlets.exceeds] using room
        rw [all, List.take_of_length_le (Array.length_toList.le.trans fits)]
      · cases full
        rw [← Array.length_toList]
        exact (List.prefix_iff_eq_take.1 first).symm

namespace CutAfter

variable (h : CutAfter outlets tracing m limit k)

include h

theorem running : ∀ j < k + 1, (m.after j).core.halted = false := by
  intro j hj
  rw [← Bool.not_eq_true]
  intro halted
  have excess := h.overrun
  rw [Machine.core_after] at halted excess
  have room := h.room
  rw [Machine.core_after, Core.after_of_halted_le halted (Nat.le_of_lt_succ hj)] at room
  rw [Core.after_of_halted_le halted (Nat.le_of_lt hj), room] at excess
  cases excess

theorem records (fresh : m.Fresh) : Records tracing m k (passes tracing k m) :=
  records_passes fresh.output tracing fun j hj => h.running j (Nat.lt_succ_of_lt hj)

theorem uncut (fresh : m.Fresh) : ∀ j ≤ k, (passes tracing j m).isCut outlets = false := by
  intro j hj
  have running (i : Nat) (hi : i < j) : (m.after i).core.halted = false := h.running i (by omega)
  have room := h.room
  rw [Machine.core_after] at room
  rw [(records_passes fresh.output tracing running).isCut_eq
    (stepCount_after_of_running fresh running), Machine.core_after]
  exact Outlets.overrun_of_le hj room

/-- The pass over that step is the one that fails. -/
theorem isCut_advance (fresh : m.Fresh) :
    ((passes tracing k m).advance outlets tracing).isCut outlets = true := by
  cases cut : ((passes tracing k m).note tracing).isCut outlets with
  | true => rw [Transcript.advance, if_pos cut, cut]
  | false =>
      have records := records_passes fresh.output tracing h.running
      rw [advance_passes cut, records.isCut_eq (stepCount_after_of_running fresh h.running),
        h.overrun]

/-- A step that is made although it is one too many writes the piece after the last one that
is taken. -/
theorem output_eq (fresh : m.Fresh)
    (made : ((passes tracing k m).note tracing).isCut outlets = false) :
    outlets.output = some (passes tracing k m).chunks.size := by
  have room := h.uncut fresh k (Nat.le_refl k)
  have failed := h.isCut_advance fresh
  have lines : (passes tracing (k + 1) m).trace = ((passes tracing k m).note tracing).trace := by
    simp [passes_succ, Transcript.advance, stepMachine]
  rw [advance_passes made, isCut, lines] at failed
  rw [isCut, Bool.or_eq_false_iff] at room made
  rw [made.1, Bool.false_or] at failed
  refine Outlets.eq_some_of_exceeds room.2 failed ?_
  have grown := Core.size_output_step (m.after k).core
  have few := (m.after k).core.length_writes_le
  rw [(records_passes fresh.output tracing h.running).size_chunks_eq,
    (h.records fresh).size_chunks_eq, Machine.core_after, Core.after_succ_step,
    ← Machine.core_after, grown]
  omega

/-- All that was written before that step gets through, and nothing of the step. -/
theorem outputText_delivered (fresh : m.Fresh) :
    (((passes tracing k m).advance outlets tracing).delivered outlets).outputText =
      (m.after k).core.outputText := by
  have room := h.uncut fresh k (Nat.le_refl k)
  rw [isCut, Bool.or_eq_false_iff] at room
  have kept : (((passes tracing k m).advance outlets tracing).delivered outlets).chunks.toList =
      (passes tracing k m).chunks.toList := by
    cases cut : ((passes tracing k m).note tracing).isCut outlets with
    | true =>
        rw [Transcript.advance, if_pos cut]
        exact chunks_delivered room.2 (chunks_note tracing _ ▸ List.prefix_rfl)
          (.inl (chunks_note tracing _))
    | false =>
        rw [advance_passes cut]
        refine chunks_delivered room.2 ?_ (.inr (h.output_eq fresh cut))
        rw [(h.records fresh).chunks, (records_passes fresh.output tracing h.running).chunks,
          Machine.core_after, Machine.core_after]
        exact (Core.output_after_prefix (Nat.le_succ k) m.core).map _
  rw [← (h.records fresh).outputText_eq, outputText, outputText, kept]

/-- A piece too many comes within so many times the span between two pieces. -/
theorem lt_of_written {size : Nat} (valid : m.core.Valid size) (fresh : m.Fresh)
    (written : Outlets.exceeds outlets.output (m.after (k + 1)).core.output.size = true) :
    k + 1 < 2 ^ Outlets.digits outlets.output * 2 ^ m.core.searchRounds := by
  have room := h.room
  rw [Outlets.overrun, Bool.or_eq_false_iff] at room
  cases taken : outlets.output with
  | none =>
      rw [taken] at written
      cases written
  | some count =>
      simp only [taken, Outlets.exceeds, Option.any_some, decide_eq_true_eq,
        decide_eq_false_iff_not, Machine.core_after] at written room
      have fits : m.core.output.size + (count + 1) ≤ (m.core.after (k + 1)).output.size := by
        rw [fresh.output]
        simpa using written
      obtain ⟨j, few, reached⟩ := Core.exists_writes_within valid fits
      have later : k < j := by
        by_contra early
        have kept := Core.size_output_after_mono (Nat.le_of_not_lt early) m.core
        omega
      calc k + 1 ≤ (count + 1) * (m.core.deadline + 1) := Nat.le_trans later few
        _ < 2 ^ Outlets.digits (some count) * 2 ^ m.core.searchRounds :=
            Nat.mul_lt_mul_of_lt_of_le (Outlets.lt_two_pow_digits count)
              m.core.card_lt_searchRounds (Nat.two_pow_pos _)

/-- A line too many comes with the step of its number. -/
theorem lt_of_traced (fresh : m.Fresh)
    (traced : (tracing && Outlets.exceeds outlets.trace (m.after (k + 1)).core.stepCount) = true) :
    k + 1 < 2 ^ Outlets.digits outlets.trace := by
  have room := h.room
  rw [Outlets.overrun, Bool.or_eq_false_iff, stepCount_after_of_running fresh fun j hj =>
    h.running j (Nat.lt_succ_of_lt hj)] at room
  rw [stepCount_after_of_running fresh h.running, Bool.and_eq_true] at traced
  rw [traced.1, Bool.true_and] at room
  rw [Outlets.eq_some_of_exceeds room.2 traced.2 (Nat.le_refl _)]
  exact Outlets.lt_two_pow_digits k

/-- The search covers the way to the step. -/
theorem lt_searchRounds {size : Nat} (valid : m.core.Valid size) (fresh : m.Fresh) :
    k + 1 < 2 ^ searchRounds outlets m.core := by
  have excess := h.overrun
  rw [Outlets.overrun, Bool.or_eq_true] at excess
  rw [searchRounds, Nat.pow_add, Nat.pow_add]
  rcases excess with written | traced
  · rw [Nat.mul_comm (2 ^ m.core.searchRounds)]
    exact Nat.lt_of_lt_of_le (h.lt_of_written valid fresh written)
      (Nat.le_mul_of_pos_right _ (Nat.two_pow_pos _))
  · exact Nat.lt_of_lt_of_le (h.lt_of_traced fresh traced)
      (Nat.le_mul_of_pos_left _ (Nat.mul_pos (Nat.two_pow_pos _) (Nat.two_pow_pos _)))

/-- A run ends with the pass that fails. -/
theorem follow_eq {size : Nat} (valid : m.core.Valid size) (fresh : m.Fresh) :
    follow tracing limit m outlets = some ((passes tracing k m).advance outlets tracing) := by
  have iterated (j : Nat) (hj : j ≤ k) :
      (advance outlets tracing)^[j] (ofMachine m) = passes tracing j m :=
    iterate_advance fun i hi => h.uncut fresh (i + 1) (Nat.le_trans hi hj)
  have running (j : Nat) (hj : j < k + 1) :
      ((advance outlets tracing)^[j] (ofMachine m)).isDone outlets = false := by
    have before := Nat.le_of_lt_succ hj
    rw [iterated j before, isDone_passes (h.uncut fresh j before)]
    exact h.running j hj
  have last : (advance outlets tracing)^[k + 1] (ofMachine m) =
      (passes tracing k m).advance outlets tracing := by
    rw [Function.iterate_succ_apply', iterated k (Nat.le_refl k)]
  have ends : ((advance outlets tracing)^[k + 1] (ofMachine m)).isDone outlets = true := by
    rw [last, isDone, h.isCut_advance fresh, Bool.or_true]
  rw [← last]
  cases limit with
  | none => exact Loop.search_of_first _ _ (h.lt_searchRounds valid fresh) running ends
  | some limit => rw [follow_some fresh, Loop.times_of_first _ _ (h.within limit rfl) running ends]

end CutAfter

namespace AllTaken

variable (h : AllTaken outlets tracing m limit)

include h

theorem uncut (fresh : m.Fresh) (running : ∀ k < n, (m.after k).core.halted = false)
    (within : ∀ l, limit = some l → n ≤ l) :
    ∀ k ≤ n, (passes tracing k m).isCut outlets = false := by
  intro k hk
  have before (j : Nat) (hj : j < k) : (m.after j).core.halted = false :=
    running j (Nat.lt_of_lt_of_le hj hk)
  rw [(records_passes fresh.output tracing before).isCut_eq
    (stepCount_after_of_running fresh before)]
  exact h k fun l same => Nat.le_trans hk (within l same)

theorem follow_eq {size : Nat} (valid : m.core.Valid size) (fresh : m.Fresh)
    (covers : Covers m limit n) : follow tracing limit m outlets = some (passes tracing n m) :=
  covers.follow_eq valid fresh tracing (h.uncut fresh covers.running covers.within)

theorem not_cutAfter (k : Nat) : ¬CutAfter outlets tracing m limit k := by
  intro cut
  have room := h (k + 1) cut.within
  rw [cut.overrun] at room
  cases room

/-- A run that writes nothing in excess returns only where it makes a certain number of
steps. -/
theorem exists_covers (fresh : m.Fresh) (followed : follow tracing limit m outlets = some t) :
    ∃ n, Covers m limit n := by
  apply Transcript.exists_covers
  rintro rfl
  by_contra never
  have running (j : Nat) : (m.after j).core.halted = false := by
    rw [← Bool.not_eq_true]
    exact fun halted => never ⟨j, halted⟩
  have uncut (j : Nat) : (passes tracing j m).isCut outlets = false :=
    h.uncut fresh (fun k _ => running k) nofun j (Nat.le_refl j)
  have on (j : Nat) : ((advance outlets tracing)^[j] (ofMachine m)).isDone outlets = false := by
    rw [iterate_advance fun k _ => uncut (k + 1), isDone_passes (uncut j)]
    exact running j
  rw [follow, Loop.search_of_never _ _ _ on] at followed
  cases followed

end AllTaken

end Transcript

end TapeMachine
