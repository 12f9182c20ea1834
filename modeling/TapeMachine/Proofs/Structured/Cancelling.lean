import TapeMachine.Proofs.Structured.Simulation

/-!
Commands that undo each other. Two blocks are alike if they mean the same in every
world whose pointer stands on the tape, and what is built of alike parts is alike.
A pair of inverse commands means nothing there, so a program may have one put in
anywhere, inside pairs of brackets and beside unpaired ones, and still does the
same.
-/

namespace TapeMachine

namespace World

/-- Whether the pointer stands on the tape. -/
def InBounds (w : World) : Prop :=
  w.ptr < w.tape.size

section

variable {w : World}

theorem inBounds_start {size : Nat} (h : 0 < size) (input : Text) :
    (start size input).InBounds := by
  simpa [InBounds, start] using h

theorem InBounds.setCell (h : w.InBounds) (value : UInt8) : (w.setCell value).InBounds := by
  simpa [InBounds, World.setCell] using h

theorem InBounds.act (h : w.InBounds) (effect : Effect) : (w.act effect).InBounds := by
  have positive : 0 < w.tape.size := Nat.lt_of_le_of_lt (Nat.zero_le _) h
  cases effect with
  | right => exact Nat.mod_lt _ positive
  | left => exact Nat.mod_lt _ positive
  | increment => exact h.setCell _
  | decrement => exact h.setCell _
  | write => exact h
  | read =>
      rw [World.act]
      split
      · exact h.setCell 0
      · exact h.setCell _

theorem cell_setCell (h : w.InBounds) (value : UInt8) : (w.setCell value).cell = value := by
  have inside : w.ptr < w.tape.size := h
  simp [cell, setCell, inside]

theorem setCell_setCell (w : World) (first second : UInt8) :
    (w.setCell first).setCell second = w.setCell second := by
  simp [setCell]

theorem setCell_cell (h : w.InBounds) : w.setCell w.cell = w := by
  have inside : w.ptr < w.tape.size := h
  have same : w.tape.setIfInBounds w.ptr w.cell = w.tape := by
    simp [cell, Array.setIfInBounds, inside]
  rw [setCell, same]

end

end World

/-- The command that undoes another. -/
def Effect.inverse? : Effect → Option Effect
  | right => some left
  | left => some right
  | increment => some decrement
  | decrement => some increment
  | write => none
  | read => none

private theorem left_of_right {ptr size : Nat} (h : ptr < size) :
    ((ptr + 1) % size + (size - 1)) % size = ptr := by
  rw [Nat.mod_add_mod]
  have whole : ptr + 1 + (size - 1) = ptr + size := by omega
  rw [whole, Nat.add_mod_right, Nat.mod_eq_of_lt h]

private theorem right_of_left {ptr size : Nat} (h : ptr < size) :
    ((ptr + (size - 1)) % size + 1) % size = ptr := by
  rw [Nat.mod_add_mod]
  have whole : ptr + (size - 1) + 1 = ptr + size := by omega
  rw [whole, Nat.add_mod_right, Nat.mod_eq_of_lt h]

/-- On the tape, a command and its inverse leave the world as it was. -/
theorem World.act_act {w : World} (h : w.InBounds) {effect inverse : Effect}
    (hinverse : effect.inverse? = some inverse) : (w.act effect).act inverse = w := by
  cases effect with
  | right =>
      cases hinverse
      simp only [act]
      rw [left_of_right h]
  | left =>
      cases hinverse
      simp only [act]
      rw [right_of_left h]
  | increment =>
      cases hinverse
      simp only [act]
      rw [cell_setCell h, setCell_setCell, UInt8.add_sub_cancel, setCell_cell h]
  | decrement =>
      cases hinverse
      simp only [act]
      rw [cell_setCell h, setCell_setCell, UInt8.sub_add_cancel, setCell_cell h]
  | write => cases hinverse
  | read => cases hinverse

namespace Outcome

/-- Whether a part of a program that starts on the tape passes on from the tape. -/
def StaysInBounds (run : World → Option Outcome) : Prop :=
  ∀ w w', w.InBounds → run w = some (passed w') → w'.InBounds

theorem passed_of_andThen {out : Option Outcome} {next : World → Option Outcome} {w : World}
    (h : andThen out next = some (passed w)) :
    ∃ w', out = some (passed w') ∧ next w' = some (passed w) := by
  cases out with
  | none => cases h
  | some out =>
      cases out with
      | passed w' => exact ⟨w', rfl, h⟩
      | stopped w' => cases h

theorem StaysInBounds.repeatWhile {body : World → Option Outcome} (h : StaysInBounds body)
    (count : Nat) : StaysInBounds (repeatWhile body count) := by
  induction count with
  | zero =>
      intro w w' hw hpassed
      rw [Outcome.repeatWhile] at hpassed
      split at hpassed
      · cases hpassed
        exact hw
      · cases hpassed
  | succ count ih =>
      intro w w' hw hpassed
      rw [Outcome.repeatWhile] at hpassed
      split at hpassed
      · cases hpassed
        exact hw
      · obtain ⟨between, first, rest⟩ := passed_of_andThen hpassed
        exact ih between w' (h w between hw first) rest

/-- What follows matters only in the world that is passed on. -/
theorem andThen_congr {out : Option Outcome} {next next' : World → Option Outcome}
    (h : ∀ w, out = some (passed w) → next w = next' w) : andThen out next = andThen out next' := by
  cases out with
  | none => rfl
  | some out =>
      cases out with
      | passed w => exact h w rfl
      | stopped w => rfl

theorem andThen_assoc (out : Option Outcome) (next last : World → Option Outcome) :
    andThen (andThen out next) last = andThen out fun w => andThen (next w) last := by
  rcases out with _ | (w | w) <;> rfl

theorem repeatWhile_congr {body body' : World → Option Outcome} (stays : StaysInBounds body)
    (h : ∀ w, w.InBounds → body w = body' w) (count : Nat) {w : World} (hw : w.InBounds) :
    repeatWhile body count w = repeatWhile body' count w := by
  induction count generalizing w with
  | zero => rfl
  | succ count ih =>
      rw [repeatWhile, repeatWhile, ← h w hw]
      split
      · rfl
      · exact andThen_congr fun next passes => ih (stays w next hw passes)

end Outcome

namespace Block

open TapeMachine.Outcome

theorem staysInBounds_run (b : Block) (fuel : Nat) : StaysInBounds (b.run fuel) := by
  induction b with
  | done =>
      intro w w' hw h
      cases h
      exact hw
  | act effect next ih =>
      intro w w' hw h
      exact ih (w.act effect) w' (hw.act effect) h
  | loop body next ihb ihn =>
      intro w w' hw h
      obtain ⟨between, loops, rest⟩ := passed_of_andThen h
      exact ihn between w' (ihb.repeatWhile fuel w between hw loops) rest
  | strayOpening next ih =>
      intro w w' hw h
      rw [run] at h
      split at h
      · cases h
      · exact ih w w' hw h
  | strayClosing next ih =>
      intro w w' hw h
      rw [run] at h
      split at h
      · exact ih w w' hw h
      · cases h

theorem run_append (a b : Block) (fuel : Nat) (w : World) :
    (a.append b).run fuel w = andThen (a.run fuel w) (b.run fuel) := by
  induction a generalizing w with
  | done => rfl
  | act effect next ih => exact ih (w.act effect)
  | loop body next _ ih =>
      rw [append, run, run, andThen_assoc]
      exact congrArg (andThen _) (funext ih)
  | strayOpening next ih =>
      rw [append, run, run]
      split
      · rfl
      · exact ih w
  | strayClosing next ih =>
      rw [append, run, run]
      split
      · exact ih w
      · rfl

/-- Two blocks that mean the same wherever the pointer stands on the tape. -/
def Alike (a b : Block) : Prop :=
  ∀ fuel w, w.InBounds → a.run fuel w = b.run fuel w

theorem Alike.refl (b : Block) : b.Alike b := fun _ _ _ => rfl

section

variable {a b next next' body body' : Block}

theorem Alike.act (h : next.Alike next') (effect : Effect) :
    (Block.act effect next).Alike (.act effect next') :=
  fun fuel w hw => h fuel (w.act effect) (hw.act effect)

theorem Alike.loop (hbody : body.Alike body') (hnext : next.Alike next') :
    (Block.loop body next).Alike (.loop body' next') := by
  intro fuel w hw
  have stays := staysInBounds_run body fuel
  rw [run, run, ← repeatWhile_congr stays (hbody fuel) fuel hw]
  exact andThen_congr fun between loops =>
    hnext fuel between (stays.repeatWhile fuel w between hw loops)

theorem Alike.strayOpening (h : next.Alike next') :
    (Block.strayOpening next).Alike (.strayOpening next') := by
  intro fuel w hw
  rw [run, run, h fuel w hw]

theorem Alike.strayClosing (h : next.Alike next') :
    (Block.strayClosing next).Alike (.strayClosing next') := by
  intro fuel w hw
  rw [run, run, h fuel w hw]

theorem Alike.append (ha : a.Alike b) (hnext : next.Alike next') :
    (a.append next).Alike (b.append next') := by
  intro fuel w hw
  rw [run_append, run_append, ← ha fuel w hw]
  exact andThen_congr fun between passes =>
    hnext fuel between (staysInBounds_run a fuel w between hw passes)

/-- A command and its inverse before a block add nothing to it. -/
theorem alike_act_act {effect inverse : Effect} (h : effect.inverse? = some inverse) (b : Block) :
    (Block.act effect (.act inverse b)).Alike b := by
  intro fuel w hw
  rw [run, run, World.act_act hw h]

end

/-- Two readings whose blocks are alike one by one. -/
structure Reading.Alike (r s : Reading) : Prop where
  current : r.current.Alike s.current
  later : List.Forall₂ Block.Alike r.later s.later

theorem Reading.Alike.refl (r : Reading) : r.Alike r where
  current := .refl r.current
  later := List.forall₂_same.2 fun b _ => .refl b

theorem Reading.Alike.act {r s : Reading} (h : r.Alike s) (effect : Effect) :
    (r.act effect).Alike (s.act effect) :=
  ⟨h.current.act effect, h.later⟩

theorem Reading.Alike.opening {r s : Reading} (h : r.Alike s) : r.opening.Alike s.opening := by
  obtain ⟨current, later⟩ := r
  obtain ⟨current', later'⟩ := s
  obtain ⟨hcurrent, hlater⟩ := h
  cases hlater with
  | nil => exact ⟨hcurrent.strayOpening, .nil⟩
  | cons hnext hrest => exact ⟨hcurrent.loop hnext, hrest⟩

theorem Reading.Alike.take {r s : Reading} (h : r.Alike s) (command : Command) :
    (r.take command).Alike (s.take command) := by
  cases command with
  | loopStart => exact h.opening
  | loopEnd => exact ⟨.refl .done, .cons h.current h.later⟩
  | right => exact h.act .right
  | left => exact h.act .left
  | increment => exact h.act .increment
  | decrement => exact h.act .decrement
  | write => exact h.act .write
  | read => exact h.act .read

theorem Reading.alike_join {current current' : Block} {later later' : List Block}
    (hcurrent : current.Alike current') (hlater : List.Forall₂ Block.Alike later later') :
    (join current later).Alike (join current' later') := by
  induction hlater generalizing current current' with
  | nil => exact hcurrent
  | cons hnext _ ih => exact hcurrent.append (ih hnext).strayClosing

theorem Reading.Alike.close {r s : Reading} (h : r.Alike s) : r.close.Alike s.close :=
  alike_join h.current h.later

theorem Reading.take_command (r : Reading) (effect : Effect) :
    r.take effect.command = r.act effect := by
  cases effect <;> rfl

/-- A program with a command and its inverse put in means what it meant without
them. -/
theorem alike_parse_insert {effect inverse : Effect} (h : effect.inverse? = some inverse)
    (before after : List Command) :
    (parse (before ++ effect.command :: inverse.command :: after)).Alike
      (parse (before ++ after)) := by
  have readings : (Reading.ofList (before ++ effect.command :: inverse.command :: after)).Alike
      (Reading.ofList (before ++ after)) := by
    induction before with
    | nil =>
        let rest := Reading.ofList after
        have taken : Reading.ofList ([] ++ effect.command :: inverse.command :: after) =
            (rest.act inverse).act effect := by
          rw [← Reading.take_command, ← Reading.take_command]
          rfl
        rw [taken]
        exact ⟨alike_act_act h rest.current, (Reading.Alike.refl rest).later⟩
    | cons command before ih => exact ih.take command
  exact readings.close

end Block

/-- A loaded core with a command and its inverse put in ends in the worlds that it
ended in without them. -/
theorem Core.load_insert_ends_iff {size : Nat} (hsize : 0 < size) {effect inverse : Effect}
    (h : effect.inverse? = some inverse) {pair : Text}
    (hpair : pair.filterMap Command.ofCodePoint? = [effect.command, inverse.command])
    (before after input : Text) (w : World) :
    (∃ n, ((load size (before ++ pair ++ after) input).after n).halted = true ∧
      ((load size (before ++ pair ++ after) input).after n).world = w) ↔
    ∃ n, ((load size (before ++ after) input).after n).halted = true ∧
      ((load size (before ++ after) input).after n).world = w := by
  have alike := Block.alike_parse_insert h (before.filterMap Command.ofCodePoint?)
    (after.filterMap Command.ofCodePoint?)
  rw [load_ends_iff, load_ends_iff, Program.toList_commands_ofSource,
    Program.toList_commands_ofSource, List.filterMap_append, List.filterMap_append, hpair,
    List.filterMap_append, List.append_assoc]
  refine exists_congr fun fuel => ?_
  rw [← alike fuel _ (World.inBounds_start hsize input)]
  rfl

/-- The pairs of characters that stand for a command and its inverse. -/
theorem exists_inverse_of_mem {pair : String} (h : pair ∈ ["+-", "-+", "><", "<>"]) :
    ∃ effect inverse : Effect, effect.inverse? = some inverse ∧
      (Text.ofString pair).filterMap Command.ofCodePoint? =
        [effect.command, inverse.command] := by
  simp only [List.mem_cons, List.not_mem_nil, or_false] at h
  rcases h with rfl | rfl | rfl | rfl
  · exact ⟨.increment, .decrement, rfl, by decide⟩
  · exact ⟨.decrement, .increment, rfl, by decide⟩
  · exact ⟨.right, .left, rfl, by decide⟩
  · exact ⟨.left, .right, rfl, by decide⟩

namespace Machine

/-- Two commands that undo each other can be put in anywhere in a program: it halts
where it did without them, with the same tape, pointer, output and unread input. -/
theorem load_insert_inverse_pair (m : Machine) (pair : String)
    (hpair : pair ∈ ["+-", "-+", "><", "<>"]) (before after input : Text)
    (hsize : 0 < m.tapeSize) :
    let plain := m.load (before ++ after) input
    let extended := m.load (before ++ Text.ofString pair ++ after) input
    ((∃ n, (plain.after n).core.halted = true) ↔
      ∃ n, (extended.after n).core.halted = true) ∧
    ∀ n k, (plain.after n).core.halted = true → (extended.after k).core.halted = true →
      (plain.after n).core.world = (extended.after k).core.world := by
  intro plain extended
  obtain ⟨effect, inverse, hinverse, commands⟩ := exists_inverse_of_mem hpair
  have ends := Core.load_insert_ends_iff hsize hinverse commands before after input
  simp only [plain, extended, core_after, core_load]
  refine ⟨⟨?_, ?_⟩, ?_⟩
  · rintro ⟨n, hn⟩
    obtain ⟨k, hk, _⟩ := (ends _).2 ⟨n, hn, rfl⟩
    exact ⟨k, hk⟩
  · rintro ⟨k, hk⟩
    obtain ⟨n, hn, _⟩ := (ends _).1 ⟨k, hk, rfl⟩
    exact ⟨n, hn⟩
  · intro n k hn hk
    obtain ⟨k', hk', hworld⟩ := (ends _).2 ⟨n, hn, rfl⟩
    rw [← hworld, Core.after_eq_of_halted hk' hk]

theorem load_insert_inverse_pair_in_loop :
    let plain := (blank 1).load (Text.ofString "]+[.,][") [.scalar 'a']
    let extended := (blank 1).load (Text.ofString "]+[-+.,][") [.scalar 'a']
    ("-+" ∈ ["+-", "-+", "><", "<>"] ∧ 0 < (blank 1).tapeSize) ∧
      (plain.after 10).core.halted = true ∧ (extended.after 14).core.halted = true ∧
      (plain.after 10).core.world = (extended.after 14).core.world := by
  intro plain extended
  have plainHalts : (plain.after 10).core.halted = true := by decide +kernel
  have extendedHalts : (extended.after 14).core.halted = true := by decide +kernel
  have inserted := load_insert_inverse_pair (blank 1) "-+" (by decide)
    (Text.ofString "]+[") (Text.ofString ".,][") [.scalar 'a'] (by decide)
  exact ⟨⟨by decide, by decide⟩, plainHalts, extendedHalts,
    inserted.2 10 14 plainHalts extendedHalts⟩

end Machine

end TapeMachine
