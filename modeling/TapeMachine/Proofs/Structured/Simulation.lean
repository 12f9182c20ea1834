import TapeMachine.Proofs.Lifecycle
import TapeMachine.Proofs.Stepping
import TapeMachine.Proofs.Structured.Meaning

/-!
The machine does what an arranged program means. A block that stands somewhere in
a program takes the machine from its first command to the place behind its last,
or to a halt, with the world that the meaning of the block has; and where the
machine halts, the meaning exists.
-/

namespace TapeMachine

private theorem prefix_drop_cons {α : Type} {x : α} {xs l : List α} {k : Nat}
    (h : x :: xs <+: l.drop k) : l[k]? = some x ∧ xs <+: l.drop (k + 1) := by
  obtain ⟨rest, hrest⟩ := h
  constructor
  · rw [← List.head?_drop, ← hrest]
    rfl
  · refine ⟨rest, ?_⟩
    rw [← List.tail_drop, ← hrest]
    rfl

private theorem prefix_drop_append {α : Type} {xs ys l : List α} {k : Nat}
    (h : xs ++ ys <+: l.drop k) : xs <+: l.drop k ∧ ys <+: l.drop (k + xs.length) := by
  obtain ⟨rest, hrest⟩ := h
  constructor
  · exact ⟨ys ++ rest, by rw [← List.append_assoc, hrest]⟩
  · refine ⟨rest, ?_⟩
    rw [← List.drop_drop, ← hrest, List.append_assoc, List.drop_left]

/-- A block stands in a program at place `k`, with the partners it shows. -/
structure Program.Holds (p : Program) (k : Nat) (b : Block) : Prop where
  commands : b.flatten <+: p.commands.toList.drop k
  partners : b.table k <+: p.partners.toList.drop k

namespace Program

variable {p : Program} {k : Nat} {body next : Block}

/-- A program holds its own arrangement at its start. -/
theorem holds_parse (h : p.IsPaired) : p.Holds 0 (.parse p.commands.toList) where
  commands := by
    rw [Block.flatten_parse]
    exact List.prefix_rfl
  partners := by
    have shown := Block.partners_flatten (Block.nested_parse p.commands.toList)
    rw [Block.flatten_parse] at shown
    rw [h, brackets, shown]
    exact List.prefix_rfl

theorem Holds.act {effect : Effect} (h : p.Holds k (.act effect next)) :
    p.commands[k]? = some effect.command ∧ p.Holds (k + 1) next := by
  obtain ⟨command, commands⟩ := prefix_drop_cons h.commands
  obtain ⟨_, partners⟩ := prefix_drop_cons h.partners
  exact ⟨by simpa using command, commands, partners⟩

theorem Holds.strayOpening (h : p.Holds k (.strayOpening next)) :
    p.commands[k]? = some .loopStart ∧ p.partners[k]? = some (some .pastEnd) ∧
      p.Holds (k + 1) next := by
  obtain ⟨command, commands⟩ := prefix_drop_cons h.commands
  obtain ⟨partner, partners⟩ := prefix_drop_cons h.partners
  exact ⟨by simpa using command, by simpa using partner, commands, partners⟩

theorem Holds.strayClosing (h : p.Holds k (.strayClosing next)) :
    p.commands[k]? = some .loopEnd ∧ p.partners[k]? = some (some .beforeStart) ∧
      p.Holds (k + 1) next := by
  obtain ⟨command, commands⟩ := prefix_drop_cons h.commands
  obtain ⟨partner, partners⟩ := prefix_drop_cons h.partners
  exact ⟨by simpa using command, by simpa using partner, commands, partners⟩

theorem Holds.opening (h : p.Holds k (.loop body next)) :
    p.commands[k]? = some .loopStart ∧
      p.partners[k]? = some (some (.slot (k + 1 + body.size))) := by
  obtain ⟨command, _⟩ := prefix_drop_cons h.commands
  obtain ⟨partner, _⟩ := prefix_drop_cons h.partners
  exact ⟨by simpa using command, by simpa using partner⟩

theorem Holds.inside (h : p.Holds k (.loop body next)) : p.Holds (k + 1) body where
  commands := (prefix_drop_append (prefix_drop_cons h.commands).2).1
  partners := (prefix_drop_append (prefix_drop_cons h.partners).2).1

theorem Holds.closing (h : p.Holds k (.loop body next)) :
    p.commands[k + 1 + body.size]? = some .loopEnd ∧
      p.partners[k + 1 + body.size]? = some (some (.slot k)) ∧
      p.Holds (k + 1 + body.size + 1) next := by
  have commands := (prefix_drop_append (prefix_drop_cons h.commands).2).2
  have partners := (prefix_drop_append (prefix_drop_cons h.partners).2).2
  rw [Block.length_table] at partners
  obtain ⟨command, commands⟩ := prefix_drop_cons commands
  obtain ⟨partner, partners⟩ := prefix_drop_cons partners
  exact ⟨by simpa [Block.size] using command, by simpa using partner, commands, partners⟩

end Program

namespace Core

/-- What the commands of a program act on, in a core. -/
def world (c : Core) : World :=
  { tape := c.tape
    ptr := c.ptr
    unread := c.input.toList.drop c.inputPos
    output := c.output }

theorem world_load (size : Nat) (source input : Text) :
    (load size source input).world = World.start size input := by
  simp [load, install, world, World.start, blankTape, inputBytes]

theorem pc_execute_effect (c : Core) (effect : Effect) :
    (c.execute effect.command).pc = c.pc + 1 := by
  cases effect with
  | read =>
      simp only [Effect.command, execute, readByte]
      split <;> rfl
  | right => rfl
  | left => rfl
  | increment => rfl
  | decrement => rfl
  | write => rfl

theorem world_execute_effect (c : Core) (effect : Effect) :
    (c.execute effect.command).world = c.world.act effect := by
  have written (f : UInt8 → UInt8) :
      (c.mapCell f).world = c.world.setCell (f c.cell) := by
    simp only [world, tape_mapCell]
    rfl
  cases effect with
  | right => rfl
  | left => rfl
  | increment => exact written (· + 1)
  | decrement => exact written (· - 1)
  | write => rfl
  | read =>
      simp only [Effect.command, execute, readByte]
      cases h : c.input[c.inputPos]? with
      | none =>
          have used : c.world.unread = [] := by
            simpa [world] using h
          rw [World.act, used]
          exact written fun _ => 0
      | some b =>
          have unread : c.world.unread = b :: c.input.toList.drop (c.inputPos + 1) := by
            obtain ⟨inside, rfl⟩ := Array.getElem?_eq_some_iff.1 h
            simp [world, List.drop_eq_getElem_cons, inside]
          rw [World.act, unread]
          simp only [world, tape_mapCell]
          rfl

theorem step_effect {c : Core} {effect : Effect} (h : c.command? = some effect.command) :
    c.step.pc = c.pc + 1 ∧ c.step.world = c.world.act effect := by
  rw [step_of_command h]
  exact ⟨pc_execute_effect _ effect, world_execute_effect _ effect⟩

theorem step_strayOpening {c : Core} {next : Block}
    (holds : c.program.Holds c.pc (.strayOpening next)) :
    c.step.world = c.world ∧
      c.step.pc = if c.cell = 0 then c.program.length + 1 else c.pc + 1 := by
  obtain ⟨command, partner, _⟩ := holds.strayOpening
  rw [step_of_loopStart command]
  refine ⟨rfl, ?_⟩
  simp [openingTarget, partner?, partner]

theorem step_strayClosing {c : Core} {next : Block}
    (holds : c.program.Holds c.pc (.strayClosing next)) :
    c.step.world = c.world ∧ c.step.pc = if c.cell = 0 then c.pc + 1 else c.program.length := by
  obtain ⟨command, partner, _⟩ := holds.strayClosing
  rw [step_of_loopEnd command]
  refine ⟨rfl, ?_⟩
  simp [closingTarget, partner?, partner]

/-- What a part of a program that ends before place `k` leads to: with a passed
world the core comes to that place, with a stopped one it halts. -/
def Yields (c : Core) (k : Nat) : Outcome → Prop
  | .passed w => ∃ n, (c.after n).pc = k ∧ (c.after n).world = w
  | .stopped w => ∃ n, (c.after n).halted = true ∧ (c.after n).world = w

theorem Yields.of_after {c : Core} {m k : Nat} {out : Outcome} (h : (c.after m).Yields k out) :
    c.Yields k out := by
  cases out with
  | passed w =>
      obtain ⟨n, hn⟩ := h
      exact ⟨m + n, by rwa [after_add]⟩
  | stopped w =>
      obtain ⟨n, hn⟩ := h
      exact ⟨m + n, by rwa [after_add]⟩

theorem Yields.of_step {c : Core} {k : Nat} {out : Outcome} (h : c.step.Yields k out) :
    c.Yields k out :=
  Yields.of_after (m := 1) h

/-- A step to the next place leaves the rest of a part to yield what it means. -/
theorem Yields.of_next {c : Core} {size : Nat} {out : Outcome} (pc : c.step.pc = c.pc + 1)
    (h : c.step.Yields (c.step.pc + size) out) : c.Yields (c.pc + (size + 1)) out := by
  rw [pc, Nat.add_assoc, Nat.add_comm 1] at h
  exact h.of_step

/-- Parts in a row yield what they mean in a row. -/
theorem Yields.andThen {c : Core} {j k : Nat} {first : Option Outcome}
    {next : World → Option Outcome} {out : Outcome}
    (hfirst : ∀ r, first = some r → c.Yields j r)
    (hnext : ∀ n r, (c.after n).pc = j → next (c.after n).world = some r →
      (c.after n).Yields k r)
    (h : Outcome.andThen first next = some out) : c.Yields k out := by
  cases hcase : first with
  | none =>
      rw [hcase] at h
      cases h
  | some r =>
      rw [hcase] at h
      cases r with
      | passed w =>
          obtain ⟨n, hpc, hworld⟩ := hfirst _ hcase
          apply Yields.of_after
          apply hnext n out hpc
          rw [hworld]
          exact h
      | stopped w =>
          cases h
          exact hfirst _ hcase

/-- A core at either end of a loop that the program holds at `k`. -/
structure AtLoop (c : Core) (k : Nat) (body next : Block) : Prop where
  holds : c.program.Holds k (.loop body next)
  place : c.pc = k ∨ c.pc = k + 1 + body.size

section Loop

variable {c : Core} {k : Nat} {body next : Block}

theorem AtLoop.halted (h : c.AtLoop k body next) : c.halted = false := by
  have found : c.command? ≠ none := by
    rcases h.place with place | place
    · rw [command?, place, h.holds.opening.1]
      simp
    · rw [command?, place, h.holds.closing.1]
      simp
  rw [ne_eq, command?_eq_none_iff, Bool.not_eq_true] at found
  exact found

/-- Both ends of a loop lead behind it on a zero cell and into it on another. -/
theorem AtLoop.step (h : c.AtLoop k body next) :
    c.step.world = c.world ∧
      c.step.pc = if c.cell = 0 then k + 1 + body.size + 1 else k + 1 := by
  rcases h.place with place | place
  · have command : c.command? = some .loopStart := by
      rw [command?, place, h.holds.opening.1]
    have partner : c.partner? = some (.slot (k + 1 + body.size)) := by
      rw [partner?, place, h.holds.opening.2]
      rfl
    rw [step_of_loopStart command]
    refine ⟨rfl, ?_⟩
    simp only [openingTarget, partner, place]
  · have command : c.command? = some .loopEnd := by
      rw [command?, place, h.holds.closing.1]
    have partner : c.partner? = some (.slot k) := by
      rw [partner?, place, h.holds.closing.2.1]
      rfl
    rw [step_of_loopEnd command]
    refine ⟨rfl, ?_⟩
    simp only [closingTarget, partner, place]

/-- Repeating a loop yields what the repetition of its body means, once the body
yields what it means. -/
theorem AtLoop.yields {run : World → Option Outcome} {count : Nat} {out : Outcome}
    (h : c.AtLoop k body next)
    (hbody : ∀ d : Core, d.program = c.program → d.pc = k + 1 →
      ∀ r, run d.world = some r → d.Yields (k + 1 + body.size) r)
    (hrun : Outcome.repeatWhile run count c.world = some out) :
    c.Yields (k + 1 + body.size + 1) out := by
  induction count generalizing c out with
  | zero =>
      obtain ⟨world, pc⟩ := h.step
      rw [Outcome.repeatWhile] at hrun
      split at hrun
      · next zero =>
          cases hrun
          have here : c.cell = 0 := zero
          exact ⟨1, by rw [after_succ, after_zero, pc, if_pos here], world⟩
      · cases hrun
  | succ count ih =>
      obtain ⟨world, pc⟩ := h.step
      rw [Outcome.repeatWhile] at hrun
      split at hrun
      · next zero =>
          cases hrun
          have here : c.cell = 0 := zero
          exact ⟨1, by rw [after_succ, after_zero, pc, if_pos here], world⟩
      · next nonzero =>
          have here : ¬ c.cell = 0 := nonzero
          rw [if_neg here] at pc
          apply Yields.of_step
          apply Yields.andThen (j := k + 1 + body.size) _ _ hrun
          · intro r hr
            rw [← world] at hr
            exact hbody c.step (program_step c) pc r hr
          · intro n r hpc hr
            apply ih ⟨by simpa using h.holds, Or.inr hpc⟩ _ hr
            intro d hd
            exact hbody d (by simpa using hd)

end Loop

/-- A block yields what it means, wherever it stands. -/
theorem yields_of_run {b : Block} {fuel : Nat} {c : Core} {out : Outcome}
    (holds : c.program.Holds c.pc b) (h : b.run fuel c.world = some out) :
    c.Yields (c.pc + b.size) out := by
  induction b generalizing c out with
  | done =>
      cases h
      exact ⟨0, rfl, rfl⟩
  | act effect next ih =>
      obtain ⟨command, rest⟩ := holds.act
      obtain ⟨pc, world⟩ := step_effect (c := c) command
      exact Yields.of_next pc (ih (by simpa [pc] using rest) (by rw [world]; exact h))
  | loop body next ihb ihn =>
      have length : c.pc + (Block.loop body next).size =
          c.pc + 1 + body.size + 1 + next.size := by
        simp only [Block.size, Block.flatten, List.length_cons, List.length_append]
        omega
      have atLoop : c.AtLoop c.pc body next := ⟨holds, Or.inl rfl⟩
      rw [length]
      apply Yields.andThen (j := c.pc + 1 + body.size + 1) _ _ h
      · intro r hr
        apply atLoop.yields _ hr
        intro d hprogram hpc r hr
        have yields := ihb (c := d) (by rw [hprogram, hpc]; exact holds.inside) hr
        rwa [hpc] at yields
      · intro n r hpc hr
        have yields := ihn (c := c.after n)
          (by rw [hpc, program_after]; exact holds.closing.2.2) hr
        rwa [hpc] at yields
  | strayOpening next ih =>
      obtain ⟨_, _, rest⟩ := holds.strayOpening
      obtain ⟨world, pc⟩ := step_strayOpening holds
      rw [Block.run] at h
      split at h
      · next zero =>
          cases h
          have here : c.cell = 0 := zero
          rw [if_pos here] at pc
          exact ⟨1, by simp [after_succ, halted, pc], world⟩
      · next nonzero =>
          have here : ¬ c.cell = 0 := nonzero
          rw [if_neg here] at pc
          exact Yields.of_next pc (ih (by simpa [pc] using rest) (by rw [world]; exact h))
  | strayClosing next ih =>
      obtain ⟨_, _, rest⟩ := holds.strayClosing
      obtain ⟨world, pc⟩ := step_strayClosing holds
      rw [Block.run] at h
      split at h
      · next zero =>
          have here : c.cell = 0 := zero
          rw [if_pos here] at pc
          exact Yields.of_next pc (ih (by simpa [pc] using rest) (by rw [world]; exact h))
      · next nonzero =>
          cases h
          have here : ¬ c.cell = 0 := nonzero
          rw [if_neg here] at pc
          exact ⟨1, by simp [after_succ, halted, pc], world⟩

/-- A loop that the machine leaves or halts in has a meaning, once its body has
one wherever the machine halts. -/
theorem AtLoop.exists_repeatWhile {c : Core} {k n : Nat} {body next : Block}
    (h : c.AtLoop k body next) (hn : (c.after n).halted = true)
    (hbody : ∀ (d : Core) (n : Nat), d.program = c.program → d.pc = k + 1 →
      (d.after n).halted = true → ∃ fuel out, body.run fuel d.world = some out) :
    ∃ fuel out, Outcome.repeatWhile (body.run fuel) fuel c.world = some out := by
  induction n generalizing c with
  | zero =>
      rw [after_zero, h.halted] at hn
      cases hn
  | succ n ih =>
      obtain ⟨world, pc⟩ := h.step
      by_cases zero : c.cell = 0
      · exact ⟨0, .passed c.world, if_pos zero⟩
      · have nonzero : ¬ c.world.cell = 0 := zero
        rw [if_neg zero] at pc
        rw [after_succ] at hn
        obtain ⟨first, out, hfirst⟩ := hbody c.step n (program_step c) pc hn
        cases out with
        | stopped w =>
            refine ⟨first + 1, .stopped w, ?_⟩
            rw [world] at hfirst
            rw [Outcome.repeatWhile, if_neg nonzero, Block.run_mono (Nat.le_succ first) hfirst]
            rfl
        | passed w =>
            have holds : c.step.program.Holds c.step.pc body := by
              rw [pc, program_step]
              exact h.holds.inside
            -- The body ends before the halt, so the rest of the run is shorter.
            obtain ⟨m, hpc, hworld⟩ := yields_of_run holds hfirst
            rw [pc] at hpc
            obtain ⟨rest, out, hrest⟩ := ih (c := c.step.after m)
              ⟨by simpa using h.holds, Or.inr hpc⟩ (halted_after_after m hn)
              (fun d k hd => hbody d k (by simpa using hd))
            refine ⟨max first rest + 1, out, ?_⟩
            rw [world] at hfirst
            rw [hworld] at hrest
            rw [Outcome.repeatWhile, if_neg nonzero, Block.run_mono (by omega) hfirst]
            exact Outcome.repeatWhile_mono (fun w r hr => Block.run_mono (by omega) hr)
              (by omega) hrest

/-- Where the machine halts, every block on its way has a meaning. -/
theorem exists_run_of_halted {b : Block} {c : Core} {n : Nat}
    (holds : c.program.Holds c.pc b) (hn : (c.after n).halted = true) :
    ∃ fuel out, b.run fuel c.world = some out := by
  induction b generalizing c n with
  | done => exact ⟨0, .passed c.world, rfl⟩
  | act effect next ih =>
      obtain ⟨command, rest⟩ := holds.act
      obtain ⟨pc, world⟩ := step_effect (c := c) command
      obtain ⟨fuel, out, h⟩ := ih (c := c.step) (n := n) (by simpa [pc] using rest)
        (halted_after_after 1 hn)
      rw [world] at h
      exact ⟨fuel, out, h⟩
  | loop body next ihb ihn =>
      have atLoop : c.AtLoop c.pc body next := ⟨holds, Or.inl rfl⟩
      obtain ⟨first, out, hfirst⟩ := atLoop.exists_repeatWhile hn (by
        intro d k hprogram hpc hk
        exact ihb (by rw [hprogram, hpc]; exact holds.inside) hk)
      cases out with
      | stopped w => exact ⟨first, .stopped w, by rw [Block.run, hfirst]; rfl⟩
      | passed w =>
          obtain ⟨m, hpc, hworld⟩ := atLoop.yields (by
            intro d hprogram hpc r hr
            have yields := yields_of_run (c := d) (by rw [hprogram, hpc]; exact holds.inside) hr
            rwa [hpc] at yields) hfirst
          obtain ⟨rest, out, hrest⟩ := ihn (c := c.after m) (n := n)
            (by rw [hpc, program_after]; exact holds.closing.2.2)
            (halted_after_after m hn)
          refine ⟨max first rest, out, ?_⟩
          rw [hworld] at hrest
          rw [Block.run, Outcome.repeatWhile_mono (fun w r hr => Block.run_mono (by omega) hr)
            (Nat.le_max_left first rest) hfirst]
          exact Block.run_mono (Nat.le_max_right first rest) hrest
  | strayOpening next ih =>
      obtain ⟨_, _, rest⟩ := holds.strayOpening
      obtain ⟨world, pc⟩ := step_strayOpening holds
      by_cases zero : c.cell = 0
      · exact ⟨0, .stopped c.world, if_pos zero⟩
      · rw [if_neg zero] at pc
        obtain ⟨fuel, out, h⟩ := ih (c := c.step) (n := n) (by simpa [pc] using rest)
          (halted_after_after 1 hn)
        rw [world] at h
        have nonzero : ¬ c.world.cell = 0 := zero
        exact ⟨fuel, out, by rw [Block.run, if_neg nonzero]; exact h⟩
  | strayClosing next ih =>
      obtain ⟨_, _, rest⟩ := holds.strayClosing
      obtain ⟨world, pc⟩ := step_strayClosing holds
      by_cases zero : c.cell = 0
      · rw [if_pos zero] at pc
        obtain ⟨fuel, out, h⟩ := ih (c := c.step) (n := n) (by simpa [pc] using rest)
          (halted_after_after 1 hn)
        rw [world] at h
        have here : c.world.cell = 0 := zero
        exact ⟨fuel, out, by rw [Block.run, if_pos here]; exact h⟩
      · exact ⟨0, .stopped c.world, if_neg zero⟩

/-- A loaded core halts in a world exactly where its program, arranged, means that
world. -/
theorem load_ends_iff (size : Nat) (source input : Text) (w : World) :
    (∃ n, ((load size source input).after n).halted = true ∧
      ((load size source input).after n).world = w) ↔
    ∃ fuel out, (Block.parse (Program.ofSource source).commands.toList).run fuel
      (World.start size input) = some out ∧ out.world = w := by
  let c := load size source input
  let program := Block.parse (Program.ofSource source).commands.toList
  have holds : c.program.Holds c.pc program :=
    Program.holds_parse (Program.isPaired_ofSource source)
  rw [← world_load size source input]
  have ends (fuel : Nat) (out : Outcome) (h : program.run fuel c.world = some out) :
      ∃ n, (c.after n).halted = true ∧ (c.after n).world = out.world := by
    have yields := yields_of_run holds h
    cases out with
    | stopped w => exact yields
    | passed w =>
        obtain ⟨n, hpc, hworld⟩ := yields
        have length : program.size = c.program.length := by
          rw [Block.size, Block.flatten_parse]
          exact Array.length_toList
        have past : (c.after n).pc = c.program.length := by
          rw [hpc, length]
          exact Nat.zero_add _
        exact ⟨n, by simp [halted, past], hworld⟩
  constructor
  · rintro ⟨n, hn, rfl⟩
    obtain ⟨fuel, out, h⟩ := exists_run_of_halted holds hn
    obtain ⟨k, hk, hworld⟩ := ends fuel out h
    refine ⟨fuel, out, h, ?_⟩
    rw [← hworld, after_eq_of_halted hk hn]
  · rintro ⟨fuel, out, h, rfl⟩
    exact ends fuel out h

end Core

namespace Machine

/-- A loaded machine halts exactly where its program, arranged, has a meaning,
and it ends in the world that the program means. -/
theorem load_halts_iff_run (m : Machine) (source input : Text) :
    let program := Block.parse (Program.ofSource source).commands.toList
    let world := World.start m.tapeSize input
    ((∃ n, ((m.load source input).after n).core.halted = true) ↔
      ∃ fuel out, program.run fuel world = some out) ∧
    ∀ n fuel out, ((m.load source input).after n).core.halted = true →
      program.run fuel world = some out →
      ((m.load source input).after n).core.world = out.world := by
  intro program world
  let c := Core.load m.tapeSize source input
  have holds : c.program.Holds c.pc program :=
    Program.holds_parse (Program.isPaired_ofSource source)
  have start : c.world = world := Core.world_load m.tapeSize source input
  have ends (fuel : Nat) (out : Outcome) (h : program.run fuel world = some out) :
      ∃ n, (c.after n).halted = true ∧ (c.after n).world = out.world := by
    rw [← start] at h
    have yields := Core.yields_of_run holds h
    cases out with
    | stopped w => exact yields
    | passed w =>
        obtain ⟨n, hpc, hworld⟩ := yields
        refine ⟨n, ?_, hworld⟩
        have length : program.size = c.program.length := by
          rw [Block.size, Block.flatten_parse]
          exact Array.length_toList
        have start : c.pc = 0 := rfl
        rw [Core.halted, Core.program_after, hpc, length, start]
        simp
  simp only [core_after, core_load]
  refine ⟨⟨?_, ?_⟩, ?_⟩
  · rintro ⟨n, hn⟩
    have meaning := Core.exists_run_of_halted holds hn
    rwa [start] at meaning
  · rintro ⟨fuel, out, h⟩
    obtain ⟨n, hn, _⟩ := ends fuel out h
    exact ⟨n, hn⟩
  · intro n fuel out hn h
    obtain ⟨k, hk, hworld⟩ := ends fuel out h
    rw [← hworld, ← Core.after_of_halted_le hn (Nat.le_max_left n k),
      ← Core.after_of_halted_le hk (Nat.le_max_right n k)]

end Machine

end TapeMachine
