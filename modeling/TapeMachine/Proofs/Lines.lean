import TapeMachine.Proofs.Dialogue

/-!
What lines stand for. A blank line stands for the text before it, whatever that came to, so
lines can be told apart by their texts alone; and a place is a breakpoint where an odd number
of texts have named it, however they spelt it.
-/

namespace TapeMachine

namespace Text

theorem trimBy_trimBy (p : CodePoint → Bool) (t : Text) : trimBy p (trimBy p t) = trimBy p t := by
  -- What is left after dropping at both ends still begins as after dropping at the front.
  have front : (trimBy p t).dropWhile p = trimBy p t := by
    rw [List.dropWhile_eq_self_iff]
    intro some
    obtain ⟨rest, split⟩ : trimBy p t <+: t.dropWhile p := List.rdropWhile_prefix p _
    have more : 0 < (t.dropWhile p).length := by
      rw [← split, List.length_append]
      omega
    have first := List.dropWhile_get_zero_not p t more
    rw [List.get_eq_getElem] at first
    simpa only [← split, List.getElem_append_left some] using first
  rw [trimBy, front]
  exact List.rdropWhile_idempotent p _

theorem trim_trim (t : Text) : trim (trim t) = trim t :=
  trimBy_trimBy isBlank t

/-- Whether a text has no blanks around it, and is not empty. -/
structure IsTrimmed (t : Text) : Prop where
  trim_eq : trim t = t
  ne_nil : t ≠ []

end Text

namespace Console

/-- The text that a line stands for: the line without outer blanks, or the text before it
if nothing is left. -/
def standsFor (last line : Text) : Text :=
  if Text.trim line = [] then last else Text.trim line

/-- The texts that lines stand for, one after another. -/
def effectiveTexts (last : Text) : List Text → List Text
  | [] => []
  | line :: rest => standsFor last line :: effectiveTexts (standsFor last line) rest

/-- Carries out lines, one after another: the console in the end, and what each line leads
to. There is no end if one of them has none. -/
def carryOut (c : Console) : List Text → Option (Console × List Outcome)
  | [] => some (c, [])
  | line :: rest =>
    (c.execute line).bind fun outcome =>
      (outcome.console.carryOut rest).map fun later => (later.1, outcome :: later.2)

/-- Whether a text asks to set or remove the breakpoint at a place. -/
def toggles (pc : Int) (text : Text) : Bool :=
  Text.startsWith text 'b' &&
    (Text.words text)[1]?.bind (fun word => (Literal.integer word).toOption) = some pc

section StandsFor

variable {last line : Text}

theorem effective_eq (c : Console) (line : Text) : c.effective line = standsFor c.last line := by
  simp [effective, standsFor]

theorem isTrimmed_standsFor (h : last.IsTrimmed) (line : Text) :
    (standsFor last line).IsTrimmed := by
  rw [standsFor]
  split
  · exact h
  · next some => exact ⟨Text.trim_trim line, some⟩

theorem standsFor_of_isTrimmed (h : line.IsTrimmed) (last : Text) : standsFor last line = line := by
  rw [standsFor, h.trim_eq, if_neg h.ne_nil]

/-- A line and the text it stands for lead to the same. -/
theorem execute_standsFor {c : Console} (h : c.last.IsTrimmed) (line : Text) :
    c.execute (standsFor c.last line) = c.execute line := by
  have same : c.effective (standsFor c.last line) = c.effective line := by
    rw [effective_eq, effective_eq]
    exact standsFor_of_isTrimmed (isTrimmed_standsFor h line) c.last
  rw [execute, execute, same]

end StandsFor

section OfLine

variable {text : Text} {pc : Int}

theorem toggles_iff :
    toggles pc text = true ↔
      Text.startsWith text 'b' = true ∧
        ∃ word, (Text.words text)[1]? = some word ∧ Literal.integer word = .ok pc := by
  rw [toggles, Bool.and_eq_true, decide_eq_true_iff, Option.bind_eq_some_iff]
  apply and_congr_right
  intro _
  apply exists_congr
  intro word
  apply and_congr_right
  intro _
  cases Literal.integer word <;> simp [Except.toOption]

theorem Command.ofLine_eq_quit_iff : ofLine text = .quit ↔ Text.startsWith text 'q' = true := by
  constructor
  · intro quit
    have fits := fits_ofLine text
    rwa [quit] at fits
  · intro letter
    simp [ofLine, letter]

theorem Command.ofLine_eq_toggle_iff : ofLine text = .toggle pc ↔ toggles pc text = true := by
  rw [toggles_iff]
  constructor
  · intro toggle
    have fits := fits_ofLine text
    rwa [toggle] at fits
  · rintro ⟨letter, word, second, number⟩
    have head : text.head? = some (.scalar 'b') := of_decide_eq_true letter
    simp [ofLine, Text.startsWith, head, argument?, second, number]

theorem eq_of_toggles {p : Int} (h : toggles pc text = true) (h' : toggles p text = true) :
    p = pc := by
  rw [← Command.ofLine_eq_toggle_iff] at h h'
  rw [h] at h'
  cases h'
  rfl

end OfLine

theorem perm_insertSorted (n : Int) (list : List Int) : (insertSorted n list).Perm (n :: list) := by
  induction list with
  | nil => exact List.Perm.refl _
  | cons m rest ih =>
      rw [insertSorted]
      split
      · exact List.Perm.refl _
      · exact (ih.cons m).trans (List.Perm.swap n m rest)

section Toggle

variable {c : Console}

theorem nodup_breakpoints_toggle (nodup : c.breakpoints.Nodup) (pc : Int) :
    (c.toggle pc).1.breakpoints.Nodup := by
  rw [toggle]
  split
  · exact nodup.erase pc
  · next absent =>
      apply (perm_insertSorted pc c.breakpoints).nodup_iff.2
      exact List.nodup_cons.2 ⟨by simpa using absent, nodup⟩

/-- A breakpoint that is set is removed, and one that is not is set. -/
theorem mem_breakpoints_toggle (nodup : c.breakpoints.Nodup) (pc p : Int) :
    p ∈ (c.toggle pc).1.breakpoints ↔ Xor (p ∈ c.breakpoints) (p = pc) := by
  rw [toggle]
  split
  · next set =>
      rw [nodup.mem_erase_iff]
      rw [List.contains_iff_mem] at set
      constructor
      · rintro ⟨other, mem⟩
        exact Or.inl ⟨mem, other⟩
      · rintro (⟨mem, other⟩ | ⟨rfl, absent⟩)
        · exact ⟨other, mem⟩
        · exact absurd set absent
  · next absent =>
      rw [(perm_insertSorted pc c.breakpoints).mem_iff, List.mem_cons]
      rw [List.contains_iff_mem] at absent
      constructor
      · rintro (rfl | mem)
        · exact Or.inr ⟨rfl, absent⟩
        · refine Or.inl ⟨mem, ?_⟩
          rintro rfl
          exact absent mem
      · rintro (⟨mem, _⟩ | ⟨here, _⟩)
        · exact Or.inr mem
        · exact Or.inl here

end Toggle

section Execute

variable {size : Nat} {c next : Console} {printed : String} {command : Command} {line : Text}
  {outcome : Outcome}

theorem Command.Turns.last_eq (h : command.Turns c next printed) : next.last = c.last := by
  cases command with
  | step | goOn =>
      obtain ⟨_, k, rfl⟩ := h
      rfl
  | toggle =>
      obtain ⟨_, breakpoints, rfl⟩ := h
      rfl
  | reset =>
      obtain ⟨_, rfl⟩ := h
      rfl
  | quit | memory | output | usage | help =>
      rw [Command.Turns] at h
      rw [h]

theorem Command.Turns.breakpoints_eq (h : command.Turns c next printed)
    (other : ∀ pc, command ≠ .toggle pc) : next.breakpoints = c.breakpoints := by
  cases command with
  | step | goOn =>
      obtain ⟨_, k, rfl⟩ := h
      rfl
  | toggle pc => exact absurd rfl (other pc)
  | reset =>
      obtain ⟨_, rfl⟩ := h
      rfl
  | quit | memory | output | usage | help =>
      rw [Command.Turns] at h
      rw [h]

theorem stays_of_perform (h : c.perform command = some outcome) :
    outcome.stays = true ↔ command ≠ .quit := by
  cases command with
  | goOn =>
      obtain ⟨_, _, rfl⟩ := Option.map_eq_some_iff.1 h
      simp [Outcome.ofPrint]
  | quit | step | memory | toggle | output | reset | usage | help =>
      cases h
      simp [Outcome.ofPrint]

theorem stays_of_execute (h : c.execute line = some outcome) :
    outcome.stays = !Text.startsWith (standsFor c.last line) 'q' := by
  rw [Bool.eq_iff_iff, stays_of_perform h, ne_eq, Command.ofLine_eq_quit_iff, effective_eq]
  simp

theorem breakpoints_of_perform (valid : c.machine.core.Valid size)
    (h : c.perform command = some outcome) :
    (∃ pc, command = .toggle pc ∧ outcome.console.breakpoints = (c.toggle pc).1.breakpoints) ∨
      (∀ pc, command ≠ .toggle pc) ∧ outcome.console.breakpoints = c.breakpoints := by
  by_cases toggled : ∃ pc, command = .toggle pc
  · obtain ⟨pc, rfl⟩ := toggled
    cases h
    exact Or.inl ⟨pc, rfl, rfl⟩
  · have other := not_exists.1 toggled
    exact Or.inr ⟨other, (turns_of_perform valid h).breakpoints_eq other⟩

section Perform

variable {text : Text} (valid : c.machine.core.Valid size) (nodup : c.breakpoints.Nodup)
  (h : c.perform (Command.ofLine text) = some outcome)

include valid nodup h

theorem nodup_breakpoints_of_perform : outcome.console.breakpoints.Nodup := by
  rcases breakpoints_of_perform valid h with ⟨pc, _, same⟩ | ⟨_, same⟩
  · rw [same]
    exact nodup_breakpoints_toggle nodup pc
  · rw [same]
    exact nodup

/-- A text changes the breakpoint that it names, and no other. -/
theorem mem_breakpoints_of_perform (p : Int) :
    p ∈ outcome.console.breakpoints ↔ Xor (p ∈ c.breakpoints) (toggles p text = true) := by
  have changed := breakpoints_of_perform valid h
  simp only [ne_eq, Command.ofLine_eq_toggle_iff] at changed
  rcases changed with ⟨pc, toggled, same⟩ | ⟨other, same⟩
  · have named : toggles p text = true ↔ p = pc := by
      constructor
      · exact eq_of_toggles toggled
      · rintro rfl
        exact toggled
    rw [same, mem_breakpoints_toggle nodup, named]
  · simp [same, other p, Xor]

end Perform

end Execute

/-- What is left of the texts that a console has heard: the last of them, and of the
breakpoints those that an odd number of texts have named. -/
structure Heard (new : Console) (texts : List Text) (c : Console) : Prop where
  descends : c.Descends new
  last : c.last = texts.getLastD new.last
  trimmed : c.last.IsTrimmed
  nodup : c.breakpoints.Nodup
  mem_breakpoints : ∀ p, p ∈ c.breakpoints ↔ Odd (texts.countP (toggles p))

section Heard

variable {size : Nat} {source input line : Text} {lines texts : List Text} {c next : Console}
  {outcome : Outcome} {outcomes : List Outcome}

theorem heard_fresh (size : Nat) (source input : Text) :
    Heard (fresh size source input) [] (fresh size source input) where
  descends := Descends.refl _
  last := rfl
  trimmed := by
    have initial : (Text.ofString "s").IsTrimmed := ⟨by decide, by decide⟩
    exact initial
  nodup := List.nodup_nil
  mem_breakpoints p := by simp [fresh]

theorem Heard.last_eq {new : Console} {text : Text} (h : Heard new (texts ++ [text]) c) :
    c.last = text := by
  rw [h.last, List.getLastD_concat]

/-- One more line is one more text that is heard. -/
theorem Heard.execute (hsize : 0 < size) (h : Heard (fresh size source input) texts c)
    (executed : c.execute line = some outcome) :
    Heard (fresh size source input) (texts ++ [standsFor c.last line]) outcome.console := by
  rw [Console.execute, effective_eq] at executed
  have descends := h.descends.recall (standsFor c.last line)
  have valid := descends.valid_core hsize
  have turns := turns_of_perform valid executed
  have last : outcome.console.last = standsFor c.last line := turns.last_eq
  have nodup : { c with last := standsFor c.last line }.breakpoints.Nodup := h.nodup
  constructor
  case descends => exact descends.turns turns
  case last => rw [last, List.getLastD_concat]
  case trimmed =>
    rw [last]
    exact isTrimmed_standsFor h.trimmed line
  case nodup => exact nodup_breakpoints_of_perform valid nodup executed
  case mem_breakpoints =>
    intro p
    rw [mem_breakpoints_of_perform valid nodup executed, h.mem_breakpoints, List.countP_append,
      List.countP_singleton]
    split
    · next named => simp [Xor, named, Nat.odd_add_one]
    · next other => simp [Xor, other]

theorem carryOut_cons_eq_some_iff :
    c.carryOut (line :: lines) = some (next, outcomes) ↔
      ∃ outcome rest, c.execute line = some outcome ∧
        outcome.console.carryOut lines = some (next, rest) ∧ outcomes = outcome :: rest := by
  constructor
  · intro h
    obtain ⟨outcome, executed, more⟩ := Option.bind_eq_some_iff.1 h
    obtain ⟨⟨_, rest⟩, left, same⟩ := Option.map_eq_some_iff.1 more
    cases same
    exact ⟨outcome, rest, executed, left, rfl⟩
  · rintro ⟨outcome, rest, executed, more, rfl⟩
    simp [carryOut, executed, more]

theorem Heard.carryOut (hsize : 0 < size) (h : Heard (fresh size source input) texts c)
    (carried : c.carryOut lines = some (next, outcomes)) :
    Heard (fresh size source input) (texts ++ effectiveTexts c.last lines) next := by
  induction lines generalizing c texts outcomes with
  | nil =>
      cases carried
      rwa [effectiveTexts, List.append_nil]
  | cons line lines ih =>
      obtain ⟨outcome, rest, executed, more, rfl⟩ := carryOut_cons_eq_some_iff.1 carried
      have heard := h.execute hsize executed
      have whole := ih heard more
      rwa [heard.last_eq, List.append_assoc, List.singleton_append] at whole

theorem Heard.stays_of_carryOut (hsize : 0 < size) (h : Heard (fresh size source input) texts c)
    (carried : c.carryOut lines = some (next, outcomes)) :
    outcomes.map Outcome.stays =
      (effectiveTexts c.last lines).map fun text => !Text.startsWith text 'q' := by
  induction lines generalizing c texts outcomes with
  | nil =>
      cases carried
      rfl
  | cons line lines ih =>
      obtain ⟨outcome, rest, executed, more, rfl⟩ := carryOut_cons_eq_some_iff.1 carried
      have heard := h.execute hsize executed
      have whole := ih heard more
      rw [heard.last_eq] at whole
      rw [List.map_cons, stays_of_execute executed, whole, effectiveTexts, List.map_cons]

/-- Lines and the texts they stand for lead to the same. -/
theorem Heard.carryOut_eq (hsize : 0 < size) (h : Heard (fresh size source input) texts c) :
    c.carryOut (effectiveTexts c.last lines) = c.carryOut lines := by
  induction lines generalizing c texts with
  | nil => rfl
  | cons line lines ih =>
      rw [effectiveTexts, Console.carryOut, Console.carryOut, execute_standsFor h.trimmed]
      apply Option.bind_congr
      intro outcome executed
      have heard := h.execute hsize executed
      rw [← heard.last_eq, ih heard]

end Heard

/-- Lines lead a new console to what the texts they stand for lead it to. The last of these
texts is the one a blank line repeats, and never blank; a text that begins like a quit, and no
other, closes the console; a place is a breakpoint where an odd number of texts have asked for
it; and a further line has an outcome unless it goes on where nothing stops it. -/
theorem carryOut_effectiveTexts {size : Nat} (hsize : 0 < size) (source input : Text)
    (lines : List Text) :
    let new := fresh size source input
    let texts := effectiveTexts (Text.ofString "s") lines
    (∀ memory, memory.holds size = true →
      open? (.text source) (.text input) (.nat size) memory = .ok new) ∧
    new.carryOut texts = new.carryOut lines ∧
    ∀ c outcomes, new.carryOut lines = some (c, outcomes) →
      c.last = texts.getLastD (Text.ofString "s") ∧ Text.trim c.last ≠ [] ∧
      outcomes.map Outcome.stays = texts.map (fun text => !Text.startsWith text 'q') ∧
      (∀ p, p ∈ c.breakpoints ↔ Odd (texts.countP (toggles p))) ∧
      ∀ line, c.execute line = none →
        Text.startsWith (standsFor c.last line) 'c' = true ∧
          ∀ k, 0 < k → stopsAt c.breakpoints (c.machine.core.after k) = false := by
  intro new texts
  have start := heard_fresh size source input
  refine ⟨fun _ fits => open?_text hsize fits source input, start.carryOut_eq hsize, ?_⟩
  intro c outcomes carried
  have heard := start.carryOut hsize carried
  refine ⟨heard.last, ?_, start.stays_of_carryOut hsize carried, heard.mem_breakpoints, ?_⟩
  · rw [heard.trimmed.trim_eq]
    exact heard.trimmed.ne_nil
  · intro line unanswered
    rw [← effective_eq]
    exact execute_eq_none (heard.descends.valid_core hsize) unanswered

/-- One place spelt in several ways, with blank lines that repeat a toggle and a failure. -/
theorem carryOut_effectiveTexts_of_repeats :
    let new := fresh 2 (Text.ofString "+") []
    let lines := ["b 3", "", " b +3", "r", "b x", " ", "b 1_0", "", "q 3"].map Text.ofString
    0 < 2 ∧ ∃ c outcomes, new.carryOut lines = some (c, outcomes) ∧
      c.last = Text.ofString "q 3" ∧
      outcomes.map Outcome.stays = [true, true, true, true, true, true, true, true, false] ∧
      3 ∈ c.breakpoints ∧ 10 ∉ c.breakpoints := by
  intro new lines
  have ends : (new.carryOut lines).isSome = true := by decide
  obtain ⟨⟨c, outcomes⟩, carried⟩ := Option.isSome_iff_exists.1 ends
  obtain ⟨_, _, whole⟩ := carryOut_effectiveTexts Nat.two_pos (Text.ofString "+") [] lines
  obtain ⟨last, _, stays, breakpoints, _⟩ := whole c outcomes carried
  refine ⟨by decide, c, outcomes, carried, ?_, ?_, ?_, ?_⟩
  · rw [last]
    decide
  · rw [stays]
    decide
  · rw [breakpoints]
    decide
  · rw [breakpoints]
    decide

end Console

end TapeMachine
