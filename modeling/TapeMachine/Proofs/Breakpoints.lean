import TapeMachine.Proofs.Dialogue

/-!
How breakpoints cut a run into pieces. Going on leaves the place it starts from, a breakpoint
or not, and makes the fewest steps that lead to a halt or to a breakpoint; a halt counts for a
halt wherever it is. Going on again and again therefore meets the breakpoints of one whole run,
in their order, and ends with it.
-/

namespace TapeMachine.Console

/-- Whether so many steps, at least one, are the fewest that lead to a stop. -/
structure NextStop (c : Console) (k : Nat) : Prop where
  pos : 0 < k
  stops : stopsAt c.breakpoints (c.machine.core.after k) = true
  first : ∀ j, 0 < j → j < k → stopsAt c.breakpoints (c.machine.core.after j) = false

/-- What is reported of a stop: its place, or nothing at a halt. -/
def hit? (core : Core) : Option Nat :=
  if core.halted then none else some core.pc

/-- The breakpoint that a core is at, if any. A halted core is at none. -/
def met? (breakpoints : List Int) (core : Core) : Option Nat :=
  if !core.halted && breakpoints.contains (core.pc : Int) then some core.pc else none

/-- The breakpoints met after each of the next `n` steps. -/
def breakpointsMet (c : Console) (n : Nat) : List Nat :=
  (List.range n).filterMap fun k => met? c.breakpoints (c.machine.core.after (k + 1))

/-- Goes on so many times: the console in the end, and what each time reports. -/
def goOnTimes : Nat → Console → Option (Console × List (Option Nat))
  | 0, c => some (c, [])
  | n + 1, c =>
    c.goOn.bind fun went => (goOnTimes n went.1).map fun rest => (rest.1, went.2 :: rest.2)

section Hits

variable {core : Core} {breakpoints : List Int} {pc : Nat}

theorem hit?_eq_some_iff : hit? core = some pc ↔ core.halted = false ∧ core.pc = pc := by
  cases h : core.halted <;> simp [hit?, h]

theorem met?_eq_some_iff :
    met? breakpoints core = some pc ↔
      core.halted = false ∧ core.pc = pc ∧ (pc : Int) ∈ breakpoints := by
  simp only [met?, Option.ite_none_right_eq_some, Bool.and_eq_true, Bool.not_eq_true',
    List.contains_iff_mem, Option.some.injEq, and_assoc]
  apply and_congr_right
  intro _
  constructor
  · rintro ⟨mem, rfl⟩
    exact ⟨rfl, mem⟩
  · rintro ⟨rfl, mem⟩
    exact ⟨mem, rfl⟩

theorem met?_of_running (h : stopsAt breakpoints core = false) : met? breakpoints core = none := by
  rw [stopsAt, Bool.or_eq_false_iff] at h
  simp only [met?, h.2, Bool.and_false, Bool.false_eq_true, if_false]

theorem met?_of_halted (h : core.halted = true) : met? breakpoints core = none := by
  simp only [met?, h, Bool.not_true, Bool.false_and, Bool.false_eq_true, if_false]

theorem met?_of_stop (h : stopsAt breakpoints core = true) : met? breakpoints core = hit? core := by
  cases halted : core.halted with
  | true => rw [met?_of_halted halted, hit?, if_pos halted]
  | false =>
      rw [stopsAt, halted, Bool.false_or] at h
      simp only [met?, hit?, halted, h, Bool.not_false, Bool.and_self, Bool.false_eq_true, if_true,
        if_false]

theorem mem_of_hit? (stops : stopsAt breakpoints core = true) (h : hit? core = some pc) :
    (pc : Int) ∈ breakpoints ∧ pc < core.program.length := by
  rw [← met?_of_stop stops] at h
  obtain ⟨running, rfl, mem⟩ := met?_eq_some_iff.1 h
  exact ⟨mem, by simpa [Core.halted] using running⟩

end Hits

section NextStop

variable {size k n : Nat} {c next : Console} {hit : Option Nat}

theorem exists_nextStop (pos : 0 < n) (h : stopsAt c.breakpoints (c.machine.core.after n) = true) :
    ∃ k ≤ n, c.NextStop k := by
  obtain ⟨n, rfl⟩ := Nat.exists_eq_succ_of_ne_zero (Nat.ne_of_gt pos)
  obtain ⟨k, hk, stops, first⟩ := Core.exists_stopsAfter (c := c.machine.core.step) h
  refine ⟨k + 1, Nat.succ_le_succ hk, Nat.succ_pos k, stops, ?_⟩
  intro j hj hlt
  obtain ⟨j, rfl⟩ := Nat.exists_eq_succ_of_ne_zero (Nat.ne_of_gt hj)
  exact first j (by omega)

theorem nextStop_of_halted (h : c.machine.core.halted = true) : c.NextStop 1 where
  pos := Nat.one_pos
  stops := by
    rw [Core.after_of_halted h]
    exact (isStop_stopsAt _).halted h
  first j hj hlt := by omega

theorem NextStop.goOn_eq (valid : c.machine.core.Valid size) (h : c.NextStop k) :
    c.goOn = some ({ c with machine := c.machine.after k }, hit? (c.machine.core.after k)) := by
  obtain ⟨k, rfl⟩ := Nat.exists_eq_succ_of_ne_zero (Nat.ne_of_gt h.pos)
  have first : c.machine.core.step.StopsAfter (stopsAt c.breakpoints) k :=
    ⟨h.stops, fun j hj => h.first (j + 1) (Nat.succ_pos j) (Nat.succ_lt_succ hj)⟩
  rw [goOn_of_stopsAfter valid first, ← Machine.core_after]
  rfl

theorem goOn_eq_none_iff (valid : c.machine.core.Valid size) :
    c.goOn = none ↔ ∀ k, 0 < k → stopsAt c.breakpoints (c.machine.core.after k) = false := by
  constructor
  · intro never
    rcases goOn_cases valid with ⟨k, hit, went⟩ | ⟨_, stopless⟩
    · rw [went] at never
      cases never
    · exact stopless
  · intro stopless
    apply goOn_of_never
    intro k
    exact stopless (k + 1) (Nat.succ_pos k)

theorem goOn_eq_some_iff (valid : c.machine.core.Valid size) :
    c.goOn = some (next, hit) ↔
      ∃ k, c.NextStop k ∧ next = { c with machine := c.machine.after k } ∧
        hit = hit? (c.machine.core.after k) := by
  constructor
  · intro went
    have ends : ¬c.goOn = none := by simp [went]
    rw [goOn_eq_none_iff valid] at ends
    push Not at ends
    obtain ⟨n, pos, stops⟩ := ends
    obtain ⟨k, _, stop⟩ := exists_nextStop pos (Bool.of_not_eq_false stops)
    rw [stop.goOn_eq valid] at went
    cases went
    exact ⟨k, stop, rfl, rfl⟩
  · rintro ⟨k, stop, rfl, rfl⟩
    exact stop.goOn_eq valid

/-- On a halted machine going on changes nothing, and reports nothing. -/
theorem goOn_of_halted (valid : c.machine.core.Valid size) (idle : c.machine.runState = .idle)
    (h : c.machine.core.halted = true) : c.goOn = some (c, none) := by
  rw [(nextStop_of_halted h).goOn_eq valid, Machine.after_of_idle h idle, Core.after_of_halted h,
    hit?, if_pos h]

end NextStop

section Segments

variable {size k n : Nat} {c last : Console} {answers : List (Option Nat)}

theorem goOnTimes_succ_eq_some_iff :
    goOnTimes (n + 1) c = some (last, answers) ↔
      ∃ next hit rest, c.goOn = some (next, hit) ∧ goOnTimes n next = some (last, rest) ∧
        answers = hit :: rest := by
  constructor
  · intro h
    obtain ⟨⟨next, hit⟩, went, more⟩ := Option.bind_eq_some_iff.1 h
    obtain ⟨⟨_, rest⟩, left, same⟩ := Option.map_eq_some_iff.1 more
    cases same
    exact ⟨next, hit, rest, went, left, rfl⟩
  · rintro ⟨next, hit, rest, went, more, rfl⟩
    simp [goOnTimes, went, more]

theorem valid_core_after (valid : c.machine.core.Valid size) (k : Nat) :
    (c.machine.after k).core.Valid size := by
  rw [Machine.core_after]
  exact valid.after k

theorem breakpointsMet_add (c : Console) (m n : Nat) :
    c.breakpointsMet (m + n) =
      c.breakpointsMet m ++ { c with machine := c.machine.after m }.breakpointsMet n := by
  simp only [breakpointsMet, List.range_add, List.filterMap_append, List.filterMap_map,
    Machine.core_after, ← Core.after_add]
  rfl

theorem breakpointsMet_succ (c : Console) (n : Nat) :
    c.breakpointsMet (n + 1) =
      c.breakpointsMet n ++ (met? c.breakpoints (c.machine.core.after (n + 1))).toList := by
  rw [breakpointsMet, List.range_succ, List.filterMap_append, breakpointsMet]
  cases met : met? c.breakpoints (c.machine.core.after (n + 1)) <;> simp [met]

theorem breakpointsMet_eq_nil
    (h : ∀ k < n, met? c.breakpoints (c.machine.core.after (k + 1)) = none) :
    c.breakpointsMet n = [] := by
  rw [breakpointsMet, List.filterMap_eq_nil_iff]
  intro k hk
  exact h k (List.mem_range.1 hk)

/-- The steps to a stop meet nothing before it. -/
theorem NextStop.breakpointsMet_eq (h : c.NextStop k) :
    c.breakpointsMet k = (hit? (c.machine.core.after k)).toList := by
  obtain ⟨k, rfl⟩ := Nat.exists_eq_succ_of_ne_zero (Nat.ne_of_gt h.pos)
  have before : c.breakpointsMet k = [] := by
    apply breakpointsMet_eq_nil
    intro j hj
    apply met?_of_running
    exact h.first (j + 1) (Nat.succ_pos j) (Nat.succ_lt_succ hj)
  rw [breakpointsMet_succ, before, List.nil_append, met?_of_stop h.stops]

/-- Nothing is met once a run has halted. -/
theorem breakpointsMet_of_halted_le (h : (c.machine.core.after k).halted = true) (hle : k ≤ n) :
    c.breakpointsMet n = c.breakpointsMet k := by
  obtain ⟨m, rfl⟩ := Nat.exists_eq_add_of_le hle
  rw [breakpointsMet_add]
  apply List.append_right_eq_self.2
  apply breakpointsMet_eq_nil
  intro j _
  apply met?_of_halted
  rw [Machine.core_after, Core.after_of_halted h]
  exact h

/-- However often it is gone on, the pieces make up one run, and what they report is what
that run meets. -/
theorem exists_run_of_goOnTimes (valid : c.machine.core.Valid size)
    (h : goOnTimes n c = some (last, answers)) :
    ∃ k, last = { c with machine := c.machine.after k } ∧
      answers.reduceOption = c.breakpointsMet k := by
  induction n generalizing c answers with
  | zero =>
      cases h
      exact ⟨0, rfl, rfl⟩
  | succ n ih =>
      obtain ⟨next, hit, rest, went, more, rfl⟩ := goOnTimes_succ_eq_some_iff.1 h
      obtain ⟨k, stop, rfl, rfl⟩ := (goOn_eq_some_iff valid).1 went
      obtain ⟨l, rfl, met⟩ :=
        ih (c := { c with machine := c.machine.after k }) (valid_core_after valid k) more
      refine ⟨k + l, by rw [Machine.after_add], ?_⟩
      rw [breakpointsMet_add, stop.breakpointsMet_eq, ← met]
      cases hit? (c.machine.core.after k) <;> rfl

/-- Where a run halts, going on often enough comes to the halt, and nothing but a breakpoint
is reported before. -/
theorem exists_goOnTimes (valid : c.machine.core.Valid size) (h : c.machine.core.HaltsAfter n) :
    ∃ (last : Console) (hits : List Nat),
      goOnTimes (hits.length + 1) c = some (last, hits.map some ++ [none]) ∧
      last.machine.core.halted = true := by
  -- Each piece has at least one step, so what is left of the run gets shorter.
  induction n using Nat.strong_induction_on generalizing c with
  | _ n ih =>
      have halted : (c.machine.core.after (n + 1)).halted = true :=
        Core.halted_after_mono h.1 (Nat.le_succ n)
      obtain ⟨k, _, stop⟩ := exists_nextStop (Nat.succ_pos n) ((isStop_stopsAt _).halted halted)
      have went := stop.goOn_eq valid
      cases ended : (c.machine.core.after k).halted with
      | true =>
          rw [hit?, if_pos ended] at went
          refine ⟨{ c with machine := c.machine.after k }, [], ?_, ?_⟩
          · exact goOnTimes_succ_eq_some_iff.2 ⟨_, _, _, went, rfl, rfl⟩
          · rwa [Machine.core_after]
      | false =>
          have few : k ≤ n := by
            by_contra more
            rw [Core.halted_after_mono h.1 (Nat.le_of_not_le more)] at ended
            cases ended
          have left : (c.machine.after k).core.HaltsAfter (n - k) := by
            rw [Machine.core_after]
            exact h.after few
          obtain ⟨last, hits, rest, halted⟩ :=
            ih (n - k) (Nat.sub_lt_of_pos_le stop.pos few)
              (c := { c with machine := c.machine.after k }) (valid_core_after valid k) left
          have reported : hit? (c.machine.core.after k) = some (c.machine.core.after k).pc :=
            hit?_eq_some_iff.2 ⟨ended, rfl⟩
          rw [reported] at went
          exact ⟨last, (c.machine.core.after k).pc :: hits,
            goOnTimes_succ_eq_some_iff.2 ⟨_, _, _, went, rest, rfl⟩, halted⟩

end Segments

/-- Going on makes the fewest steps to a halt or a breakpoint, at least one, and reports and
prints the breakpoint, or nothing at a halt; it has no end only where there is no such
stop. In a run that halts, going on until nothing is reported leaves the machine that the run
leaves, and what is reported are the breakpoints that the run meets, in their order. -/
theorem goOn_stops_at_first {size : Nat} {source input : Text} {requests : List Request}
    {reached : Console} (hsize : 0 < size)
    (h : (fresh size source input).converse requests = some reached) (breakpoints : List Int) :
    let c := { reached with breakpoints }
    (∀ next hit, c.goOn = some (next, hit) ↔
      ∃ k, c.NextStop k ∧ next = { c with machine := c.machine.after k } ∧
        hit = if next.machine.core.halted then none else some next.machine.core.pc) ∧
    (c.goOn = none ↔ ∀ k, 0 < k → stopsAt breakpoints (c.machine.core.after k) = false) ∧
    (∀ (next : Console) (hit : Option Nat), c.goOn = some (next, hit) →
      c.perform .goOn = some (.ofPrint next (hit.elim "" breakpointLine)) ∧
      (∀ pc, hit = some pc → (pc : Int) ∈ breakpoints ∧ pc < c.machine.core.program.length)) ∧
    (c.machine.core.halted = true → c.NextStop 1 ∧ c.goOn = some (c, none)) ∧
    ((∃ n, (c.machine.core.after n).halted = true) →
      ∃ (last : Machine) (count : Nat) (hits : List Nat),
        c.machine.run = some (last, count) ∧ last.core.halted = true ∧
        goOnTimes (hits.length + 1) c =
          some ({ c with machine := last }, hits.map some ++ [none]) ∧
        hits = c.breakpointsMet count) := by
  intro c
  have descends := (Descends.refl (fresh size source input)).converse hsize h
  have valid : c.machine.core.Valid size := Descends.valid_core (c := reached) hsize descends
  have idle : c.machine.runState = .idle := Descends.idle (c := reached) descends
  refine ⟨?_, goOn_eq_none_iff valid, ?_, ?_, ?_⟩
  · intro next hit
    rw [goOn_eq_some_iff valid]
    apply exists_congr
    intro k
    apply and_congr_right
    intro _
    apply and_congr_right
    rintro rfl
    rw [Machine.core_after, hit?]
  · intro next hit went
    refine ⟨?_, ?_⟩
    · rw [perform, went]
      cases hit <;> rfl
    · rintro pc rfl
      obtain ⟨k, stop, _, place⟩ := (goOn_eq_some_iff valid).1 went
      have inside := mem_of_hit? stop.stops place.symm
      rwa [Core.program_after] at inside
  · intro halted
    exact ⟨nextStop_of_halted halted, goOn_of_halted valid idle halted⟩
  · rintro ⟨n, halted⟩
    obtain ⟨n, _, halts⟩ := Core.exists_stopsAfter (p := Core.halted) halted
    obtain ⟨last, hits, went, ended⟩ := exists_goOnTimes valid halts
    obtain ⟨k, rfl, met⟩ := exists_run_of_goOnTimes valid went
    rw [Machine.core_after] at ended
    have long : n ≤ k := (Core.HaltsAfter.halted_iff halts k).1 ended
    have same : c.machine.after k =
        { c.machine with core := c.machine.core.after n, runState := .idle } := by
      rw [Machine.after_eq_of_idle idle, Core.after_of_halted_le halts.1 long, ← idle]
    refine ⟨_, n, hits, Machine.run_of_haltsAfter valid halts, halts.1, ?_, ?_⟩
    · rw [went, same]
    · rw [← breakpointsMet_of_halted_le halts.1 long, ← met]
      simp [List.reduceOption]

theorem goOn_stops_at_first_in_loop :
    let new := fresh 1 (Text.ofString "++[-.]") []
    let c := { new with machine := new.machine.after 1, breakpoints := [-1, 3, 6] }
    0 < 1 ∧ new.converse [.line []] = some { new with machine := new.machine.after 1 } ∧
    (∃ n, (c.machine.core.after n).halted = true) ∧
    ∃ last count, c.machine.run = some (last, count) ∧ count = 8 ∧
      goOnTimes 3 c = some ({ c with machine := last }, [some 3, some 3, none]) := by
  intro new c
  have conversed : new.converse [.line []] = some { new with machine := new.machine.after 1 } := rfl
  have halts : ∃ n, (c.machine.core.after n).halted = true := ⟨8, by decide⟩
  have counted : c.machine.run.map Prod.snd = some 8 := by decide
  have met : c.breakpointsMet 8 = [3, 3] := by decide
  obtain ⟨_, _, _, _, halting⟩ := goOn_stops_at_first Nat.one_pos conversed [-1, 3, 6]
  obtain ⟨last, count, hits, ran, _, went, same⟩ := halting halts
  rw [ran, Option.map_some, Option.some.injEq] at counted
  simp only at counted
  subst counted
  rw [same, met] at went
  exact ⟨by decide, conversed, halts, last, _, ran, rfl, went⟩

end TapeMachine.Console
