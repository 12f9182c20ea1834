import TapeMachine.Proofs.Advancing
import TapeMachine.Proofs.Exchanges

/-!
What a client can book from its own requests and their answers: the program and
input that it last got loaded, and the steps that were reported since they were put
at their start. The machine of the session is always a fresh one with that program
and input, that many steps on.
-/

namespace TapeMachine

namespace Service

/-- The text in a field; an absent one is empty. -/
def textField (name : String) (fields : Fields) : Text :=
  match (Json.field? name fields).getD (.text []) with
  | .text t => t
  | _ => []

/-- The steps that an answer reports. -/
def stepsReported : Json → Nat
  | .object fields =>
    match Json.field? "steps_executed" fields with
    | some (.int n) => n.toNat
    | _ => 0
  | _ => 0

theorem eq_load_of_readLoad {fields : Fields} {order : Order} (h : readLoad fields = .ok order) :
    order = .load (textField "source" fields) (textField "input" fields) := by
  unfold readLoad at h
  split at h
  · next source input hsource hinput =>
      cases h
      rw [textField, textField, hsource, hinput]
  · cases h

/-- The number of steps to make is given, or that of a tick. -/
theorem eq_step_of_readStep {m : Machine} {fields : Fields} {order : Order}
    (h : readStep m fields = .ok order) :
    ∃ count : Nat, 1 ≤ count ∧
      (Json.field? "count" fields).getD (.nat m.stepsPerTick) = .nat count ∧
      order = .step count := by
  unfold readStep at h
  split at h
  · next n given =>
      split at h
      · cases h
      · next positive =>
          cases h
          refine ⟨n.toNat, by omega, ?_, ?_⟩
          · rw [given, Json.nat, Int.toNat_of_nonneg (by omega)]
          · rw [Int.toNat_of_nonneg (by omega)]
  · cases h

theorem eq_speed_of_readSpeed {m : Machine} {fields : Fields} {order : Order}
    (h : readSpeed m fields = .ok order) : ∃ delay steps, order = .speed delay steps := by
  unfold readSpeed at h
  split at h
  · cases h
  · next delay steps _ =>
      split at h
      · cases h
      · next delay _ =>
          cases hsteps : stepsOf steps with
          | error refusal =>
              rw [hsteps] at h
              cases h
          | ok steps =>
              rw [hsteps] at h
              cases h
              exact ⟨delay, steps, rfl⟩

/-- The answer to an accepted order for steps. -/
def stepAnswer (executed : Nat) (finished : Bool) : Json :=
  .record [("steps_executed", .nat executed), ("finished", .bool finished)]

theorem stepsReported_stepAnswer (executed : Nat) (finished : Bool) :
    stepsReported (stepAnswer executed finished) = executed := by
  have other : (Text.ofString "steps_executed" == Text.ofString "finished") = false := by decide
  simp [stepsReported, stepAnswer, Json.record, Json.field?, Json.nat, List.lookup, other]

/-- What a client knows of the machine: what it was loaded with, and the steps made
since. -/
structure Account where
  source : Text
  input : Text
  steps : Nat

/-- Books an exchange. Only what was accepted counts. -/
def Account.book (a : Account) (e : Exchange) : Account :=
  match e.accepted? with
  | some (.load, fields, _) =>
    { source := textField "source" fields, input := textField "input" fields, steps := 0 }
  | some (.step, _, body) => { a with steps := a.steps + stepsReported body }
  | some (.reset, _, _) => { a with steps := 0 }
  | some (.speed, _, _) => a
  | none => a

/-- Books a reset that was asked for as one that came about. -/
def Account.bookAsked (a : Account) (e : Exchange) : Account :=
  match e.request.method, Route.ofPath? e.request.resource with
  | .post, some .reset => { a with steps := 0 }
  | _, _ => a.book e

/-- The freshly loaded machine that an account tells of, on a tape of the given
size. -/
def Account.fresh (size : Nat) (a : Account) : Machine :=
  (Machine.blank size).load a.source a.input

theorem Account.core_fresh (size : Nat) (a : Account) :
    (a.fresh size).core = Core.load size a.source a.input := by
  rw [fresh, Machine.core_load, Machine.tapeSize_blank]

end Service

namespace Session

open TapeMachine.Service

theorem obey_step {count : Nat} (hcount : 0 < count) (s : Session) :
    (s.obey (.step count)).1 = { s with machine := s.machine.after count } ∧
      (s.obey (.step count)).2 = stepAnswer (s.machine.core.executed count)
        (s.machine.core.after count).halted := by
  simp only [obey, stepAnswer, Machine.batch_fst_of_pos hcount, Machine.core_after,
    Core.executed, and_self]

/-- Whether a session is where an account says it is. -/
structure Follows (size : Nat) (s : Session) (a : Account) : Prop where
  program : s.program = .ofSource a.source
  input : s.input = Core.inputBytes a.input
  core : s.machine.core = (a.fresh size).core.after a.steps
  stepCount : s.machine.core.stepCount = a.steps

section

variable {size : Nat} {s : Session} {a : Account}

theorem Follows.tapeSize (h : s.Follows size a) : s.machine.tapeSize = size := by
  rw [Machine.tapeSize, h.core, Core.size_tape_after, Account.core_fresh]
  exact Array.size_replicate

theorem Follows.steps (h : s.Follows size a) (n : Nat) :
    { s with machine := s.machine.after n }.Follows size
      { a with steps := a.steps + s.machine.core.executed n } where
  program := h.program
  input := h.input
  core := by
    rw [Machine.core_after, ← Core.after_executed, Core.after_add]
    exact congrArg (Core.after _) h.core
  stepCount := by
    rw [Machine.core_after, Core.stepCount_after, h.stepCount]

/-- A session at the start of a program follows an account without steps. -/
theorem follows_install {m : Machine} (hsize : m.tapeSize = size) (source input : Text) :
    (install m (.ofSource source) (Core.inputBytes input)).Follows size ⟨source, input, 0⟩ where
  program := rfl
  input := rfl
  core := by
    rw [Account.core_fresh, install, Machine.core_install, hsize]
    rfl
  stepCount := by
    rw [install, Machine.core_install]
    rfl

theorem Follows.reset (h : s.Follows size a) : s.reset.Follows size { a with steps := 0 } := by
  have hsize : (s.machine.reset false).tapeSize = size := by
    rw [Machine.tapeSize, Machine.core_reset]
    exact Array.size_replicate.trans h.tapeSize
  rw [Session.reset, h.program, h.input]
  exact follows_install hsize a.source a.input

/-- An exchange leads a session where it leads the account. -/
theorem Follows.next (h : s.Follows size a) (r : Request) :
    (s.next r).Follows size (a.book (s.exchange r)) := by
  rcases s.exchange_cases r with ⟨ignored, same⟩ | ⟨route, fields, order, hread, accepted, next⟩
  · rw [Account.book, ignored, same]
    exact h
  · rw [Account.book, accepted, next]
    cases route with
    | load =>
        rw [eq_load_of_readLoad hread]
        exact follows_install h.tapeSize _ _
    | step =>
        obtain ⟨count, positive, _, rfl⟩ := eq_step_of_readStep hread
        obtain ⟨made, answer⟩ := obey_step positive s
        simp only [made, answer, stepsReported_stepAnswer]
        exact h.steps count
    | reset =>
        cases hread
        exact h.reset
    | speed =>
        rw [Route.read] at hread
        split at hread
        · next order' hspeed =>
            cases hread
            obtain ⟨delay, steps, rfl⟩ := eq_speed_of_readSpeed hspeed
            exact ⟨h.program, h.input, h.core, h.stepCount⟩
        · cases hread

theorem Follows.serve (h : s.Follows size a) (requests : List Request) :
    (serve requests s).1.Follows size ((serve requests s).2.foldl Account.book a) := by
  induction requests generalizing s a with
  | nil => exact h
  | cons r rest ih => exact ih (h.next r)

end

/-- A session opens where an account without steps says. -/
theorem follows_open? {source input : Text} {tapeSize : Json} {memory : Memory} {s : Session}
    (h : open? (.text source) (.text input) tapeSize memory = .ok s) :
    s.Follows s.machine.tapeSize ⟨source, input, 0⟩ := by
  rw [open?, Machine.make] at h
  cases hsize : sizeOf memory tapeSize with
  | error refusal =>
      rw [hsize] at h
      cases h
  | ok size =>
      rw [hsize] at h
      cases h
      have opened := follows_install (Machine.tapeSize_blank size) source input
      rw [opened.tapeSize]
      exact opened

/-- What an accepted order for steps comes to. -/
theorem exists_count_of_accepted {s : Session} {r : Request} {fields : Fields} {body : Json}
    (h : (s.exchange r).accepted? = some (.step, fields, body)) :
    ∃ count : Nat, 1 ≤ count ∧
      (Json.field? "count" fields).getD (.nat s.machine.stepsPerTick) = .nat count ∧
      s.next r = { s with machine := s.machine.after count } ∧
      body = stepAnswer (s.machine.core.executed count) (s.machine.core.after count).halted := by
  obtain ⟨order, hread, next, rfl⟩ := exists_order_of_accepted h
  obtain ⟨count, positive, given, rfl⟩ := eq_step_of_readStep hread
  obtain ⟨made, answer⟩ := obey_step positive s
  exact ⟨count, positive, given, next.trans made, answer⟩

theorem next_of_accepted_reset {s : Session} {r : Request} {fields : Fields} {body : Json}
    (h : (s.exchange r).accepted? = some (.reset, fields, body)) : s.next r = s.reset := by
  obtain ⟨order, hread, next, rfl⟩ := exists_order_of_accepted h
  cases hread
  exact next

/-- The machine of an opened session is always a fresh one with what was last
loaded, as many steps on as were reported since it was put at its start. Accepted
steps are as many as asked for, or as are left before the halt, and a reset goes
back to the start with the settings kept. -/
theorem serve_follows_account {source input : Text} {tapeSize : Json} {memory : Memory}
    {opened : Session}
    (hopen : open? (.text source) (.text input) tapeSize memory = .ok opened)
    (requests : List Request) :
    let s := (serve requests opened).1
    let account := (serve requests opened).2.foldl Account.book ⟨source, input, 0⟩
    let fresh := account.fresh opened.machine.tapeSize
    s.machine.core = (fresh.after account.steps).core ∧
    s.machine.core.stepCount = account.steps ∧
    (∀ r fields body, (s.exchange r).accepted? = some (.step, fields, body) →
      ∃ count executed : Nat, 1 ≤ count ∧
        (Json.field? "count" fields).getD (.nat s.machine.stepsPerTick) = .nat count ∧
        (∀ left, s.machine.core.HaltsAfter left → executed = min count left) ∧
        ((∀ n, (s.machine.core.after n).halted = false) → executed = count) ∧
        (s.next r).machine.core = s.machine.core.after executed ∧
        (s.next r).machine.core.stepCount = account.steps + executed ∧
        body = stepAnswer executed (s.next r).machine.core.halted ∧
        (executed < count → (s.next r).machine.core.halted = true)) ∧
    ∀ r fields body, (s.exchange r).accepted? = some (.reset, fields, body) →
      (s.next r).machine.core = fresh.core ∧ (s.next r).machine.core.stepCount = 0 ∧
        (s.next r).machine.delay = s.machine.delay ∧
        (s.next r).machine.stepsPerTick = s.machine.stepsPerTick := by
  intro s account fresh
  have follows : s.Follows opened.machine.tapeSize account :=
    (follows_open? hopen).serve requests
  refine ⟨by rw [Machine.core_after]; exact follows.core, follows.stepCount, ?_, ?_⟩
  · intro r fields body accepted
    obtain ⟨count, positive, given, next, rfl⟩ := exists_count_of_accepted accepted
    have made : (s.next r).machine.core = s.machine.core.after count := by
      rw [next, Machine.core_after]
    refine ⟨count, s.machine.core.executed count, positive, given, ?_, ?_, ?_, ?_, ?_, ?_⟩
    · intro left halts
      exact halts.executed count
    · intro running
      exact Core.executed_of_running fun k _ => running k
    · rw [made, Core.after_executed]
    · rw [made, Core.stepCount_after, follows.stepCount]
    · rw [made]
    · intro short
      rw [made]
      exact Core.halted_of_executed_lt short
  · intro r fields body accepted
    have next := next_of_accepted_reset accepted
    have restarted := follows.reset
    rw [← next] at restarted
    refine ⟨restarted.core, restarted.stepCount, ?_, ?_⟩
    · rw [next, reset, install, Machine.delay_install, Machine.delay_reset]
    · rw [next, reset, install, Machine.stepsPerTick_install, Machine.stepsPerTick_reset]

theorem serve_follows_account_past_halt :
    let opened := install (.blank 2) (.ofSource (Text.ofString "+[-]")) (Core.inputBytes [])
    let step : Request :=
      { method := .post, target := Text.ofString "/step", contentLength := none, body := [] }
    let more : Request :=
      { method := .post
        target := Text.ofString "/step"
        contentLength := some (Text.ofString "12")
        body := (Text.ofString "\x7b\"count\": 9\x7d").map CodePoint.lowByte }
    let s := (serve [step] opened).1
    let account := (serve [step] opened).2.foldl Account.book ⟨Text.ofString "+[-]", [], 0⟩
    open? (.text (Text.ofString "+[-]")) (.text []) (.nat 2) = .ok opened ∧
      s.machine.core =
        ((account.fresh opened.machine.tapeSize).after account.steps).core ∧
      ∃ fields body, (s.exchange more).accepted? = some (.step, fields, body) ∧
        ∃ executed, (s.next more).machine.core.stepCount = account.steps + executed ∧
          body = stepAnswer executed (s.next more).machine.core.halted := by
  intro opened step more
  have hopen : open? (.text (Text.ofString "+[-]")) (.text []) (.nat 2) = .ok opened := rfl
  have routed : ((serve [step] opened).1.exchange more).accepted?.map
      (fun accepted => accepted.1.ctorIdx) = some Route.step.ctorIdx := by
    decide +kernel
  have follows := serve_follows_account hopen [step]
  -- What was served is not to be computed again.
  generalize serve [step] opened = served at routed follows ⊢
  obtain ⟨core, _, steps, _⟩ := follows
  obtain ⟨⟨route, fields, body⟩, accepted, isStep⟩ := Option.map_eq_some_iff.1 routed
  cases route with
  | step =>
      obtain ⟨_, executed, _, _, _, _, _, stepCount, answer, _⟩ := steps more fields body accepted
      exact ⟨hopen, core, fields, body, accepted, executed, stepCount, answer⟩
  | load => cases isStep
  | reset => cases isStep
  | speed => cases isStep

/-- A reset whose body is not an object is refused, and the step before it still
counts. -/
theorem refused_reset_keeps_steps :
    let opened := install (.blank 2) (.ofSource (Text.ofString "+")) (Core.inputBytes [])
    let step : Request :=
      { method := .post, target := Text.ofString "/step", contentLength := none, body := [] }
    let reset : Request :=
      { method := .post
        target := Text.ofString "/reset"
        contentLength := some (Text.ofString "2")
        body := (Text.ofString "[]").map CodePoint.lowByte }
    let served := serve [step, reset] opened
    let account := served.2.foldl Account.bookAsked ⟨Text.ofString "+", [], 0⟩
    open? (.text (Text.ofString "+")) (.text []) (.nat 2) = .ok opened ∧
      served.2.map (fun e => e.answer.toOption.map Response.status) = [some 200, some 400] ∧
      account.steps = 0 ∧ served.1.machine.core.stepCount = 1 ∧
      served.1.machine.core ≠
        ((account.fresh opened.machine.tapeSize).after account.steps).core := by
  intro opened step reset served account
  have hopen : open? (.text (Text.ofString "+")) (.text []) (.nat 2) = .ok opened := rfl
  have answers :
      served.2.map (fun e => e.answer.toOption.map Response.status) = [some 200, some 400] := by
    decide +kernel
  have asked : account.steps = 0 := by decide +kernel
  have made : served.1.machine.core.stepCount = 1 := by decide +kernel
  refine ⟨hopen, answers, asked, made, ?_⟩
  clear_value account served
  intro same
  rw [same, asked, Machine.after_zero, Account.core_fresh] at made
  exact Nat.zero_ne_one made

end Session

end TapeMachine
