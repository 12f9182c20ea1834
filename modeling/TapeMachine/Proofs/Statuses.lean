import TapeMachine.Proofs.Exchanges
import TapeMachine.Proofs.Reachable

/-!
The status of the answer to a posted request. It depends on the path, then on the
header with the length and on the bytes read, then on the fields of the object in
these; on the machine only where a field is not given. Every such request has an answer
as long as its body can be read and holds no values that lie too deep.
-/

namespace TapeMachine

theorem ofJson?_of_delayOf {value : Json} {delay : Number} (h : delayOf value = .ok delay) :
    Number.ofJson? value = some delay := by
  unfold delayOf at h
  cases hnumber : Number.ofJson? value with
  | none =>
      rw [hnumber] at h
      cases h
  | some number =>
      rw [hnumber] at h
      cases number with
      | int n =>
          simp only at h
          split at h
          · cases h
          · split at h <;> cases h
            rfl
      | real x =>
          simp only at h
          split at h <;> cases h
          rfl
      | truth b =>
          cases h
          rfl

theorem delayOf_of_isDelay {value : Json} {delay : Number}
    (hnumber : Number.ofJson? value = some delay) (h : delay.IsDelay) :
    delayOf value = .ok delay := by
  rw [delayOf, hnumber]
  cases delay with
  | int n =>
      obtain ⟨hsign, hfits⟩ := h
      simp [hfits, Int.not_lt.2 hsign]
  | real x =>
      obtain ⟨hfinite, hsign⟩ := h
      simp [hfinite, hsign]
  | truth b => rfl

theorem exists_delayOf_iff (value : Json) :
    (∃ delay, delayOf value = .ok delay) ↔
      ∃ number, Number.ofJson? value = some number ∧ number.IsDelay := by
  constructor
  · rintro ⟨delay, h⟩
    exact ⟨delay, ofJson?_of_delayOf h, isDelay_of_delayOf h⟩
  · rintro ⟨number, hnumber, h⟩
    exact ⟨number, delayOf_of_isDelay hnumber h⟩

theorem exists_stepsOf_iff (value : Json) :
    (∃ steps, stepsOf value = .ok steps) ↔ ∃ n, Number.whole value = .ok n ∧ 1 ≤ n := by
  unfold stepsOf
  cases hwhole : Number.whole value with
  | error refusal => simp
  | ok n =>
      simp only [Except.ok.injEq, exists_eq_left']
      split
      · next h => simp [Int.not_le.2 h]
      · next h => simpa using Int.not_lt.1 h

/-- Every slider position gives a delay and steps that will do. -/
theorem sliderSpeed_bounds (position : Int) :
    (sliderSpeed position).1 ≤ 800 ∧ 1 ≤ (sliderSpeed position).2 := by
  simp only [sliderSpeed]
  split
  · exact ⟨by simp only; omega, Nat.le_refl 1⟩
  · refine ⟨Nat.zero_le _, ?_⟩
    apply Nat.div_pos
    · exact Nat.pow_le_pow_left (by omega) _
    · exact Nat.pow_pos (by omega)

theorem isDelay_sliderSpeed (position : Int) :
    (Number.int (sliderSpeed position).1).IsDelay := by
  have hbound := (sliderSpeed_bounds position).1
  have hlimit : 800 < (1 <<< 1024) - (1 <<< 970) := by decide
  refine ⟨Int.natCast_nonneg _, ?_⟩
  simp only [Binary64.overflows, Int.natAbs_natCast, decide_eq_false_iff_not, Nat.not_le]
  exact Nat.lt_of_le_of_lt hbound hlimit

namespace Service

def Route.path : Route → String
  | .load => "/load"
  | .step => "/step"
  | .reset => "/reset"
  | .speed => "/speed"

theorem Route.ofPath?_path (route : Route) :
    ofPath? (Text.ofString route.path) = some route := by
  cases route <;> rfl

theorem Route.eq_path_of_ofPath? {path : Text} {route : Route} (h : ofPath? path = some route) :
    path = Text.ofString route.path := by
  obtain ⟨⟨name, route'⟩, hfind, hroute⟩ := Option.map_eq_some_iff.1 h
  have hname := List.find?_some hfind
  have hmem := List.mem_of_find?_eq_some hfind
  cases hroute
  simp only [List.mem_cons, Prod.mk.injEq, List.not_mem_nil, or_false] at hmem
  rcases hmem with ⟨rfl, rfl⟩ | ⟨rfl, rfl⟩ | ⟨rfl, rfl⟩ | ⟨rfl, rfl⟩ <;>
    exact (of_decide_eq_true hname).symm

/-- The text of the header with the length, if there is one. -/
def Request.lengthText? (r : Request) : Option Text :=
  r.contentLength.map headerValue

/-- The bytes that are read where the header says `n`. -/
def Request.bytesRead (r : Request) (n : Int) : List UInt8 :=
  if n < 0 then r.bytesAfterHeaders else r.bytesAfterHeaders.take n.toNat

/-- Whether the header asks for `n` bytes. An absent or empty one asks for none. -/
def Request.Asks (r : Request) (n : Int) : Prop :=
  (r.lengthText? = none ∨ r.lengthText? = some []) ∧ n = 0 ∨
    ∃ t, r.lengthText? = some t ∧ t ≠ [] ∧ Literal.integer t = .ok n

/-- Whether the header is there, is not empty and is no integer, or asks for bytes that
spell no object. -/
def Request.Unreadable (r : Request) : Prop :=
  (∃ t, r.lengthText? = some t ∧ t ≠ [] ∧ ∀ n, Literal.integer t ≠ .ok n) ∨
    ∃ n, r.Asks n ∧ n ≠ 0 ∧ ∀ sent, Json.ofBytes (r.bytesRead n) ≠ .ok (.object sent)

/-- Whether the bytes asked for spell an object of these fields. None at all stand for
an empty one. -/
def Request.Sends (r : Request) (sent : Fields) : Prop :=
  (r.Asks 0 ∧ sent = []) ∨
    ∃ n, r.Asks n ∧ n ≠ 0 ∧ Json.ofBytes (r.bytesRead n) = .ok (.object sent)

/-- Whether fields are refused on a route. Where one of them is not given, its value is
the machine's own. -/
def Route.Refuses (m : Machine) (fields : Fields) : Route → Prop
  | .load =>
    ∃ name ∈ ["source", "input"], ∃ value, Json.field? name fields = some value ∧
      ∀ t, value ≠ .text t
  | .step =>
    ∀ n, (Json.field? "count" fields).getD (.nat m.stepsPerTick) = .int n → n < 1
  | .reset => False
  | .speed =>
    match Json.field? "value" fields with
    | some value => ∀ n, Number.whole value ≠ .ok n
    | none =>
      (∀ number,
        Number.ofJson? ((Json.field? "delay" fields).getD m.delay.toJson) = some number →
          ¬number.IsDelay) ∨
      ∀ n,
        Number.whole ((Json.field? "steps_per_tick" fields).getD (.nat m.stepsPerTick)) = .ok n →
          n < 1

/-- Whether a request to a known path is refused: for its body or for the fields in it. -/
def Request.Refused (m : Machine) (r : Request) : Prop :=
  ∃ route : Route, r.resource = Text.ofString route.path ∧
    (r.Unreadable ∨ ∃ sent, r.Sends sent ∧ route.Refuses m sent)

theorem readLoad_iff (m : Machine) (fields : Fields) :
    (∃ order, readLoad fields = .ok order) ↔ ¬Route.load.Refuses m fields := by
  unfold readLoad
  split
  · next source input hsource hinput =>
      refine iff_of_true ⟨_, rfl⟩ ?_
      rintro ⟨name, hname, value, hvalue, hnot⟩
      simp only [List.mem_cons, List.not_mem_nil, or_false] at hname
      rcases hname with rfl | rfl
      · rw [hvalue] at hsource
        exact hnot source hsource
      · rw [hvalue] at hinput
        exact hnot input hinput
  · next hnot =>
      refine iff_of_false (by simp) ?_
      intro hfine
      have text (name : String) (hname : name ∈ ["source", "input"]) :
          ∃ t, (Json.field? name fields).getD (.text []) = .text t := by
        cases hvalue : Json.field? name fields with
        | none => exact ⟨[], rfl⟩
        | some value =>
            by_contra hno
            exact hfine ⟨name, hname, value, hvalue, fun t ht => hno ⟨t, ht⟩⟩
      obtain ⟨source, hsource⟩ := text "source" (by simp)
      obtain ⟨input, hinput⟩ := text "input" (by simp)
      exact hnot source input hsource hinput

theorem readStep_iff (m : Machine) (fields : Fields) :
    (∃ order, readStep m fields = .ok order) ↔ ¬Route.step.Refuses m fields := by
  unfold readStep Route.Refuses
  split
  · next n hcount =>
      rw [hcount]
      split
      · next h => simpa using h
      · next h => simpa using h
  · next hnot =>
      refine iff_of_false (by simp) ?_
      intro hfine
      exact hfine fun n hn => absurd hn (hnot n)

/-- The two settings are taken if both will do. -/
theorem readSpeed_iff {m : Machine} {fields : Fields} {delay steps : Json}
    (h : speedValues m fields = .ok (delay, steps)) :
    (∃ order, readSpeed m fields = .ok order) ↔
      (∃ number, Number.ofJson? delay = some number ∧ number.IsDelay) ∧
        ∃ n, Number.whole steps = .ok n ∧ 1 ≤ n := by
  rw [← exists_delayOf_iff, ← exists_stepsOf_iff, readSpeed, h]
  cases hdelay : delayOf delay with
  | error refusal => simp [hdelay]
  | ok number =>
      cases hsteps : stepsOf steps with
      | error refusal => simp [hdelay, hsteps, Except.map]
      | ok n => simp [hdelay, hsteps, Except.map]

theorem readSpeed_iff_not_refuses (m : Machine) (fields : Fields) :
    (∃ order, readSpeed m fields = .ok order) ↔ ¬Route.speed.Refuses m fields := by
  rw [Route.Refuses]
  cases hvalue : Json.field? "value" fields with
  | some value =>
      cases hwhole : Number.whole value with
      | error refusal =>
          have hvalues : speedValues m fields = .error refusal := by
            simp [speedValues, hvalue, sliderOf, hwhole, Except.map]
          simp [readSpeed, hvalues, hwhole]
      | ok position =>
          have hvalues : speedValues m fields =
              .ok (.nat (sliderSpeed position).1, .nat (sliderSpeed position).2) := by
            simp [speedValues, hvalue, sliderOf, hwhole, Except.map]
          rw [readSpeed_iff hvalues]
          apply iff_of_true
          · refine ⟨⟨_, rfl, isDelay_sliderSpeed position⟩, _, rfl, ?_⟩
            exact_mod_cast (sliderSpeed_bounds position).2
          · intro h
            exact h position hwhole
  | none =>
      have hvalues : speedValues m fields =
          .ok ((Json.field? "delay" fields).getD m.delay.toJson,
            (Json.field? "steps_per_tick" fields).getD (.nat m.stepsPerTick)) := by
        simp [speedValues, hvalue]
      rw [readSpeed_iff hvalues]
      push Not
      rfl

/-- What is not refused gives an order. -/
theorem Route.exists_order_iff (m : Machine) (fields : Fields) (route : Route) :
    (∃ order, route.read m fields = .ok order) ↔ ¬route.Refuses m fields := by
  cases route with
  | load => exact readLoad_iff m fields
  | step => exact readStep_iff m fields
  | reset => exact iff_of_true ⟨_, rfl⟩ id
  | speed =>
      rw [← readSpeed_iff_not_refuses, Route.read]
      cases readSpeed m fields <;> simp

theorem Route.status_of_read {m : Machine} {fields : Fields} {route : Route} {o : Objection}
    (h : route.read m fields = .error o) : o.status = 400 := by
  cases route with
  | load =>
      simp only [Route.read, readLoad] at h
      split at h <;> cases h
      rfl
  | step =>
      simp only [Route.read, readStep] at h
      split at h
      · split at h <;> cases h
        rfl
      · cases h
        rfl
  | reset => cases h
  | speed =>
      simp only [Route.read] at h
      split at h <;> cases h
      rfl

section Body

variable {r : Request}

theorem Request.bodyLength_of_asks {n : Int} (h : r.Asks n) : r.bodyLength = .ok n := by
  unfold bodyLength
  rcases h with ⟨h | h, rfl⟩ | ⟨t, ht, hne, hn⟩
  · rw [← lengthText?, h]
  · rw [← lengthText?, h]
  · rw [← lengthText?, ht]
    split
    · next h => cases h
    · next h => exact absurd (Option.some.inj h) hne
    · next t' _ h =>
        cases h
        rw [hn]

theorem Request.bodyLength_of_no_integer {t : Text} (ht : r.lengthText? = some t) (hne : t ≠ [])
    (hnot : ∀ n, Literal.integer t ≠ .ok n) : r.bodyLength = .error .contentLength := by
  unfold bodyLength
  rw [← lengthText?, ht]
  split
  · next h => cases h
  · next h => exact absurd (Option.some.inj h) hne
  · next t' _ h =>
      cases h
      cases hn : Literal.integer t with
      | ok n => exact absurd hn (hnot n)
      | error fault => rfl

theorem Request.sends_or_unreadable (r : Request) : (∃ sent, r.Sends sent) ∨ r.Unreadable := by
  by_cases hasks : ∃ n, r.Asks n
  · obtain ⟨n, hn⟩ := hasks
    by_cases hzero : n = 0
    · subst hzero
      exact Or.inl ⟨[], Or.inl ⟨hn, rfl⟩⟩
    · by_cases hobject : ∃ sent, Json.ofBytes (r.bytesRead n) = .ok (.object sent)
      · obtain ⟨sent, hsent⟩ := hobject
        exact Or.inl ⟨sent, Or.inr ⟨n, hn, hzero, hsent⟩⟩
      · exact Or.inr (Or.inr ⟨n, hn, hzero, not_exists.1 hobject⟩)
  · right
    left
    cases ht : r.lengthText? with
    | none => exact absurd ⟨0, Or.inl ⟨Or.inl ht, rfl⟩⟩ hasks
    | some t =>
        refine ⟨t, rfl, ?_, ?_⟩
        · rintro rfl
          exact hasks ⟨0, Or.inl ⟨Or.inr ht, rfl⟩⟩
        · intro n hn
          apply hasks
          by_cases hempty : t = []
          · exact ⟨0, Or.inl ⟨Or.inr (hempty ▸ ht), rfl⟩⟩
          · exact ⟨n, Or.inr ⟨t, ht, hempty, hn⟩⟩

/-- What is done with the bytes asked for, where there are any. -/
theorem Request.fields_of_asks {n : Int} (h : r.Asks n) (hzero : n ≠ 0)
    (counted : isByteCount n = true) :
    r.fields = match Json.ofBytes (r.bytesRead n) with
      | .error .malformed => .error (.objection .notJson)
      | .error .deepList => .error (.breakdown .deepList)
      | .error .deepObject => .error (.breakdown .deepObject)
      | .ok (.object sent) => .ok sent
      | .ok _ => .error (.objection .notObject) := by
  simp only [fields, bodyLength_of_asks h, if_neg hzero, counted, if_true]
  rfl

variable (counted : ∀ n, r.Asks n → isByteCount n = true)

include counted

theorem Request.fields_of_sends {sent : Fields} (h : r.Sends sent) : r.fields = .ok sent := by
  rcases h with ⟨hnone, rfl⟩ | ⟨n, hn, hzero, hjson⟩
  · simp [fields, bodyLength_of_asks hnone]
  · rw [fields_of_asks hn hzero (counted n hn), hjson]

theorem Request.fields_of_unreadable
    (shallow : ∀ n fault, r.Asks n → Json.ofBytes (r.bytesRead n) = .error fault →
      fault = .malformed) (h : r.Unreadable) :
    ∃ o, r.fields = .error (.objection o) ∧ o.status = 400 := by
  rcases h with ⟨t, ht, hne, hnot⟩ | ⟨n, hn, hzero, hnot⟩
  · refine ⟨.contentLength, ?_, rfl⟩
    simp [fields, bodyLength_of_no_integer ht hne hnot]
  · rw [fields_of_asks hn hzero (counted n hn)]
    cases hjson : Json.ofBytes (r.bytesRead n) with
    | error fault =>
        obtain rfl := shallow n fault hn hjson
        exact ⟨.notJson, rfl, rfl⟩
    | ok value =>
        cases value with
        | object sent => exact absurd hjson (hnot sent)
        | _ => exact ⟨.notObject, rfl, rfl⟩

end Body

section Orders

variable {m : Machine} {r : Request}

theorem Request.order_of_unknown (h : ∀ route : Route, r.resource ≠ Text.ofString route.path) :
    r.order m = .error (.objection (.unknownPath r.resource)) := by
  cases hpath : Route.ofPath? r.resource with
  | none => simp [order, hpath]
  | some route => exact absurd (Route.eq_path_of_ofPath? hpath) (h route)

theorem Request.order_of_known {route : Route} (h : r.resource = Text.ofString route.path) :
    r.order m = match r.fields with
      | .error obstacle => .error obstacle
      | .ok sent => (route.read m sent).mapError .objection := by
  cases hfields : r.fields <;> simp only [order, h, Route.ofPath?_path, hfields]

variable (counted : ∀ n, r.Asks n → isByteCount n = true)
  (shallow : ∀ n fault, r.Asks n → Json.ofBytes (r.bytesRead n) = .error fault →
    fault = .malformed)

include counted shallow

theorem Request.order_of_refused (h : r.Refused m) :
    ∃ o, r.order m = .error (.objection o) ∧ o.status = 400 := by
  obtain ⟨route, hroute, hunreadable | ⟨sent, hsent, hrefuses⟩⟩ := h
  · obtain ⟨o, hfields, hstatus⟩ := fields_of_unreadable counted shallow hunreadable
    refine ⟨o, ?_, hstatus⟩
    rw [order_of_known hroute, hfields]
  · cases hread : route.read m sent with
    | error o =>
        refine ⟨o, ?_, Route.status_of_read hread⟩
        rw [order_of_known hroute, fields_of_sends counted hsent]
        simp only [hread, Except.mapError]
    | ok order => exact absurd hrefuses ((route.exists_order_iff m sent).1 ⟨order, hread⟩)

omit shallow in
theorem Request.order_of_not_refused {route : Route} (h : r.resource = Text.ofString route.path)
    (hnot : ¬r.Refused m) : ∃ order, r.order m = .ok order := by
  rcases r.sends_or_unreadable with ⟨sent, hsent⟩ | hunreadable
  · have htaken : ¬route.Refuses m sent :=
      fun hrefuses => hnot ⟨route, h, Or.inr ⟨sent, hsent, hrefuses⟩⟩
    obtain ⟨order, hread⟩ := (route.exists_order_iff m sent).2 htaken
    refine ⟨order, ?_⟩
    rw [order_of_known h, fields_of_sends counted hsent]
    simp only [hread, Except.mapError]
  · exact absurd ⟨route, h, Or.inl hunreadable⟩ hnot

end Orders

end Service

namespace Session

open TapeMachine.Service

section Answers

variable {s : Session} {r : Request} (post : r.method = .post)

include post

theorem answer_of_objection {o : Objection} (h : r.order s.machine = .error (.objection o)) :
    (s.respond r).2.1 = .ok o.response := by
  rw [respond, post]
  simp [respondToPost, h, Obstacle.response]

theorem answer_of_order {order : Order} (h : r.order s.machine = .ok order) :
    (s.respond r).2.1 = .ok ⟨200, (s.obey order).2⟩ := by
  rw [respond, post]
  simp [respondToPost, h]

end Answers

/-- Every posted request is answered, as long as its body can be read and what it holds
does not lie too deep. The status is 404 for an unknown path and 400 for what a path
refuses, and 200 otherwise. -/
theorem respond_status_of_post (s : Session) (r : Request) (post : r.method = .post)
    (counted : ∀ n, r.Asks n → isByteCount n = true)
    (shallow : ∀ n fault, r.Asks n → Json.ofBytes (r.bytesRead n) = .error fault →
      fault = .malformed) :
    ∃ response, (s.respond r).2.1 = .ok response ∧
      (response.status = 200 ∨ response.status = 400 ∨ response.status = 404) ∧
      (response.status = 404 ↔ ∀ route : Route, r.resource ≠ Text.ofString route.path) ∧
      (response.status = 400 ↔ r.Refused s.machine) := by
  by_cases hknown : ∃ route : Route, r.resource = Text.ofString route.path
  · obtain ⟨route, hroute⟩ := hknown
    have hnot : ¬∀ route : Route, r.resource ≠ Text.ofString route.path :=
      fun hunknown => hunknown route hroute
    by_cases hrefused : r.Refused s.machine
    · obtain ⟨o, horder, hstatus⟩ := Request.order_of_refused counted shallow hrefused
      refine ⟨o.response, answer_of_objection post horder, ?_⟩
      have hresponse : o.response.status = 400 := hstatus
      simp [hresponse, hnot, hrefused]
    · obtain ⟨order, horder⟩ := Request.order_of_not_refused counted hroute hrefused
      refine ⟨_, answer_of_order post horder, ?_⟩
      simp [hnot, hrefused]
  · have hunknown := not_exists.1 hknown
    have hnot : ¬r.Refused s.machine := by
      rintro ⟨route, hroute, _⟩
      exact hunknown route hroute
    refine ⟨_, answer_of_objection post (Request.order_of_unknown hunknown), ?_⟩
    simp [Objection.response, Objection.status, hunknown, hnot]

/-- True is no number of steps. -/
theorem respond_status_of_post_true_count :
    let s := install (.blank 2) (.ofSource (Text.ofString "+")) #[]
    let r : Request :=
      { method := .post
        target := Text.ofString "/step"
        contentLength := some (Text.ofString "15")
        body := (Text.ofString "\x7b\"count\": true\x7d").map CodePoint.lowByte }
    r.method = .post ∧ r.Asks 15 ∧ (∀ n, r.Asks n → isByteCount n = true) ∧
      (∀ n fault, r.Asks n → Json.ofBytes (r.bytesRead n) = .error fault → fault = .malformed) ∧
      ∃ response, (s.respond r).2.1 = .ok response ∧ response.status = 400 ∧
        r.Refused s.machine := by
  intro s r
  have asks : r.Asks 15 :=
    Or.inr ⟨Text.ofString "15", rfl, List.cons_ne_nil _ _, rfl⟩
  have asked (n : Int) (h : r.Asks n) : n = 15 := by
    have hsame := (Request.bodyLength_of_asks h).symm.trans (Request.bodyLength_of_asks asks)
    exact Except.ok.inj hsame
  have counted (n : Int) (h : r.Asks n) : isByteCount n = true := by
    rw [asked n h]
    decide
  have shallow (n : Int) (fault : Json.ReadFault) (h : r.Asks n)
      (hfault : Json.ofBytes (r.bytesRead n) = .error fault) : fault = .malformed := by
    have heval : (Json.ofBytes (r.bytesRead 15)).toOption.isSome = true := by decide +kernel
    rw [asked n h] at hfault
    rw [hfault] at heval
    cases heval
  have status : (s.respond r).2.1.toOption.map Response.status = some 400 := by decide +kernel
  obtain ⟨response, hanswer, _, _, hrefused⟩ := respond_status_of_post s r rfl counted shallow
  rw [hanswer] at status
  have h400 : response.status = 400 := Option.some.inj status
  exact ⟨rfl, asks, counted, shallow, response, hanswer, h400, hrefused.1 h400⟩

end Session

end TapeMachine
