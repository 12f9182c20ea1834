import Mathlib
import TapeMachine.Service.Session

/-!
A session and the requests that it answers, one after another. A request either
leaves the session as it was or is a posted one that is accepted, obeyed and
answered with status 200. What is only read or refused can therefore be left out of
any list of requests.
-/

namespace TapeMachine

namespace Service

/-- A request with its answer. -/
structure Exchange where
  request : Request
  answer : Except Breakdown Response

namespace Exchange

/-- The route, the fields and the answer of a posted request that is answered with
status 200. -/
def accepted? (e : Exchange) : Option (Route × Fields × Json) :=
  match e.request.method, e.answer, Route.ofPath? e.request.resource, e.request.fields with
  | .post, .ok ⟨200, body⟩, some route, .ok fields => some (route, fields, body)
  | _, _, _, _ => none

def isRead (e : Exchange) : Bool :=
  match e.request.method with
  | .get => true
  | .post => false

def isRefused (e : Exchange) : Bool :=
  match e.answer with
  | .ok response => response.status = 400 || response.status = 404
  | .error _ => false

/-- Whether the request was posted and not refused. -/
def isWork (e : Exchange) : Bool :=
  !e.isRead && !e.isRefused

theorem isWork_of_accepted {e : Exchange} {accepted : Route × Fields × Json}
    (h : e.accepted? = some accepted) : e.isWork = true := by
  unfold accepted? at h
  split at h
  · next method answer _ _ => simp [isWork, isRead, isRefused, method, answer]
  · cases h

theorem isWork_of_get {e : Exchange} (h : e.request.method = .get) : e.isWork = false := by
  simp [isWork, isRead, h]

theorem isWork_of_refused {e : Exchange} {response : Response} (answer : e.answer = .ok response)
    (h : response.status = 400 ∨ response.status = 404) : e.isWork = false := by
  have refused : e.isRefused = true := by simpa [isRefused, answer] using h
  simp [isWork, refused]

theorem accepted?_of_get {e : Exchange} (h : e.request.method = .get) : e.accepted? = none := by
  simp [accepted?, h]

theorem accepted?_of_status_ne {e : Exchange}
    (h : ∀ response, e.answer = .ok response → response.status ≠ 200) : e.accepted? = none := by
  unfold accepted?
  split
  · next answer _ _ => exact absurd rfl (h _ answer)
  · rfl

end Exchange

/-- A request with an order has a route and fields to read it from. -/
theorem Request.route_of_order {m : Machine} {r : Request} {order : Order}
    (h : r.order m = .ok order) :
    ∃ route fields, Route.ofPath? r.resource = some route ∧ r.fields = .ok fields ∧
      route.read m fields = .ok order := by
  simp only [Request.order] at h
  cases hroute : Route.ofPath? r.resource with
  | none =>
      rw [hroute] at h
      cases h
  | some route =>
      rw [hroute] at h
      cases hfields : r.fields with
      | error obstacle =>
          rw [hfields] at h
          cases h
      | ok fields =>
          rw [hfields] at h
          cases hread : route.read m fields with
          | error objection =>
              simp only [hread] at h
              cases h
          | ok order' =>
              simp only [hread] at h
              cases h
              exact ⟨route, fields, rfl, rfl, hread⟩

theorem Obstacle.status_ne {o : Obstacle} {response : Response} (h : o.response = .ok response) :
    response.status ≠ 200 := by
  cases o with
  | objection o =>
      cases h
      cases o <;> simp [Objection.response, Objection.status]
  | breakdown b => cases h

end Service

namespace Session

open TapeMachine.Service

def next (s : Session) (r : Request) : Session :=
  (s.respond r).1

def exchange (s : Session) (r : Request) : Exchange :=
  { request := r, answer := (s.respond r).2.1 }

/-- The session after requests, and what was exchanged. -/
def serve : List Request → Session → Session × List Exchange
  | [], s => (s, [])
  | r :: rest, s =>
    let served := serve rest (s.next r)
    (served.1, s.exchange r :: served.2)

/-- What a request can come to. -/
theorem exchange_cases (s : Session) (r : Request) :
    ((s.exchange r).accepted? = none ∧ s.next r = s) ∨
      ∃ route fields order, route.read s.machine fields = .ok order ∧
        (s.exchange r).accepted? = some (route, fields, (s.obey order).2) ∧
        s.next r = (s.obey order).1 := by
  cases hmethod : r.method with
  | get =>
      have answered : s.respond r = (s, s.respondToGet r, []) := by
        rw [respond, hmethod]
      exact Or.inl ⟨Exchange.accepted?_of_get hmethod, by rw [next, answered]⟩
  | post =>
      have posted : s.respond r = s.respondToPost r := by
        rw [respond, hmethod]
      cases horder : r.order s.machine with
      | error obstacle =>
          have answered : s.respond r = (s, obstacle.response, []) := by
            rw [posted, respondToPost, horder]
          refine Or.inl ⟨Exchange.accepted?_of_status_ne ?_, by rw [next, answered]⟩
          intro response h
          rw [exchange, answered] at h
          exact Obstacle.status_ne h
      | ok order =>
          have answered : s.respond r =
              ((s.obey order).1, .ok ⟨200, (s.obey order).2⟩,
                notices s (s.obey order).1 order) := by
            rw [posted, respondToPost, horder]
          obtain ⟨route, fields, hroute, hfields, hread⟩ := Request.route_of_order horder
          refine Or.inr ⟨route, fields, order, hread, ?_, by rw [next, answered]⟩
          simp [Exchange.accepted?, exchange, answered, hmethod, hroute, hfields]

theorem exists_order_of_accepted {s : Session} {r : Request} {route : Route} {fields : Fields}
    {body : Json} (h : (s.exchange r).accepted? = some (route, fields, body)) :
    ∃ order, route.read s.machine fields = .ok order ∧ s.next r = (s.obey order).1 ∧
      body = (s.obey order).2 := by
  rcases s.exchange_cases r with ⟨ignored, _⟩ | ⟨route', fields', order, hread, accepted, next⟩
  · rw [ignored] at h
    cases h
  · rw [accepted] at h
    cases h
    exact ⟨order, hread, next, rfl⟩

/-- Only work changes a session. -/
theorem next_of_not_isWork {s : Session} {r : Request} (h : (s.exchange r).isWork = false) :
    s.next r = s := by
  rcases s.exchange_cases r with ⟨_, same⟩ | ⟨route, fields, order, _, accepted, _⟩
  · exact same
  · rw [Exchange.isWork_of_accepted accepted] at h
    cases h

/-- A request that is read or refused leaves the whole session as it was. Without
all such requests, the others are answered alike and lead to the same session. -/
theorem serve_work_only (s : Session) (requests : List Request) :
    (∀ r, (r.method = .get ∨ ∃ response, (s.respond r).2.1 = .ok response ∧
      (response.status = 400 ∨ response.status = 404)) → (s.respond r).1 = s) ∧
    serve (((serve requests s).2.filter Exchange.isWork).map Exchange.request) s =
      ((serve requests s).1, (serve requests s).2.filter Exchange.isWork) := by
  constructor
  · rintro r (read | ⟨response, answer, refused⟩)
    · exact next_of_not_isWork (Exchange.isWork_of_get read)
    · exact next_of_not_isWork (Exchange.isWork_of_refused answer refused)
  · induction requests generalizing s with
    | nil => rfl
    | cons r rest ih =>
        rw [serve, List.filter_cons]
        cases work : (s.exchange r).isWork with
        | true =>
            have same : (s.exchange r).request = r := rfl
            simp only [if_true, List.map_cons, same, serve, ih (s.next r)]
        | false =>
            simp only [Bool.false_eq_true, if_false, next_of_not_isWork work]
            exact ih s

/-- A delay that would do is not taken over when the steps that come with it would
not. -/
theorem serve_work_only_half_refused :
    let s := install (.blank 2) (.ofSource (Text.ofString "+")) #[]
    let speed : Request :=
      { method := .post
        target := Text.ofString "/speed"
        contentLength := some (Text.ofString "-1")
        body :=
          (Text.ofString "\x7b\"delay\": 1, \"steps_per_tick\": 0\x7d").map CodePoint.lowByte }
    (∃ response, (s.respond speed).2.1 = .ok response ∧
      (response.status = 400 ∨ response.status = 404)) ∧ (s.respond speed).1 = s := by
  intro s speed
  have status : (s.respond speed).2.1.toOption.map Response.status = some 400 := by
    decide +kernel
  have refused : ∃ response, (s.respond speed).2.1 = .ok response ∧
      (response.status = 400 ∨ response.status = 404) := by
    cases answer : (s.respond speed).2.1 with
    | error b =>
        rw [answer] at status
        cases status
    | ok response =>
        rw [answer] at status
        exact ⟨response, rfl, Or.inl (Option.some.inj status)⟩
  exact ⟨refused, (serve_work_only s []).1 speed (Or.inr refused)⟩

end Session

end TapeMachine
