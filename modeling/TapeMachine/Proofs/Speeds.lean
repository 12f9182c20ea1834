import TapeMachine.Proofs.Account
import TapeMachine.Proofs.Magnitudes
import TapeMachine.Proofs.Statuses

/-!
The delay and the steps per tick of a session. However they were given, what is kept of them
passes the checks that it came through, and is short enough to be told and read again. Told
by a session and posted back to it, they are taken and change nothing; and a request that set
them can be made again with nothing new to come of it.
-/

namespace TapeMachine

/-- Whether a value is a number that can be written and read again: a truth value, a finite
number in floating point, or an integer of no more digits than are read. -/
def Json.IsPortable : Json → Prop
  | .bool _ => True
  | .int n => n.natAbs < 10 ^ Literal.digitLimit
  | .real x => x.isFinite = true
  | _ => False

theorem Number.ofJson?_eq_some_iff {value : Json} {number : Number} :
    ofJson? value = some number ↔ value = number.toJson := by
  constructor
  · intro h
    cases value <;> cases h <;> rfl
  · rintro rfl
    cases number <;> rfl

theorem Number.IsDelay.isPortable {delay : Number} (h : delay.IsDelay) :
    delay.toJson.IsPortable := by
  cases delay with
  | int n =>
      have hfits := h.2
      rw [Binary64.overflows, decide_eq_false_iff_not, Nat.not_le] at hfits
      calc
        n.natAbs < (1 <<< 1024) - (1 <<< 970) := hfits
        _ ≤ 1 <<< 1024 := Nat.sub_le ..
        _ < 10 ^ Literal.digitLimit := Binary64.one_shiftLeft_lt (by decide)
  | real x => exact h.1
  | truth b => trivial

theorem delayOf_toJson {delay : Number} (h : delay.IsDelay) : delayOf delay.toJson = .ok delay :=
  delayOf_of_isDelay (Number.ofJson?_eq_some_iff.2 rfl) h

theorem stepsOf_nat {steps : Nat} (h : 1 ≤ steps) : stepsOf (.nat steps) = .ok steps := by
  have positive : ¬(steps : Int) < 1 := by omega
  simp [stepsOf, Json.nat, Number.whole, positive]

theorem stepsOf_lt {value : Json} {steps : Nat} (hfits : value.Fits)
    (h : stepsOf value = .ok steps) : steps < 10 ^ Literal.digitLimit := by
  unfold stepsOf at h
  cases hwhole : Number.whole value with
  | error refusal =>
      rw [hwhole] at h
      cases h
  | ok n =>
      rw [hwhole] at h
      simp only at h
      split at h <;> cases h
      have bound := Number.natAbs_whole_lt hfits hwhole
      omega

/-- The slider does not reach as far as a power of ten with as many places as it has notches. -/
theorem sliderSpeed_lt (position : Int) :
    (sliderSpeed position).2 < 10 ^ Literal.digitLimit := by
  have hone : 1 < 10 ^ Literal.digitLimit := Nat.one_lt_pow (by decide) (by decide)
  simp only [sliderSpeed]
  split
  · exact hone
  · generalize hnotch : (max 0 (min 100 position)).toNat - 80 = notch
    have hbound : notch < Literal.digitLimit := by
      simp only [Literal.digitLimit]
      omega
    calc
      Nat.pow 9 notch / Nat.pow 5 notch ≤ 9 ^ notch := Nat.div_le_self ..
      _ ≤ 10 ^ notch := Nat.pow_le_pow_left (by decide) notch
      _ < 10 ^ Literal.digitLimit := Nat.pow_lt_pow_right (by decide) hbound

/-- Whether the settings of a machine would pass the checks on them again, and the steps are
short enough to be told. -/
structure Machine.SettingsFit (m : Machine) : Prop where
  delay : m.delay.IsDelay
  positive : 1 ≤ m.stepsPerTick
  short : m.stepsPerTick < 10 ^ Literal.digitLimit

theorem Machine.settingsFit_blank (size : Nat) : (blank size).SettingsFit where
  delay := ⟨by decide, by decide⟩
  positive := Nat.le_refl 1
  short := Nat.one_lt_pow (by decide) (by decide)

/-- Settings that stay fit as they were. -/
theorem Machine.SettingsFit.of_eq {m m' : Machine} (h : m.SettingsFit) (hdelay : m'.delay = m.delay)
    (hsteps : m'.stepsPerTick = m.stepsPerTick) : m'.SettingsFit where
  delay := hdelay ▸ h.delay
  positive := hsteps ▸ h.positive
  short := hsteps ▸ h.short

theorem Machine.SettingsFit.install {m : Machine} (h : m.SettingsFit) (program : Program)
    (input : Array UInt8) : (m.install program input).SettingsFit :=
  h.of_eq (delay_install ..) (stepsPerTick_install ..)

theorem Machine.SettingsFit.after {m : Machine} (h : m.SettingsFit) {n : Nat} (hn : 0 < n) :
    (m.after n).SettingsFit := by
  rw [after_of_pos hn, settle]
  split
  · exact h.of_eq rfl rfl
  · exact h.of_eq rfl rfl

namespace Service

section Speed

variable {m : Machine} {fields : Fields} {delay : Number} {steps : Nat}

/-- An order for a speed comes of two values that pass the checks on them. -/
theorem readSpeed_eq_ok_iff {order : Order} :
    readSpeed m fields = .ok order ↔
      ∃ delayValue stepsValue delay steps, speedValues m fields = .ok (delayValue, stepsValue) ∧
        delayOf delayValue = .ok delay ∧ stepsOf stepsValue = .ok steps ∧
        order = .speed delay steps := by
  unfold readSpeed
  cases hvalues : speedValues m fields with
  | error refusal => simp
  | ok values =>
      obtain ⟨delayValue, stepsValue⟩ := values
      cases hdelay : delayOf delayValue with
      | error refusal => simp [hdelay]
      | ok delay =>
          cases hsteps : stepsOf stepsValue with
          | error refusal => simp [hdelay, hsteps, Except.map]
          | ok steps => simp [hdelay, hsteps, Except.map, eq_comm]

theorem exists_speed_of_read {order : Order} (h : Route.speed.read m fields = .ok order) :
    ∃ delay steps, order = .speed delay steps ∧
      readSpeed m fields = .ok (.speed delay steps) := by
  simp only [Route.read] at h
  split at h <;> cases h
  next hspeed =>
    obtain ⟨delay, steps, rfl⟩ := eq_speed_of_readSpeed hspeed
    exact ⟨delay, steps, rfl, hspeed⟩

/-- Read again on a machine that has taken it, an order is the same. -/
theorem readSpeed_again (h : readSpeed m fields = .ok (.speed delay steps)) :
    readSpeed { m with delay, stepsPerTick := steps } fields = .ok (.speed delay steps) := by
  obtain ⟨delayValue, stepsValue, delay', steps', hvalues, hdelay, hsteps, same⟩ :=
    readSpeed_eq_ok_iff.1 h
  cases same
  apply readSpeed_eq_ok_iff.2
  unfold speedValues at hvalues ⊢
  split at hvalues
  · exact ⟨_, _, _, _, hvalues, hdelay, hsteps, rfl⟩
  · cases hvalues
    refine ⟨_, _, _, _, rfl, ?_, ?_, rfl⟩
    · cases hgiven : Json.field? "delay" fields with
      | none => exact delayOf_toJson (isDelay_of_delayOf hdelay)
      | some value =>
          rw [hgiven] at hdelay
          exact hdelay
    · cases hgiven : Json.field? "steps_per_tick" fields with
      | none => exact stepsOf_nat (one_le_of_stepsOf hsteps)
      | some value =>
          rw [hgiven] at hsteps
          exact hsteps

/-- The value that the steps are read from is small, wherever it comes from. -/
theorem fits_of_speedValues {delayValue stepsValue : Json} (h : m.SettingsFit)
    (hfields : ∀ field ∈ fields, field.2.Fits)
    (hvalues : speedValues m fields = .ok (delayValue, stepsValue)) : stepsValue.Fits := by
  unfold speedValues at hvalues
  split at hvalues
  · next value hvalue =>
    unfold sliderOf at hvalues
    cases hwhole : Number.whole value with
    | error refusal =>
        rw [hwhole] at hvalues
        cases hvalues
    | ok position =>
        rw [hwhole] at hvalues
        cases hvalues
        exact sliderSpeed_lt position
  · cases hvalues
    cases hgiven : Json.field? "steps_per_tick" fields with
    | none => exact h.short
    | some value => exact Json.fits_of_field? hfields hgiven

theorem settingsFit_speed (h : m.SettingsFit)
    (hfields : ∀ field ∈ fields, field.2.Fits)
    (hread : readSpeed m fields = .ok (.speed delay steps)) :
    { m with delay, stepsPerTick := steps }.SettingsFit := by
  obtain ⟨delayValue, stepsValue, delay', steps', hvalues, hdelay, hsteps, same⟩ :=
    readSpeed_eq_ok_iff.1 hread
  cases same
  exact ⟨isDelay_of_delayOf hdelay, one_le_of_stepsOf hsteps,
    stepsOf_lt (fits_of_speedValues h hfields hvalues) hsteps⟩

end Speed

theorem Request.fits_of_fields {r : Request} {fields : Fields} (h : r.fields = .ok fields) :
    ∀ field ∈ fields, field.2.Fits := by
  unfold Request.fields at h
  split at h
  · cases h
  · split at h
    · cases h
      exact List.forall_mem_nil _
    · split at h
      · simp only at h
        split at h <;> cases h
        next hread => exact Json.fits_of_ofBytes hread
      · cases h

/-- The fields of a request are those of the object that its bytes spell. -/
theorem Request.fields_eq_ok_iff {r : Request} {n : Int} {fields : Fields} (asks : r.Asks n)
    (nonzero : n ≠ 0) (counted : isByteCount n = true) :
    r.fields = .ok fields ↔ Json.ofBytes (r.bytesRead n) = .ok (.object fields) := by
  rw [fields_of_asks asks nonzero counted]
  split <;> simp_all

theorem Exchange.eq_of_accepted {e : Exchange} {route : Route} {fields : Fields} {body : Json}
    (h : e.accepted? = some (route, fields, body)) :
    e.request.method = .post ∧ Route.ofPath? e.request.resource = some route ∧
      e.request.fields = .ok fields := by
  unfold accepted? at h
  split at h
  · next hmethod _ hroute hfields =>
    cases h
    exact ⟨hmethod, hroute, hfields⟩
  · cases h

theorem Request.order_of_readSpeed {m : Machine} {r : Request} {fields : Fields} {order : Order}
    (hroute : Route.ofPath? r.resource = some .speed) (hfields : r.fields = .ok fields)
    (hread : readSpeed m fields = .ok order) : r.order m = .ok order := by
  rw [order_of_known (Route.eq_path_of_ofPath? hroute), hfields]
  simp only [Route.read, hread]
  rfl

end Service

namespace Session

open TapeMachine.Service

/-- The state tells the settings as they are. -/
theorem exists_speed_in_state (m : Machine) (withProgram : Bool) (radius : Int) :
    ∃ reported, state m withProgram radius = .object reported ∧
      Json.field? "delay" reported = some m.delay.toJson ∧
      Json.field? "steps_per_tick" reported = some (.nat m.stepsPerTick) := by
  cases withProgram
  · exact ⟨_, rfl, rfl, rfl⟩
  · exact ⟨_, rfl, rfl, rfl⟩

/-- A session with other settings. -/
def atSpeed (s : Session) (delay : Number) (steps : Nat) : Session :=
  { s with machine := { s.machine with delay, stepsPerTick := steps } }

section Settings

variable {s : Session}

theorem settingsFit_open? {source input tapeSize : Json} {memory : Memory}
    (h : open? source input tapeSize memory = .ok s) : s.machine.SettingsFit := by
  unfold open? Machine.make at h
  cases hsize : sizeOf memory tapeSize with
  | error refusal =>
      rw [hsize] at h
      cases h
  | ok size =>
      rw [hsize] at h
      cases hprogram : programOf source with
      | error refusal =>
          simp only [hprogram] at h
          cases h
      | ok program =>
          simp only [hprogram] at h
          cases hinput : inputOf input with
          | error refusal =>
              simp only [hinput] at h
              cases h
          | ok bytes =>
              simp only [hinput] at h
              cases h
              exact (Machine.settingsFit_blank size).install program bytes

/-- No request leaves settings that would not do. -/
theorem settingsFit_next (h : s.machine.SettingsFit) (r : Request) :
    (s.next r).machine.SettingsFit := by
  rcases s.exchange_cases r with ⟨_, same⟩ | ⟨route, fields, order, hread, accepted, next⟩
  · rw [same]
    exact h
  · rw [next]
    cases route with
    | load =>
        rw [eq_load_of_readLoad hread]
        exact h.install _ _
    | step =>
        obtain ⟨count, positive, _, rfl⟩ := eq_step_of_readStep hread
        rw [(obey_step positive s).1]
        exact h.after positive
    | reset =>
        cases hread
        exact (h.of_eq (Machine.delay_reset ..) (Machine.stepsPerTick_reset ..)).install _ _
    | speed =>
        obtain ⟨delay, steps, rfl, hspeed⟩ := exists_speed_of_read hread
        have hfields : r.fields = .ok fields := (Exchange.eq_of_accepted accepted).2.2
        exact settingsFit_speed h (Request.fits_of_fields hfields) hspeed

theorem settingsFit_serve (h : s.machine.SettingsFit) (requests : List Request) :
    (serve requests s).1.machine.SettingsFit := by
  induction requests generalizing s with
  | nil => exact h
  | cons r rest ih => exact ih (settingsFit_next h r)

theorem respond_of_speed {r : Request} {delay : Number} {steps : Nat} (post : r.method = .post)
    (horder : r.order s.machine = .ok (.speed delay steps)) :
    s.respond r =
      (s.atSpeed delay steps,
        .ok ⟨200, .record [("delay", delay.toJson), ("steps_per_tick", .nat steps)]⟩, []) := by
  rw [respond, post]
  simp only [respondToPost, horder]
  rfl

/-- Settings as they are change nothing. -/
theorem respond_of_settings_sent (h : s.machine.SettingsFit) {r : Request} {sent : Fields}
    (post : r.method = .post) (hpath : r.resource = Text.ofString "/speed")
    (hfields : r.fields = .ok sent) (hvalue : Json.field? "value" sent = none)
    (hdelay : Json.field? "delay" sent = some s.machine.delay.toJson)
    (hsteps : Json.field? "steps_per_tick" sent = some (.nat s.machine.stepsPerTick)) :
    s.respond r =
      (s, .ok ⟨200, .record [("delay", s.machine.delay.toJson),
        ("steps_per_tick", .nat s.machine.stepsPerTick)]⟩, []) := by
  have hread : readSpeed s.machine sent = .ok (.speed s.machine.delay s.machine.stepsPerTick) := by
    refine readSpeed_eq_ok_iff.2
      ⟨_, _, _, _, ?_, delayOf_toJson h.delay, stepsOf_nat h.positive, rfl⟩
    simp [speedValues, hvalue, hdelay, hsteps]
  have hroute : Route.ofPath? r.resource = some .speed := hpath ▸ Route.ofPath?_path .speed
  exact respond_of_speed post (Request.order_of_readSpeed hroute hfields hread)

/-- What a successful look at a session shows of its settings. -/
theorem speed_of_answer {r : Request} {reported : Fields} (get : r.method = .get)
    (h : (s.exchange r).answer = .ok ⟨200, .object reported⟩) :
    Json.field? "delay" reported = some s.machine.delay.toJson ∧
      Json.field? "steps_per_tick" reported = some (.nat s.machine.stepsPerTick) := by
  rw [exchange, respond, get] at h
  simp only [respondToGet] at h
  split at h
  · cases h
  · split at h
    · obtain ⟨reported', shown, told⟩ := exists_speed_in_state s.machine _ defaultRadius
      rw [shown] at h
      cases h
      exact told
    · cases h

theorem exists_answer_of_get {r : Request} (get : r.method = .get)
    (hpath : r.resource = Text.ofString "/state") :
    ∃ reported, (s.exchange r).answer = .ok ⟨200, .object reported⟩ := by
  have target : Target.parse (Text.ofString "/state") =
      .ok { path := Text.ofString "/state", query := [] } := rfl
  obtain ⟨reported, shown, _⟩ := exists_speed_in_state s.machine
    ((queryKeys []).contains (Text.ofString "init")) defaultRadius
  refine ⟨reported, ?_⟩
  rw [exchange, respond, get]
  simp only [respondToGet, hpath, target, if_true, shown]

/-- A speed that was taken is taken again. -/
theorem respond_again {r : Request} {fields : Fields} {answer : Json}
    (h : (s.exchange r).accepted? = some (.speed, fields, answer)) :
    (s.next r).respond r = s.respond r := by
  have known : r.method = .post ∧ Route.ofPath? r.resource = some .speed ∧ r.fields = .ok fields :=
    Exchange.eq_of_accepted h
  obtain ⟨post, hroute, hfields⟩ := known
  obtain ⟨order, hread, _, _⟩ := exists_order_of_accepted h
  obtain ⟨delay, steps, rfl, hspeed⟩ := exists_speed_of_read hread
  have first := respond_of_speed post (Request.order_of_readSpeed hroute hfields hspeed)
  have arrived : s.next r = s.atSpeed delay steps := congrArg Prod.fst first
  have horder : r.order (s.atSpeed delay steps).machine = .ok (.speed delay steps) :=
    Request.order_of_readSpeed hroute hfields (readSpeed_again hspeed)
  rw [arrived, first]
  exact respond_of_speed post horder

end Settings

/-- After any requests, a look at the state of a session shows a delay and steps per tick that
are numbers which can be written and read again; where they are, posting them to the session is
accepted and leaves all of it as it was. And whatever has set a speed can be posted once more:
it is accepted with the same answer, and the session stays as the first time left it. -/
theorem speed_posted_again {source input tapeSize : Json} {memory : Memory} {opened : Session}
    (hopen : open? source input tapeSize memory = .ok opened) (requests : List Request) :
    let s := (serve requests opened).1
    (∀ get, get.method = .get → get.resource = Text.ofString "/state" →
      ∃ reported, (s.exchange get).answer = .ok ⟨200, .object reported⟩) ∧
    (∀ get reported, get.method = .get →
      (s.exchange get).answer = .ok ⟨200, .object reported⟩ →
      ∃ delay steps, Json.field? "delay" reported = some delay ∧
        Json.field? "steps_per_tick" reported = some steps ∧
        delay.IsPortable ∧ steps.IsPortable ∧
        ∀ post n sent, post.method = .post → post.resource = Text.ofString "/speed" →
          post.Asks n → n ≠ 0 → isByteCount n = true →
          (delay.IsPortable → steps.IsPortable →
            Json.ofBytes (post.bytesRead n) = .ok (.object sent)) →
          Json.field? "value" sent = none → Json.field? "delay" sent = some delay →
          Json.field? "steps_per_tick" sent = some steps →
          s.respond post =
            (s, .ok ⟨200, .record [("delay", delay), ("steps_per_tick", steps)]⟩, [])) ∧
    ∀ post fields answer, (s.exchange post).accepted? = some (.speed, fields, answer) →
      ((s.next post).exchange post).accepted? = some (.speed, fields, answer) ∧
        (s.next post).respond post = s.respond post ∧ (s.next post).next post = s.next post := by
  intro s
  have fit : s.machine.SettingsFit := settingsFit_serve (settingsFit_open? hopen) requests
  refine ⟨fun get hget hpath => exists_answer_of_get hget hpath, ?_, ?_⟩
  · intro get reported hget answered
    obtain ⟨hdelay, hsteps⟩ := speed_of_answer hget answered
    have short : (Json.nat s.machine.stepsPerTick).IsPortable := fit.short
    refine ⟨_, _, hdelay, hsteps, fit.delay.isPortable, short, ?_⟩
    intro post n sent hpost hpath asks nonzero counted spelled hvalue hdelay hsteps
    have hfields : post.fields = .ok sent :=
      (Request.fields_eq_ok_iff asks nonzero counted).2 (spelled fit.delay.isPortable short)
    exact respond_of_settings_sent fit hpost hpath hfields hvalue hdelay hsteps
  · intro post fields answer accepted
    have again := respond_again accepted
    refine ⟨?_, again, ?_⟩
    · rw [exchange, again]
      exact accepted
    · rw [next, again]
      rfl

/-- A truth value for a delay and steps between blanks are kept and told, and a slider set twice
stays where it was. -/
theorem speed_posted_again_after_words :
    let opened := install (.blank 1) (.ofSource []) (Core.inputBytes [])
    let posted (body : String) : Request :=
      { method := .post
        target := Text.ofString "/speed"
        contentLength := some (Text.ofString "-1")
        body := (Text.ofString body).map CodePoint.lowByte }
    let set := posted "\x7b\"delay\": true, \"steps_per_tick\": \" 12 \"\x7d"
    let told := posted "\x7b\"delay\": true, \"steps_per_tick\": 12\x7d"
    let slid := posted "\x7b\"value\": \"90\"\x7d"
    let s := (serve [set] opened).1
    open? (.text []) (.text []) (.nat 1) = .ok opened ∧
      s.respond told =
        (s, .ok ⟨200, .record [("delay", .bool true), ("steps_per_tick", .nat 12)]⟩, []) ∧
      ∃ fields answer, (s.exchange slid).accepted? = some (.speed, fields, answer) ∧
        (s.next slid).respond slid = s.respond slid := by
  intro opened posted set told slid
  let get : Request :=
    { method := .get, target := Text.ofString "/state", contentLength := none, body := [] }
  have hopen : open? (.text []) (.text []) (.nat 1) = .ok opened := rfl
  have delay : (serve [set] opened).1.machine.delay = .truth true := by decide +kernel
  have steps : (serve [set] opened).1.machine.stepsPerTick = 12 := by decide +kernel
  have routed : ((serve [set] opened).1.exchange slid).accepted?.map
      (fun accepted => accepted.1.ctorIdx) = some Route.speed.ctorIdx := by
    decide +kernel
  have spelled : (told.fields.toOption.any fun sent =>
      (Json.field? "value" sent).isNone &&
        (Json.field? "delay" sent).bind Number.ofJson? = some (.truth true) &&
        (Json.field? "steps_per_tick" sent).bind Number.ofJson? = some (.int 12)) = true := by
    decide +kernel
  have asks : told.Asks (-1) := Or.inr ⟨Text.ofString "-1", rfl, List.cons_ne_nil _ _, rfl⟩
  have again := speed_posted_again hopen [set]
  -- What was served and what was read are not to be computed again.
  generalize serve [set] opened = served at delay steps routed again ⊢
  obtain ⟨answers, told_back, repeated⟩ := again
  refine ⟨hopen, ?_, ?_⟩
  · obtain ⟨reported, answered⟩ := answers get rfl rfl
    obtain ⟨hdelay, hsteps⟩ := speed_of_answer rfl answered
    obtain ⟨_, _, hdelay', hsteps', _, _, back⟩ := told_back get reported rfl answered
    rw [hdelay', delay] at hdelay
    rw [hsteps', steps] at hsteps
    cases hdelay
    cases hsteps
    generalize hread : told.fields = read at spelled
    cases read with
    | error obstacle => cases spelled
    | ok sent =>
        simp only [Except.toOption, Option.any_some, Bool.and_eq_true, Option.isNone_iff_eq_none,
          decide_eq_true_eq, Option.bind_eq_some_iff, Number.ofJson?_eq_some_iff,
          exists_eq_right] at spelled
        obtain ⟨⟨hvalue, hdelay⟩, hsteps⟩ := spelled
        have hobject := (Request.fields_eq_ok_iff asks (by decide) (by decide)).1 hread
        exact back told (-1) sent rfl rfl asks (by decide) (by decide) (fun _ _ => hobject) hvalue
          hdelay hsteps
  · obtain ⟨⟨route, fields, answer⟩, accepted, isSpeed⟩ := Option.map_eq_some_iff.1 routed
    cases route with
    | speed => exact ⟨fields, answer, accepted, (repeated slid fields answer accepted).2.1⟩
    | load => cases isSpeed
    | step => cases isSpeed
    | reset => cases isSpeed

end Session

end TapeMachine
