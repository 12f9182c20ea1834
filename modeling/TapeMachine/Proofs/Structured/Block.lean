import TapeMachine.Proofs.Pairing

/-!
Programs arranged by what their brackets pair. A sequence of commands is read
from its end: a closing waits with what follows it until its opening comes, and
what never comes leaves a bracket without a partner. Written out, the arrangement
gives the commands back, no unpaired bracket stands inside a pair and no unpaired
closing behind an unpaired opening, and the partners of the commands are those
that the arrangement shows.
-/

namespace TapeMachine

/-- The commands that are no brackets. -/
inductive Effect
  | right
  | left
  | increment
  | decrement
  | write
  | read

def Effect.command : Effect → Command
  | right => .right
  | left => .left
  | increment => .increment
  | decrement => .decrement
  | write => .write
  | read => .read

theorem Effect.bracket?_command (e : Effect) : e.command.bracket? = none := by
  cases e <;> rfl

/-- A sequence of commands, with the body of every pair of brackets in its
place. -/
inductive Block
  | done
  | act (effect : Effect) (next : Block)
  | loop (body next : Block)
  | strayOpening (next : Block)
  | strayClosing (next : Block)

namespace Block

/-- The commands, written out. -/
def flatten : Block → List Command
  | done => []
  | act effect next => effect.command :: next.flatten
  | loop body next => .loopStart :: (body.flatten ++ .loopEnd :: next.flatten)
  | strayOpening next => .loopStart :: next.flatten
  | strayClosing next => .loopEnd :: next.flatten

def append : Block → Block → Block
  | done, b => b
  | act effect next, b => act effect (next.append b)
  | loop body next, b => loop body (next.append b)
  | strayOpening next, b => strayOpening (next.append b)
  | strayClosing next, b => strayClosing (next.append b)

/-- What was read of a sequence from its end: the block up to the nearest closing
that waits for its opening, and the blocks that follow such closings. -/
structure Reading where
  current : Block
  later : List Block

namespace Reading

def act (r : Reading) (effect : Effect) : Reading :=
  { r with current := .act effect r.current }

/-- Takes an opening, which pairs with the nearest closing. -/
def opening (r : Reading) : Reading :=
  match r.later with
  | [] => { r with current := .strayOpening r.current }
  | next :: later => { current := .loop r.current next, later }

def closing (r : Reading) : Reading :=
  { current := .done, later := r.current :: r.later }

def take (r : Reading) : Command → Reading
  | .right => r.act .right
  | .left => r.act .left
  | .increment => r.act .increment
  | .decrement => r.act .decrement
  | .write => r.act .write
  | .read => r.act .read
  | .loopStart => r.opening
  | .loopEnd => r.closing

/-- The closings that still wait have no opening. -/
def join : Block → List Block → Block
  | current, [] => current
  | current, next :: later => current.append (.strayClosing (join next later))

def close (r : Reading) : Block :=
  join r.current r.later

def ofList (commands : List Command) : Reading :=
  commands.foldr (fun command r => r.take command) ⟨.done, []⟩

end Reading

/-- A sequence of commands, arranged. -/
def parse (commands : List Command) : Block :=
  (Reading.ofList commands).close

@[simp]
theorem flatten_append (a b : Block) : (a.append b).flatten = a.flatten ++ b.flatten := by
  induction a with
  | done => rfl
  | act effect next ih => simp [append, flatten, ih]
  | loop body next _ ih => simp [append, flatten, ih]
  | strayOpening next ih => simp [append, flatten, ih]
  | strayClosing next ih => simp [append, flatten, ih]

theorem flatten_close_take (r : Reading) (command : Command) :
    (r.take command).close.flatten = command :: r.close.flatten := by
  have acted (effect : Effect) :
      (r.act effect).close.flatten = effect.command :: r.close.flatten := by
    cases h : r.later with
    | nil => simp [Reading.close, Reading.act, Reading.join, h, flatten]
    | cons next later => simp [Reading.close, Reading.act, Reading.join, h, append, flatten]
  cases command with
  | loopStart =>
      rw [Reading.take, Reading.opening]
      cases h : r.later with
      | nil => simp [Reading.close, Reading.join, h, flatten]
      | cons next later =>
          cases later with
          | nil => simp [Reading.close, Reading.join, h, flatten]
          | cons after later => simp [Reading.close, Reading.join, h, append, flatten]
  | loopEnd => rfl
  | right => exact acted .right
  | left => exact acted .left
  | increment => exact acted .increment
  | decrement => exact acted .decrement
  | write => exact acted .write
  | read => exact acted .read

/-- No command is lost and none moved. -/
theorem flatten_parse (commands : List Command) : (parse commands).flatten = commands := by
  induction commands with
  | nil => rfl
  | cons command rest ih =>
      have step := flatten_close_take (Reading.ofList rest) command
      rw [← parse, ih] at step
      exact step

/-- Whether brackets are unpaired only where they can be: never inside a pair,
openings only where `opens` allows them, closings only where `closes` does and
behind no unpaired opening. -/
def Nested : (opens closes : Bool) → Block → Prop
  | _, _, done => True
  | opens, closes, act _ next => next.Nested opens closes
  | opens, closes, loop body next => body.Nested false false ∧ next.Nested opens closes
  | opens, _, strayOpening next => opens = true ∧ next.Nested opens false
  | opens, closes, strayClosing next => closes = true ∧ next.Nested opens closes

theorem Nested.mono {opens closes opens' closes' : Bool} {b : Block}
    (h : b.Nested opens closes) (hopens : opens = true → opens' = true)
    (hcloses : closes = true → closes' = true) : b.Nested opens' closes' := by
  induction b generalizing closes closes' with
  | done => trivial
  | act effect next ih => exact ih h hcloses
  | loop body next _ ih => exact ⟨h.1, ih h.2 hcloses⟩
  | strayOpening next ih => exact ⟨hopens h.1, ih h.2 id⟩
  | strayClosing next ih => exact ⟨hcloses h.1, ih h.2 hcloses⟩

theorem Nested.append {opens closes : Bool} {a b : Block} (ha : a.Nested false false)
    (hb : b.Nested opens closes) : (a.append b).Nested opens closes := by
  induction a with
  | done => exact hb
  | act effect next ih => exact ih ha
  | loop body next _ ih => exact ⟨ha.1, ih ha.2⟩
  | strayOpening next _ => exact absurd ha.1 (by decide)
  | strayClosing next _ => exact absurd ha.1 (by decide)

/-- What a reading keeps: only behind the last closing that waits can openings be
unpaired. -/
def Reading.Nested : Block → List Block → Prop
  | current, [] => current.Nested true false
  | current, next :: later => current.Nested false false ∧ Reading.Nested next later

theorem Reading.nested_act {current : Block} {later : List Block} (effect : Effect)
    (h : Reading.Nested current later) : Reading.Nested (.act effect current) later := by
  cases later with
  | nil => exact h
  | cons next later => exact h

theorem Reading.nested_loop {current next : Block} {later : List Block}
    (h : Reading.Nested current (next :: later)) :
    Reading.Nested (.loop current next) later := by
  cases later with
  | nil => exact h
  | cons after later => exact ⟨⟨h.1, h.2.1⟩, h.2.2⟩

theorem Reading.nested_take {r : Reading} (h : Reading.Nested r.current r.later)
    (command : Command) : Reading.Nested (r.take command).current (r.take command).later := by
  cases command with
  | loopStart =>
      rw [take, opening]
      cases hlater : r.later with
      | nil =>
          rw [hlater] at h
          exact ⟨rfl, h⟩
      | cons next later =>
          rw [hlater] at h
          exact nested_loop h
  | loopEnd => exact ⟨trivial, h⟩
  | right => exact nested_act .right h
  | left => exact nested_act .left h
  | increment => exact nested_act .increment h
  | decrement => exact nested_act .decrement h
  | write => exact nested_act .write h
  | read => exact nested_act .read h

theorem Reading.nested_ofList (commands : List Command) :
    Reading.Nested (ofList commands).current (ofList commands).later := by
  induction commands with
  | nil => trivial
  | cons command rest ih => exact nested_take ih command

theorem Reading.nested_join {current : Block} {later : List Block}
    (h : Reading.Nested current later) : (join current later).Nested true true := by
  induction later generalizing current with
  | nil => exact Block.Nested.mono h id (fun _ => rfl)
  | cons next later ih => exact Block.Nested.append h.1 ⟨rfl, ih h.2⟩

theorem nested_parse (commands : List Command) : (parse commands).Nested true true :=
  Reading.nested_join (Reading.nested_ofList commands)

/-- The number of commands. -/
def size (b : Block) : Nat :=
  b.flatten.length

/-- The partners that an arrangement shows, where its first command stands at
`start`. -/
def table : (start : Nat) → Block → List (Option Partner)
  | _, done => []
  | start, act _ next => none :: next.table (start + 1)
  | start, loop body next =>
    some (.slot (start + 1 + body.size)) ::
      (body.table (start + 1) ++ some (.slot start) :: next.table (start + 1 + body.size + 1))
  | start, strayOpening next => some .pastEnd :: next.table (start + 1)
  | start, strayClosing next => some .beforeStart :: next.table (start + 1)

theorem length_table (b : Block) (start : Nat) : (b.table start).length = b.size := by
  induction b generalizing start with
  | done => rfl
  | act effect next ih => simp [table, size, flatten, ih]
  | loop body next ihb ihn => simp [table, size, flatten, ihb, ihn]
  | strayOpening next ih => simp [table, size, flatten, ih]
  | strayClosing next ih => simp [table, size, flatten, ih]

/-- A closing and the opening that it closes become the partners of each other. -/
private theorem toList_feed_closing {p : Pairing} {before inner : List (Option Partner)}
    {unsettled : Option Partner} {outer : List Nat}
    (hpartners : p.partners.toList = before ++ unsettled :: inner)
    (hunclosed : p.unclosed = before.length :: outer) :
    (p.feed (some .closing)).partners.toList =
      before ++ some (.slot p.partners.size) :: (inner ++ [some (.slot before.length)]) := by
  simp only [Pairing.feed_closing_of_unclosed hunclosed]
  rw [Array.toList_push, Array.toList_setIfInBounds, hpartners]
  simp

/-- The pass over an arrangement adds the partners that the arrangement shows,
and without unpaired openings all that it opens is closed again. -/
theorem foldl_feed_flatten {opens closes : Bool} {b : Block} (h : b.Nested opens closes)
    {p : Pairing} (hp : closes = true → p.unclosed = []) :
    let q := (b.flatten.map Command.bracket?).foldl Pairing.feed p
    q.partners.toList = p.partners.toList ++ b.table p.partners.size ∧
      (opens = false → q.unclosed = p.unclosed) := by
  induction b generalizing opens closes p with
  | done => simp [flatten, table]
  | act effect next ih =>
      obtain ⟨partners, unclosed⟩ := ih h (p := p.feed none) hp
      rw [Pairing.size_partners_feed] at partners
      simp only [flatten, List.map_cons, List.foldl_cons, Effect.bracket?_command]
      refine ⟨?_, unclosed⟩
      rw [partners]
      simp [Pairing.feed, table]
  | loop body next ihb ihn =>
      let opened := p.feed (some .opening)
      let inside := (body.flatten.map Command.bracket?).foldl Pairing.feed opened
      let closed := inside.feed (some .closing)
      obtain ⟨insidePartners, insideUnclosed⟩ := ihb h.1 (p := opened) (by simp)
      have waiting : inside.unclosed = p.partners.size :: p.unclosed := insideUnclosed rfl
      have insideList : inside.partners.toList =
          p.partners.toList ++ some .pastEnd :: body.table (p.partners.size + 1) := by
        rw [insidePartners, Pairing.size_partners_feed]
        simp [opened, Pairing.feed]
      have insideSize : inside.partners.size = p.partners.size + 1 + body.size := by
        rw [← Array.length_toList, insideList]
        simp [length_table]
        omega
      have closedList : closed.partners.toList =
          p.partners.toList ++ some (.slot (p.partners.size + 1 + body.size)) ::
            (body.table (p.partners.size + 1) ++ [some (.slot p.partners.size)]) := by
        rw [toList_feed_closing insideList waiting, insideSize]
        rfl
      have closedUnclosed : closed.unclosed = p.unclosed := by
        simp only [closed, Pairing.feed_closing_of_unclosed waiting]
      have closedSize : closed.partners.size = p.partners.size + 1 + body.size + 1 := by
        rw [Pairing.size_partners_feed, insideSize]
      obtain ⟨partners, unclosed⟩ := ihn h.2 (p := closed)
        (fun hcloses => closedUnclosed.trans (hp hcloses))
      rw [closedSize, closedList] at partners
      simp only [flatten, List.map_cons, List.map_append, List.foldl_cons, List.foldl_append,
        Command.bracket?]
      refine ⟨?_, fun hopens => (unclosed hopens).trans closedUnclosed⟩
      rw [partners]
      simp [table]
  | strayOpening next ih =>
      obtain ⟨rfl, hnext⟩ := h
      obtain ⟨partners, _⟩ := ih hnext (p := p.feed (some .opening)) (by simp)
      rw [Pairing.size_partners_feed] at partners
      refine ⟨?_, by simp⟩
      simp only [flatten, List.map_cons, List.foldl_cons, Command.bracket?]
      rw [partners]
      simp [Pairing.feed, table]
  | strayClosing next ih =>
      obtain ⟨rfl, hnext⟩ := h
      have none_open := hp rfl
      obtain ⟨partners, unclosed⟩ := ih hnext (p := p.feed (some .closing))
        (by simp [Pairing.feed_closing_of_none none_open, none_open])
      rw [Pairing.size_partners_feed] at partners
      simp only [flatten, List.map_cons, List.foldl_cons, Command.bracket?]
      refine ⟨?_, fun hopens => ?_⟩
      · rw [partners, Pairing.feed_closing_of_none none_open]
        simp [table]
      · rw [unclosed hopens, Pairing.feed_closing_of_none none_open]

/-- The partners of an arranged program are those that the arrangement shows. -/
theorem partners_flatten {b : Block} (h : b.Nested true true) :
    (Bracket.partners (b.flatten.map Command.bracket?)).toList = b.table 0 := by
  obtain ⟨partners, _⟩ := foldl_feed_flatten h (p := Pairing.empty) (fun _ => rfl)
  rw [Bracket.partners, Pairing.ofList, partners]
  rfl

end Block

end TapeMachine
