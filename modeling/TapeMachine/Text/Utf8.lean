import TapeMachine.Text

/-!
Decoding of byte strings. UTF-8 comes with an exact account of the first
fault: a faulty sequence reaches up to the byte that cannot continue it. The
two wider forms only succeed or fail.
-/

namespace TapeMachine.Text

inductive Utf8Reason
  | startByte
  | continuationByte
  | endOfData

/-- The bytes from `start` up to but not including `stop` are no character;
`first` is the first of them. -/
structure Utf8Fault where
  first : UInt8
  start : Nat
  stop : Nat
  reason : Utf8Reason

def Utf8Reason.message : Utf8Reason → String
  | .startByte => "invalid start byte"
  | .continuationByte => "invalid continuation byte"
  | .endOfData => "unexpected end of data"

def hexByte (b : UInt8) : String :=
  String.ofList [Nat.digitChar (b.toNat / 16), Nat.digitChar (b.toNat % 16)]

def Utf8Fault.message (fault : Utf8Fault) : String :=
  let place :=
    if fault.stop = fault.start + 1 then
      s!"byte 0x{hexByte fault.first} in position {fault.start}"
    else s!"bytes in position {fault.start}-{fault.stop - 1}"
  s!"'utf-8' codec can't decode {place}: {fault.reason.message}"

/-- A sequence begun and not finished: the bits so far, how many bytes are
owed and the range of the next one. -/
structure Utf8Partial where
  first : UInt8
  start : Nat
  bits : Nat
  owed : Nat
  low : Nat
  high : Nat

/-- What a byte begins between characters. Overlong forms are excluded by the
range of the second byte, and so are surrogates unless they are `lenient`ly
let through. -/
def Utf8Partial.begin? (lenient : Bool) (position : Nat) (b : UInt8) : Option Utf8Partial :=
  let n := b.toNat
  if 0xc2 ≤ n ∧ n < 0xe0 then some ⟨b, position, n - 0xc0, 1, 0x80, 0xbf⟩
  else if n = 0xe0 then some ⟨b, position, 0, 2, 0xa0, 0xbf⟩
  else if n = 0xed ∧ !lenient then some ⟨b, position, 0xd, 2, 0x80, 0x9f⟩
  else if 0xe1 ≤ n ∧ n < 0xf0 then some ⟨b, position, n - 0xe0, 2, 0x80, 0xbf⟩
  else if n = 0xf0 then some ⟨b, position, 0, 3, 0x90, 0xbf⟩
  else if 0xf1 ≤ n ∧ n < 0xf4 then some ⟨b, position, n - 0xf0, 3, 0x80, 0xbf⟩
  else if n = 0xf4 then some ⟨b, position, 4, 3, 0x80, 0x8f⟩
  else none

/-- Decodes from `position` on, with the text so far in reverse. -/
def decodeUtf8From (lenient : Bool) :
    List UInt8 → (position : Nat) → Option Utf8Partial → Text → Except Utf8Fault Text
  | [], _, none, done => .ok done.reverse
  | [], position, some p, _ => .error ⟨p.first, p.start, position, .endOfData⟩
  | b :: rest, position, none, done =>
    if b < 0x80 then
      decodeUtf8From lenient rest (position + 1) none (.scalar (Char.ofNat b.toNat) :: done)
    else
      match Utf8Partial.begin? lenient position b with
      | none => .error ⟨b, position, position + 1, .startByte⟩
      | some p => decodeUtf8From lenient rest (position + 1) (some p) done
  | b :: rest, position, some p, done =>
    if b.toNat < p.low ∨ p.high < b.toNat then
      .error ⟨p.first, p.start, position, .continuationByte⟩
    else
      let bits := p.bits * 64 + (b.toNat - 0x80)
      if p.owed ≤ 1 then
        match CodePoint.ofValue? bits with
        | none => .error ⟨p.first, p.start, position, .continuationByte⟩
        | some c => decodeUtf8From lenient rest (position + 1) none (c :: done)
      else
        decodeUtf8From lenient rest (position + 1)
          (some ⟨p.first, p.start, bits, p.owed - 1, 0x80, 0xbf⟩) done

def decodeUtf8 (bytes : List UInt8) : Except Utf8Fault Text :=
  decodeUtf8From false bytes 0 none []

/-- Line ends of all three styles as line feeds. -/
def unifyNewlines : Text → Text
  | [] => []
  | c :: rest =>
    if c = .scalar '\r' then
      match rest with
      | next :: more =>
        if next = .scalar '\n' then .scalar '\n' :: unifyNewlines more
        else .scalar '\n' :: unifyNewlines (next :: more)
      | [] => [.scalar '\n']
    else c :: unifyNewlines rest

/-- Pairs of bytes as numbers; none if one is left over. -/
def pairUp (bigEndian : Bool) : List UInt8 → Option (List Nat)
  | [] => some []
  | [_] => none
  | a :: b :: rest =>
    (pairUp bigEndian rest).map fun units =>
      (if bigEndian then a.toNat * 256 + b.toNat else b.toNat * 256 + a.toNat) :: units

/-- Joins each high surrogate with a low one right after it. -/
def joinPairs : Text → Text
  | [] => []
  | c :: rest =>
    match rest with
    | next :: more =>
      if c.isHighSurrogate && next.isLowSurrogate then
        c.joinSurrogates next :: joinPairs more
      else c :: joinPairs (next :: more)
    | [] => [c]

def decodeUtf16? (bigEndian : Bool) (bytes : List UInt8) : Option Text :=
  (pairUp bigEndian bytes).bind fun units =>
    (units.mapM CodePoint.ofValue?).map joinPairs

def decodeUtf32? (bigEndian : Bool) (bytes : List UInt8) : Option Text :=
  let rec wide : List Nat → Option (List Nat)
    | [] => some []
    | [_] => none
    | a :: b :: rest =>
      (wide rest).map ((if bigEndian then a * 0x10000 + b else b * 0x10000 + a) :: ·)
  ((pairUp bigEndian bytes).bind wide).bind (·.mapM CodePoint.ofValue?)

end TapeMachine.Text
