import TapeMachine.Text.Digit

/-!
Hosts in brackets. Between the brackets stands a version 6 network address or,
after the letter v, an address of a version still to come.
-/

namespace TapeMachine.Service

def asciiNumber (digits : Text) : Nat :=
  digits.foldl (fun n c => 10 * n + (c.value - 0x30)) 0

/-- A number up to 255 without leading zeros. -/
def isOctet (t : Text) : Bool :=
  !t.isEmpty && t.all Text.isAsciiDigit && t.length ≤ 3 &&
    (t.length = 1 || !Text.startsWith t '0') && asciiNumber t ≤ 255

def isAddress4 (t : Text) : Bool :=
  let octets := Text.splitAt '.' t
  octets.length = 4 && octets.all isOctet

def isGroup (t : Text) : Bool :=
  !t.isEmpty && t.length ≤ 4 && t.all Text.isHexDigit

/-- Whether parts between colons are eight groups, or fewer with one gap for
the missing ones. The gap is an empty part; at either end of an address it
shows as two of them. -/
def areGroups : List Text → Bool
  | [] => false
  | first :: rest =>
    let before := first :: rest.takeWhile fun part => !part.isEmpty
    let after := (rest.dropWhile fun part => !part.isEmpty).drop 1
    if after.isEmpty then
      rest.length = 7 && (first :: rest).all isGroup
    else
      let groups :=
        (if before = [[]] then [] else before) ++ (if after = [[]] then [] else after)
      groups.all isGroup && groups.length ≤ 7

/-- A version 6 address; its last two groups may be a version 4 address, and a
zone may follow it. -/
def isAddress6 (t : Text) : Bool :=
  let (address, zone) := Text.cut '%' t
  let zoneOk :=
    match zone with
    | none => true
    | some zone => !zone.isEmpty && !zone.contains (.scalar '%')
  let parts := Text.splitAt ':' address
  let last := parts.getLastD []
  let (parts, lastOk) :=
    if last.contains (.scalar '.') then
      (parts.dropLast ++ [Text.ofString "0", Text.ofString "0"], isAddress4 last)
    else (parts, true)
  zoneOk && 3 ≤ parts.length && lastOk && parts.length ≤ 9 && areGroups parts

/-- The letter v, a hexadecimal version, a point and something more. -/
def isFutureAddress (t : Text) : Bool :=
  let rest := t.drop 1
  let version := rest.takeWhile Text.isHexDigit
  match rest.dropWhile Text.isHexDigit with
  | .scalar '.' :: more => !version.isEmpty && !more.isEmpty
  | _ => false

/-- The address in a host with brackets. It comes after the last at sign, with
nothing before its opening bracket and at most a port after the closing one.
Without a bracket there, all up to the port has to be an address. -/
def bracketed? (host : Text) : Option Text :=
  let place := (Text.splitAt '@' host).getLastD []
  match Text.cut '[' place with
  | (_, none) => some (Text.cut ':' place).1
  | (before, some rest) =>
    let (address, port) := Text.cut ']' rest
    let port := port.getD []
    if before.isEmpty && (port.isEmpty || Text.startsWith port ':') then some address
    else none

end TapeMachine.Service
