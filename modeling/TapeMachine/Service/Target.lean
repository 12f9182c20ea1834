import TapeMachine.Service.Host
import TapeMachine.Text.Quoted

/-!
Request targets: the path and the query of a local path or of a whole address.
Percent escapes are left alone in the path and decoded in the query.
-/

namespace TapeMachine.Service

structure Target where
  path : Text
  query : Text

/-- What can be wrong with the host of an address: brackets that do not match,
or no address of a fit version in them. -/
inductive TargetFault
  | brackets
  | futureAddress
  | address4
  | notAddress (host : Text)

def TargetFault.message : TargetFault → String
  | brackets => "Invalid IPv6 URL"
  | futureAddress => "IPvFuture address is invalid"
  | address4 => "An IPv4 address cannot be in brackets"
  | notAddress host =>
    s!"{Text.quote host} does not appear to be an IPv4 or IPv6 address"

/-- Several leading slashes count as one. -/
def collapseSlashes (t : Text) : Text :=
  match t with
  | .scalar '/' :: .scalar '/' :: rest =>
    .scalar '/' :: rest.dropWhile (· = .scalar '/')
  | _ => t

/-- Blanks and control characters before a target, and line ends and tabs
anywhere in it, are no part of it. -/
def cleaned (t : Text) : Text :=
  (t.dropWhile fun c => c.value ≤ 0x20).filter fun c =>
    !(c = .scalar '\t' || c = .scalar '\r' || c = .scalar '\n')

def isAsciiLetter (c : CodePoint) : Bool :=
  match c with
  | .surrogate _ => false
  | .scalar c => c.isAlpha

def isSchemeChar (c : CodePoint) : Bool :=
  isAsciiLetter c || Text.isAsciiDigit c ||
    c = .scalar '+' || c = .scalar '-' || c = .scalar '.'

/-- The scheme before the first colon, if it has the form of one, and the rest
without it. -/
def takeScheme (t : Text) : Text × Text :=
  match Text.cut ':' t with
  | (scheme, some rest) =>
    if (scheme.head?.map isAsciiLetter).getD false && scheme.all isSchemeChar then
      (Text.toLower scheme, rest)
    else ([], t)
  | (_, none) => ([], t)

/-- The schemes whose paths have parameters. -/
def parameterSchemes : List Text :=
  ["", "ftp", "hdl", "prospero", "http", "imap", "https", "shttp", "rtsp", "rtspu",
    "sip", "sips", "mms", "sftp", "tel"].map Text.ofString

def endsHost (c : CodePoint) : Bool :=
  c = .scalar '/' || c = .scalar '?' || c = .scalar '#'

def checkAddress (address : Text) : Except TargetFault Unit :=
  if Text.startsWith address 'v' then
    if isFutureAddress address then .ok () else .error .futureAddress
  else if isAddress4 address then .error .address4
  else if isAddress6 address then .ok ()
  else .error (.notAddress address)

/-- Checks the address in a host, if it has brackets. -/
def checkHost (host : Text) : Except TargetFault Unit :=
  let opened := host.contains (.scalar '[')
  let closed := host.contains (.scalar ']')
  if opened != closed then .error .brackets
  else if !opened then .ok ()
  else
    match bracketed? host with
    | some address => checkAddress address
    | none => .error .brackets

/-- The rest of an address after its host. -/
def dropHost (t : Text) : Except TargetFault Text :=
  match t with
  | .scalar '/' :: .scalar '/' :: rest =>
    (checkHost (rest.takeWhile fun c => !endsHost c)).map fun () =>
      rest.dropWhile fun c => !endsHost c
  | _ => .ok t

/-- Drops the parameters of the last segment of a path. -/
def dropParameters (path : Text) : Text :=
  let last := (path.reverse.takeWhile (· ≠ .scalar '/')).reverse
  path.take (path.length - last.length) ++ (Text.cut ';' last).1

def Target.parse (t : Text) : Except TargetFault Target :=
  let (scheme, rest) := takeScheme (cleaned t)
  (dropHost rest).map fun rest =>
    let (rest, _) := Text.cut '#' rest
    let (path, query) := Text.cut '?' rest
    { path := if parameterSchemes.contains scheme then dropParameters path else path
      query := query.getD [] }

/-- A key of a query: a plus is a blank, and an escape the character with its
number, which settles every key of ASCII characters. -/
def decodeKey : Text → Text
  | .scalar '%' :: a :: b :: rest =>
    match Text.hexDigit? a, Text.hexDigit? b with
    | some high, some low => .scalar (Char.ofNat (16 * high + low)) :: decodeKey rest
    | _, _ => .scalar '%' :: decodeKey (a :: b :: rest)
  | .scalar '+' :: rest => .scalar ' ' :: decodeKey rest
  | c :: rest => c :: decodeKey rest
  | [] => []

/-- The keys of a query, in order. A piece without an equals sign is a key. -/
def queryKeys (query : Text) : List Text :=
  ((Text.splitAt '&' query).filter fun piece => !piece.isEmpty).map fun piece =>
    decodeKey (Text.cut '=' piece).1

end TapeMachine.Service
