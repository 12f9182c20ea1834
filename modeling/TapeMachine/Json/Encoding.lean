import TapeMachine.Json.Reader
import TapeMachine.Text.Utf8

/-!
JSON as bytes. The encoding is told by a byte order mark, else by where the
zero bytes of the first four are, since a JSON text begins with characters
below 256. Encoded surrogates are let through.
-/

namespace TapeMachine.Json

/-- The text of a JSON byte string, none if the bytes are ill-formed. -/
def decode? : List UInt8 → Option Text
  | 0x00 :: 0x00 :: 0xfe :: 0xff :: rest => Text.decodeUtf32? true rest
  | 0xff :: 0xfe :: 0x00 :: 0x00 :: rest => Text.decodeUtf32? false rest
  | 0xfe :: 0xff :: rest => Text.decodeUtf16? true rest
  | 0xff :: 0xfe :: rest => Text.decodeUtf16? false rest
  | 0xef :: 0xbb :: 0xbf :: rest => (Text.decodeUtf8From true rest 0 none []).toOption
  | bytes =>
    match bytes with
    | a :: b :: c :: d :: _ =>
      if a = 0 then
        if b = 0 then Text.decodeUtf32? true bytes else Text.decodeUtf16? true bytes
      else if b = 0 then
        if c = 0 ∧ d = 0 then Text.decodeUtf32? false bytes
        else Text.decodeUtf16? false bytes
      else (Text.decodeUtf8From true bytes 0 none []).toOption
    | [a, b] =>
      if a = 0 then Text.decodeUtf16? true bytes
      else if b = 0 then Text.decodeUtf16? false bytes
      else (Text.decodeUtf8From true bytes 0 none []).toOption
    | _ => (Text.decodeUtf8From true bytes 0 none []).toOption

/-- How deep lists and objects may lie in one another. -/
def depthLimit : Nat := 985

/-- Reads a byte string as one value. -/
def ofBytes (bytes : List UInt8) : Except ReadFault Json :=
  match decode? bytes with
  | none => .error .malformed
  | some t => ofText (some Literal.digitLimit) depthLimit t

end TapeMachine.Json
