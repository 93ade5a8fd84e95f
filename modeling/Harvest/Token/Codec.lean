import Harvest.Base64
import Harvest.Fault
import Harvest.Record.Json
import Harvest.Sha256
import Harvest.Token

/-!
# The wire form of tokens

A token travels as `v1.<payload>.<checksum>`: the payload is the base64 text of a compact JSON
object, and the checksum is made from the version, a secret and the payload.  All characters may
stand in a URL as they are.  `Codec.deserialize` takes nothing but such texts: the slightest
change to one is a fault.

Why a payload cannot be read is said in the words of the JSON library.  They are no part of this
library and may be any (`Explanation`).
-/

namespace Harvest

/-- What checksums are made with: any bytes. -/
structure Secret where
  bytes : List UInt8
  deriving DecidableEq

/-- A text is a secret by its bytes. -/
instance : Coe String Secret := ⟨fun s => ⟨bytesOf s⟩⟩

/-- What is said about bytes that cannot be read as the payload of a token. -/
abbrev Explanation := List UInt8 → String

/-- Writes and reads tokens under a secret. -/
structure Codec where
  secret : Secret
  explain : Explanation

namespace Codec

/-- The version of the wire form. -/
def version : String := "v1"

/-- The length in bytes of the longest token that is read. -/
def maxLength : Nat := 4096

/-- The length in bytes of a checksum. -/
def checksumLength : Nat := 16

/-- A codec in diagnostics, with its secret kept out. -/
def describe (_ : Codec) : String := "TokenCodec \x7b secret: \"<redacted>\" \x7d"

instance : Repr Codec := ⟨fun c _ => c.describe⟩

/-! ### Payloads -/

/-- A member for a field that is left out when it has no value. -/
def member? (name : String) (v : Option Json) : List (String × Json) :=
  match v with
  | some v => [(name, v)]
  | none => []

/-- The payload of a token. -/
def payload (t : ResumptionToken) : Json :=
  .object (("p", .text t.metadataPrefix) ::
    (member? "s" (t.set.map .text) ++
      (member? "f" (t.since.map fun i => .text i.render) ++
        (member? "u" (t.upTo.map fun i => .text i.render) ++
          [("t", .int t.position.typeIndex.toNat),
            ("m", .text t.position.last.modified.render),
            ("i", .int t.position.last.id.toNat)]))))

/-- The token of a payload. -/
def ofPayload? (r : Json.Raw) : Option ResumptionToken := do
  let f ← r.fields? ["p", "s", "f", "u", "t", "m", "i"] true
  return {
    metadataPrefix := ← f.required "p" Json.Raw.text?
    set := ← f.defaulted "s" none (Json.Fields.nullable Json.Raw.text?)
    since := ← f.defaulted "f" none (Json.Fields.nullable Json.Raw.instant?)
    upTo := ← f.defaulted "u" none (Json.Fields.nullable Json.Raw.instant?)
    position := {
      typeIndex := ← f.required "t" Json.Raw.id?
      last := {
        modified := ← f.required "m" Json.Raw.instant?
        id := ← f.required "i" Json.Raw.id? } } }

/-! ### Checksums -/

/-- The last `width` hexadecimal digits of a natural number. -/
def hexDigits : Nat → Nat → List Char
  | 0, _ => []
  | width + 1, n => hexDigits width (n / 16) ++ [Json.hexChar (n % 16)]

/-- A word in hexadecimal. -/
def hexWord (w : UInt32) : List Char := hexDigits 8 w.toNat

/-- The checksum of an encoded payload under a digest: its first two words, in hexadecimal. -/
def checksumWith (digest : List UInt8 → Sha256.Words) (c : Codec) (encoded : String) : String :=
  let d := digest (bytesOf version ++ 0 :: c.secret.bytes ++ 0 :: bytesOf encoded)
  String.ofList (hexWord d.a ++ hexWord d.b)

/-- The checksum of an encoded payload. -/
def checksum (c : Codec) (encoded : String) : String := c.checksumWith Sha256.digest encoded

/-- Whether two texts have the same bytes.  All of them are looked at, so that the time it takes
tells nothing but their lengths. -/
def sameBytes (a b : String) : Bool :=
  a.utf8ByteSize = b.utf8ByteSize &&
    ((bytesOf a).zip (bytesOf b)).foldl (fun diff p => diff ||| (p.1 ^^^ p.2)) 0 = 0

/-! ### Wire form -/

/-- The text of a token. -/
def serialize (c : Codec) (t : ResumptionToken) : String :=
  let encoded := String.ofList (Base64.encode (bytesOf (payload t).render))
  version ++ "." ++ encoded ++ "." ++ c.checksum encoded

/-- The parts of a text between its dots. -/
def parts : List Char → List (List Char)
  | [] => [[]]
  | c :: cs =>
    if c = '.' then [] :: parts cs
    else
      match parts cs with
      | [] => [[c]]
      | p :: ps => (c :: p) :: ps

/-- The payload inside a text whose form, version and checksum under a digest are right. -/
def unwrapWith (digest : List UInt8 → Sha256.Words) (c : Codec) (raw : String) :
    Except Fault String :=
  if raw.isEmpty || raw.utf8ByteSize > maxLength then .error .tokenLength
  else
    match parts raw.toList with
    | [v, e, s] =>
      if String.ofList v ≠ version then .error .tokenVersion
      else if (String.ofList s).utf8ByteSize ≠ checksumLength ||
          !sameBytes (c.checksumWith digest (String.ofList e)) (String.ofList s) then
        .error .tokenChecksum
      else .ok (String.ofList e)
    | _ => .error .tokenParts

/-- The token of an encoded payload. -/
def decodePayload (c : Codec) (encoded : String) : Except Fault ResumptionToken :=
  match Base64.decode (bytesOf encoded) with
  | .error flaw => .error (.tokenNotBase64 flaw.message)
  | .ok bytes =>
    match textOf? bytes >>= Json.Raw.ofText? >>= ofPayload? with
    | none => .error (.tokenPayload (c.explain bytes))
    | some t => if t.metadataPrefix.isEmpty then .error .tokenWithoutPrefix else .ok t

/-- Read the text of a token whose checksum was made with a digest. -/
def deserializeWith (digest : List UInt8 → Sha256.Words) (c : Codec) (raw : String) :
    Except Fault ResumptionToken := do
  let encoded ← c.unwrapWith digest raw
  c.decodePayload encoded

/-- Read the text of a token. -/
def deserialize (c : Codec) (raw : String) : Except Fault ResumptionToken :=
  c.deserializeWith Sha256.digest raw

end Codec

end Harvest
