import Harvest.Text

/-!
# Base64

The URL-safe alphabet without padding.  Three bytes become four symbols; at the end one byte
becomes two symbols and two bytes become three.  Decoding is strict: it takes exactly the texts
that encoding writes and says what is wrong with any other.
-/

namespace Harvest.Base64

/-- What is wrong with a text that is not base64. -/
inductive Flaw where
  /-- A byte that is no symbol, and its place. -/
  | symbol (byte : UInt8) (offset : Nat)
  /-- A single symbol at the end, and the number of bytes up to it. -/
  | length (length : Nat)
  /-- Bits of the last symbol that no byte uses. -/
  | lastSymbol (byte : UInt8) (offset : Nat)
  /-- Padding at the end. -/
  | padding
  deriving DecidableEq, Repr

/-- A flaw in words. -/
def Flaw.message : Flaw → String
  | symbol b n => "Invalid symbol " ++ toString b ++ ", offset " ++ toString n ++ "."
  | length n => "Invalid input length: " ++ toString n
  | lastSymbol b n => "Invalid last symbol " ++ toString b ++ ", offset " ++ toString n ++ "."
  | padding => "Invalid padding"

/-! ### Symbols -/

/-- The symbol of a value below 64. -/
def symbolOf (n : Nat) : Char :=
  if n < 26 then Char.ofNat (65 + n)
  else if n < 52 then Char.ofNat (71 + n)
  else if n < 62 then Char.ofNat (n - 4)
  else if n = 62 then '-'
  else '_'

/-- The value of a symbol. -/
def valueOf? (b : UInt8) : Option Nat :=
  let n := b.toNat
  if 65 ≤ n ∧ n ≤ 90 then some (n - 65)
  else if 97 ≤ n ∧ n ≤ 122 then some (n - 71)
  else if 48 ≤ n ∧ n ≤ 57 then some (n + 4)
  else if n = 45 then some 62
  else if n = 95 then some 63
  else none

/-- The byte of the padding character. -/
def pad : UInt8 := 61

/-! ### Encoding -/

/-- The symbols of some bytes. -/
def encode : List UInt8 → List Char
  | a :: b :: c :: rest =>
    let n := a.toNat * 65536 + b.toNat * 256 + c.toNat
    symbolOf (n / 262144) :: symbolOf (n / 4096 % 64) :: symbolOf (n / 64 % 64) ::
      symbolOf (n % 64) :: encode rest
  | [a, b] =>
    let n := a.toNat * 256 + b.toNat
    [symbolOf (n / 1024), symbolOf (n / 16 % 64), symbolOf (n % 16 * 4)]
  | [a] => [symbolOf (a.toNat / 4), symbolOf (a.toNat % 4 * 16)]
  | [] => []

/-! ### Decoding -/

/-- The value of a byte that must be a symbol. -/
def value (b : UInt8) (offset : Nat) : Except Flaw Nat :=
  match valueOf? b with
  | some v => .ok v
  | none => .error (.symbol b offset)

/-- The values of the last symbols.  Padding may follow two of them, and nothing may follow
padding: `padAt` is where it started.  The answer also says whether there was padding. -/
def lastValues (start : Nat) :
    Nat → Option Nat → List UInt8 → Except Flaw (List Nat × Bool)
  | _, padAt, [] => .ok ([], padAt.isSome)
  | i, padAt, b :: bs =>
    if b = pad then
      if i < 2 then .error (.symbol b (start + i))
      else lastValues start (i + 1) (padAt.or (some (start + i))) bs
    else
      match padAt with
      | some p => .error (.symbol pad p)
      | none => do
        let v ← value b (start + i)
        let (vs, padded) ← lastValues start (i + 1) none bs
        return (v :: vs, padded)

/-- The bytes of the last symbols, of which there are at most four. -/
def decodeLast (start : Nat) (bs : List UInt8) : Except Flaw (List UInt8) := do
  let (vs, padded) ← lastValues start 0 none bs
  if vs.length < 2 then throw (.length (start + vs.length))
  if padded then throw .padding
  match vs with
  | [v, w] =>
    if w % 16 ≠ 0 then throw (.lastSymbol (bs.getD 1 0) (start + 1))
    return [(v * 4 + w / 16).toUInt8]
  | [v, w, x] =>
    if x % 4 ≠ 0 then throw (.lastSymbol (bs.getD 2 0) (start + 2))
    let n := v * 1024 + w * 16 + x / 4
    return [(n / 256).toUInt8, (n % 256).toUInt8]
  | v :: w :: x :: y :: _ =>
    let n := v * 262144 + w * 4096 + x * 64 + y
    return [(n / 65536).toUInt8, (n / 256 % 256).toUInt8, (n % 256).toUInt8]
  | _ => return []

/-- The bytes of symbols from a place on: four symbols at a time while others follow. -/
def decodeFrom (start : Nat) : List UInt8 → Except Flaw (List UInt8)
  | a :: b :: c :: d :: e :: rest => do
    let v ← value a start
    let w ← value b (start + 1)
    let x ← value c (start + 2)
    let y ← value d (start + 3)
    let n := v * 262144 + w * 4096 + x * 64 + y
    let bs ← decodeFrom (start + 4) (e :: rest)
    return (n / 65536).toUInt8 :: (n / 256 % 256).toUInt8 :: (n % 256).toUInt8 :: bs
  | [] => .ok []
  | bs => decodeLast start bs

/-- Whether a text has one symbol too many and its last byte is neither a symbol nor padding;
that byte is the flaw to report, before any other. -/
def trailing? (bs : List UInt8) : Option UInt8 :=
  if bs.length % 4 = 1 then
    bs.getLast?.filter fun b => b ≠ pad && (valueOf? b).isNone
  else none

/-- The bytes that a text of symbols stands for. -/
def decode (bs : List UInt8) : Except Flaw (List UInt8) :=
  match trailing? bs with
  | some b => .error (.symbol b (bs.length - 1))
  | none => decodeFrom 0 bs

end Harvest.Base64
