import Harvest.Binary64

/-!
# Numbers in JSON text

A number is written as digits with an optional sign, fraction and exponent.  `Numeral.ofWord?`
reads one.  A number without fraction and exponent is an integer (`Numeral.integer?`), unless it
is a negative zero; every number can be taken as a floating-point number (`Numeral.real?`).

The latter is not always the nearest one: only digits that fit into 64 bits are looked at, and
digits and power of ten are rounded one by one.
-/

namespace Harvest

/-- A number as it is written. -/
structure Numeral where
  negative : Bool
  /-- The digits in front of the point. -/
  whole : List Char
  /-- The digits behind the point; there are some if there is a point. -/
  fraction : List Char
  exponent : Option Int
  deriving DecidableEq, Repr

namespace Numeral

/-! ### Reading -/

/-- The digits at the front of a word, and the rest. -/
def digits (cs : List Char) : List Char × List Char := cs.span Char.isDigit

/-- The integer part: a single zero, or digits that do not start with one. -/
def integerPart? (cs : List Char) : Option (List Char × List Char) :=
  match digits cs with
  | ([], _) => none
  | ('0' :: _ :: _, _) => none
  | (ds, rest) => some (ds, rest)

/-- The fraction, if there is a point: at least one digit. -/
def fraction? : List Char → Option (List Char × List Char)
  | '.' :: cs =>
    match digits cs with
    | ([], _) => none
    | (ds, rest) => some (ds, rest)
  | cs => some ([], cs)

/-- The exponent, if there is one: an optional sign and at least one digit. -/
def exponent? : List Char → Option (Option Int)
  | [] => some none
  | c :: cs =>
    if c = 'e' ∨ c = 'E' then
      let (sign, cs) : Int × List Char := match cs with
        | '+' :: r => (1, r)
        | '-' :: r => (-1, r)
        | r => (1, r)
      match digits cs with
      | ([], _) => none
      | (ds, []) => some (some (sign * Nat.ofDigitChars 10 ds 0))
      | _ => none
    else none

/-- Read a number without its sign. -/
def ofUnsigned? (negative : Bool) (cs : List Char) : Option Numeral := do
  let (whole, rest) ← integerPart? cs
  let (fraction, rest') ← fraction? rest
  let exponent ← exponent? rest'
  return { negative, whole, fraction, exponent }

/-- Read a number. -/
def ofWord? : List Char → Option Numeral
  | '-' :: cs => ofUnsigned? true cs
  | cs => ofUnsigned? false cs

/-! ### Values -/

/-- The integer that is written, if the number is one; a negative zero is not. -/
def integer? (n : Numeral) : Option Int :=
  if n.fraction.isEmpty && n.exponent.isNone then
    match n.negative, Nat.ofDigitChars 10 n.whole 0 with
    | false, d => some d
    | true, 0 => none
    | true, d => some (-d)
  else none

/-- The largest number whose digits are looked at. -/
def largestSignificand : Nat := 0xFFFFFFFFFFFFFFFF

/-- Append digits to a number while it does not grow too large.  The answer also says how many
digits are left over. -/
def appendDigits : Nat → List Char → Nat × Nat
  | n, [] => (n, 0)
  | n, c :: cs =>
    let n' := Nat.ofDigitChars 10 [c] n
    if n' ≤ largestSignificand then appendDigits n' cs else (n, cs.length + 1)

/-- The digits that are looked at, as one number, and the power of ten to scale it by.  Digits
that are left over in front of the point count as zeros, those behind it are dropped. -/
def significand (n : Numeral) : Nat × Int :=
  let (s, zeros) := appendDigits 0 n.whole
  let (s, dropped) := appendDigits s n.fraction
  (s, (zeros : Int) - (n.fraction.length - dropped : Nat) + n.exponent.getD 0)

/-- The floating-point number that is written, unless it is too large. -/
def real? (n : Numeral) : Option Binary64 := do
  let (s, exponent) := n.significand
  let x ← Binary64.ofNat? s
  let y ← x.timesTenTo? exponent
  return { y with negative := n.negative }

end Numeral

end Harvest
