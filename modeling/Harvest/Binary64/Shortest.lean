import Harvest.Binary64

/-!
# The shortest decimal text

A floating-point number is written with the fewest digits from which it can be read back, and
among those with the digits nearest to it (`Binary64.shortest`).  Seventeen digits are always
enough.

The numbers below a power of two are closer together than those above it.  So the nearest digits
may be too far below a power of two to be read back when those on the other side are not.
-/

namespace Harvest

/-- A decimal number: its digits, read as one natural number, scaled by a power of ten. -/
structure Decimal where
  negative : Bool
  digits : Nat
  exponent : Int
  deriving DecidableEq, Repr

namespace Decimal

/-- Strip trailing zeros off the digits, at most `fuel` of them. -/
def strip : Nat → Nat → Int → Nat × Int
  | 0, d, e => (d, e)
  | fuel + 1, d, e => if d ≠ 0 ∧ d % 10 = 0 then strip fuel (d / 10) (e + 1) else (d, e)

/-- The same number with no trailing zeros among its digits. -/
def normal (x : Decimal) : Decimal :=
  if x.digits = 0 then { x with exponent := 0 }
  else
    let (d, e) := strip (Nat.toDigits 10 x.digits).length x.digits x.exponent
    { x with digits := d, exponent := e }

/-- An exponent of ten, always with a sign. -/
def exponentText (e : Int) : String := if 0 ≤ e then "+" ++ toString e else toString e

/-- Written form: positional between `1e-5` and `1e+16`, with a point even for whole numbers, and
scientific outside that range. -/
def render (x : Decimal) : String :=
  let x := x.normal
  let sign := if x.negative then "-" else ""
  let cs := Nat.toDigits 10 x.digits
  let point : Int := cs.length + x.exponent
  let body :=
    if x.digits = 0 then "0.0"
    else if 0 ≤ x.exponent ∧ point ≤ 16 then
      String.ofList (cs ++ List.replicate x.exponent.toNat '0') ++ ".0"
    else if 0 < point ∧ point ≤ 16 then
      String.ofList (cs.take point.toNat) ++ "." ++ String.ofList (cs.drop point.toNat)
    else if -5 < point ∧ point ≤ 0 then
      "0." ++ String.ofList (List.replicate (-point).toNat '0' ++ cs)
    else
      let fraction := if cs.length ≤ 1 then "" else "." ++ String.ofList (cs.drop 1)
      String.ofList (cs.take 1) ++ fraction ++ "e" ++ exponentText (point - 1)
  sign ++ body

end Decimal

namespace Binary64

/-- The magnitude of a number as the quotient of two natural numbers. -/
def ratio (x : Binary64) : Nat × Nat :=
  (x.mantissa <<< x.exponent.toNat, 1 <<< (-x.exponent).toNat)

/-- The number nearest to a decimal number, if there is one. -/
def ofDecimal? (x : Decimal) : Option Binary64 :=
  ofRatio? x.negative (x.digits * Nat.pow 10 x.exponent.toNat) (Nat.pow 10 (-x.exponent).toNat)

/-- The two multiples of ten to the `exponent` that are next to a number, the nearer one first. -/
def neighbours (x : Binary64) (exponent : Int) : List Decimal :=
  let (n, d) := x.ratio
  let n := n * Nat.pow 10 (-exponent).toNat
  let d := d * Nat.pow 10 exponent.toNat
  let below : Decimal := ⟨x.negative, n / d, exponent⟩
  let above : Decimal := ⟨x.negative, n / d + 1, exponent⟩
  if roundedQuotient n d = n / d then [below, above] else [above, below]

/-- No number is as small as ten to the minus `tinyPlaces`, unless it is zero. -/
def tinyPlaces : Nat := 324

/-- How many decimal places there are in front of the point of a number that is not zero; a
negative answer counts the zeros behind it. -/
def places (x : Binary64) : Int :=
  let (n, d) := x.ratio
  (Nat.toDigits 10 (n * Nat.pow 10 tinyPlaces / d)).length - tinyPlaces

/-- The decimal numbers from which a number might be read back, with one to seventeen digits. -/
def candidates (x : Binary64) : List Decimal :=
  (List.range 17).flatMap fun n : Nat => x.neighbours (x.places - (n + 1))

/-- The decimal number with the fewest digits from which a number can be read back. -/
def shortest (x : Binary64) : Decimal :=
  (x.candidates.find? fun c => ofDecimal? c = some x).getD ⟨x.negative, 0, 0⟩

/-- Written form. -/
def render (x : Binary64) : String := x.shortest.render

end Binary64

end Harvest
