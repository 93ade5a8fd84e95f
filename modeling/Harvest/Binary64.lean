/-!
# Floating-point numbers

The finite numbers of the 64-bit binary format: a sign, and a magnitude that is a mantissa of at
most 53 bits times a power of two.  Every operation is exact on natural numbers and then rounds
once (`Binary64.ofRatio?`): to the nearest number, and to the one with an even mantissa when two
are equally near.  A result beyond the largest number is none.

Powers of two are written as shifts.
-/

namespace Harvest

/-- A finite number of 64 bits: `mantissa` times two to the `exponent`, with a sign.  The mantissa
has 53 bits unless the exponent is the least one, and zero has the least exponent. -/
structure Binary64 where
  negative : Bool
  mantissa : Nat
  exponent : Int
  deriving DecidableEq, Repr

namespace Binary64

/-- The exponent of the smallest numbers. -/
def leastExponent : Int := -1074

/-- The exponent of the largest numbers. -/
def largestExponent : Int := 971

/-- One more than the largest mantissa. -/
def mantissas : Nat := 0x20000000000000

/-- Zero. -/
def zero : Binary64 := ⟨false, 0, leastExponent⟩

/-- Whether a number is zero, of either sign. -/
def isZero (x : Binary64) : Bool := x.mantissa = 0

/-! ### Rounding -/

/-- A quotient rounded to a whole number; a half goes to the even side. -/
def roundedQuotient (n d : Nat) : Nat :=
  if 2 * (n % d) < d ∨ 2 * (n % d) = d ∧ n / d % 2 = 0 then n / d else n / d + 1

/-- The quotient of two numbers in units of two to the `exponent`, again as two numbers. -/
def inUnits (n d : Nat) (exponent : Int) : Nat × Nat :=
  (n <<< (-exponent).toNat, d <<< exponent.toNat)

/-- The exponent that gives a quotient a mantissa of 53 bits, or the least one. -/
def exponentFor (n d : Nat) : Int :=
  let e : Int := n.log2 - d.log2 - 53
  let (n', d') := inUnits n d e
  max leastExponent (if n' / d' < mantissas then e else e + 1)

/-- The number nearest to a quotient, if there is one. -/
def ofRatio? (negative : Bool) (n d : Nat) : Option Binary64 :=
  if n = 0 then some { zero with negative }
  else
    let e := exponentFor n d
    let (n', d') := inUnits n d e
    let m := roundedQuotient n' d'
    let x : Binary64 :=
      if m = mantissas then ⟨negative, mantissas / 2, e + 1⟩ else ⟨negative, m, e⟩
    if x.exponent ≤ largestExponent then some x else none

/-- The number nearest to a natural number, if there is one. -/
def ofNat? (n : Nat) : Option Binary64 := ofRatio? false n 1

/-! ### Arithmetic -/

/-- The product of two numbers. -/
def mul? (x y : Binary64) : Option Binary64 :=
  let e := x.exponent + y.exponent
  ofRatio? (x.negative ^^ y.negative) ((x.mantissa * y.mantissa) <<< e.toNat) (1 <<< (-e).toNat)

/-- The quotient of two numbers, the second of which is not zero. -/
def div? (x y : Binary64) : Option Binary64 :=
  let e := x.exponent - y.exponent
  ofRatio? (x.negative ^^ y.negative) (x.mantissa <<< e.toNat) (y.mantissa <<< (-e).toNat)

/-- The number nearest to a power of ten, if there is one. -/
def tenTo? (n : Nat) : Option Binary64 := ofNat? (Nat.pow 10 n)

/-- The largest power of ten that is a number. -/
def largestTen : Nat := 308

/-- Divide a number by the largest power of ten again and again, as long as it is not zero. -/
def shrink? : Nat → Binary64 → Option Binary64
  | 0, x => some x
  | steps + 1, x =>
    if x.isZero then some x else tenTo? largestTen >>= x.div? >>= shrink? steps

/-- Multiply a number by a power of ten, or divide it by one.  The power is rounded before it is
used, and one that is too large to divide by is taken in several steps. -/
def timesTenTo? (x : Binary64) : Int → Option Binary64
  | .ofNat e =>
    if x.isZero then some x
    else if e ≤ largestTen then tenTo? e >>= x.mul?
    else none
  | .negSucc e => do
    let y ← x.shrink? (e / largestTen)
    let power ← tenTo? (e % largestTen + 1)
    y.div? power

end Binary64

end Harvest
