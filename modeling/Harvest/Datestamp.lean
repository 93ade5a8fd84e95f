import Harvest.Fault
import Harvest.Instant

/-!
# Datestamps

Harvesters bound a listing by days (`YYYY-MM-DD`) or by seconds (`YYYY-MM-DDThh:mm:ssZ`), both
inclusive.  A lower bound is the start of its day or second and an upper bound its end, so that
records are covered whose times are shown cut to the second.
-/

namespace Harvest

/-- How precise a datestamp is. -/
inductive Granularity where
  | day
  | second
  deriving DecidableEq, Repr

namespace Granularity

/-- How many seconds a datestamp covers. -/
def span : Granularity → Int
  | day => 86400
  | second => 1

end Granularity

/-- A bound that a harvester gave: the instant it stands for, and how precise it was. -/
structure Datestamp where
  value : Instant
  granularity : Granularity
  deriving DecidableEq, Repr

namespace Datestamp

/-- The number that some digits write. -/
def number? (ds : List Char) : Option Nat :=
  if ds.all Char.isDigit then some (Nat.ofDigitChars 10 ds 0) else none

/-- The start of a real day, in seconds. -/
def daySeconds? (y m d : List Char) : Option Int := do
  let year ← number? y
  let month ← number? m
  let day ← number? d
  let date : Date := { year := (year : Int), month, day }
  if date.isReal then some (date.dayNumber * 86400) else none

/-- A time of day, in seconds; there is no second 60. -/
def clockSeconds? (h m s : List Char) : Option Int := do
  let hour ← number? h
  let minute ← number? m
  let second ← number? s
  if hour ≤ 23 ∧ minute ≤ 59 ∧ second ≤ 59 then
    some ((hour * 3600 + minute * 60 + second : Nat) : Int)
  else none

/-- The first second that a datestamp covers, and how precise it is. -/
def start? : List Char → Option (Int × Granularity)
  | [y₁, y₂, y₃, y₄, '-', m₁, m₂, '-', d₁, d₂] =>
    (daySeconds? [y₁, y₂, y₃, y₄] [m₁, m₂] [d₁, d₂]).map fun s => (s, .day)
  | [y₁, y₂, y₃, y₄, '-', m₁, m₂, '-', d₁, d₂, 'T', h₁, h₂, ':', n₁, n₂, ':', s₁, s₂, 'Z'] => do
    let day ← daySeconds? [y₁, y₂, y₃, y₄] [m₁, m₂] [d₁, d₂]
    let clock ← clockSeconds? [h₁, h₂] [n₁, n₂] [s₁, s₂]
    return (day + clock, .second)
  | _ => none

/-- The lower bound that a text stands for. -/
def lower? (cs : List Char) : Option Datestamp := do
  let (start, granularity) ← start? cs
  let value ← Instant.ofParts? start 0
  return { value, granularity }

/-- The upper bound that a text stands for: the last nanosecond it covers. -/
def upper? (cs : List Char) : Option Datestamp := do
  let (start, granularity) ← start? cs
  let value ← Instant.ofParts? (start + granularity.span - 1) (nanosPerSecond - 1)
  return { value, granularity }

/-- Read a lower bound. -/
def readLower (s : String) : Except Fault Datestamp :=
  match lower? s.toList with
  | some d => .ok d
  | none => .error (.invalidDatestamp s)

/-- Read an upper bound. -/
def readUpper (s : String) : Except Fault Datestamp :=
  match upper? s.toList with
  | some d => .ok d
  | none => .error (.invalidDatestamp s)

end Datestamp

end Harvest
