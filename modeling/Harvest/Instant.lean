import Harvest.Calendar

/-!
# Instants

An instant is a number of seconds since the start of 1970, in UTC, and a number of nanoseconds.
A leap second is kept as part of the second before it, which then has more than a thousand million
nanoseconds.  Times that are read have leap seconds at the end of a minute only
(`Instant.ofParts?`); the times of stored records may have them anywhere.  Instants are ordered by
seconds, then by nanoseconds.
-/

namespace Harvest

/-- Nanoseconds in a second. -/
def nanosPerSecond : Nat := 1000000000

/-- A point in time between the years -262143 and 262142. -/
@[ext]
structure Instant where
  seconds : Int
  nanos : Nat
  min_le : -8334601228800 ≤ seconds := by omega
  le_max : seconds ≤ 8210266876799 := by omega
  nanos_lt : nanos < 2 * nanosPerSecond := by decide
  deriving DecidableEq

namespace Instant

/-- Not in a leap second, or in one that ends a minute. -/
def IsAligned (t : Instant) : Prop := nanosPerSecond ≤ t.nanos → t.seconds % 60 = 59

instance (t : Instant) : Decidable t.IsAligned := inferInstanceAs (Decidable (_ → _))

/-- The instant of a second and a nanosecond within it, if they can be read as one.  A leap second
must end a minute. -/
def ofParts? (seconds : Int) (nanos : Nat) : Option Instant :=
  if h : (-8334601228800 ≤ seconds ∧ seconds ≤ 8210266876799) ∧ nanos < 2 * nanosPerSecond ∧
      (nanosPerSecond ≤ nanos → seconds % 60 = 59) then
    some ⟨seconds, nanos, h.1.1, h.1.2, h.2.1⟩
  else none

/-- The start of 1970. -/
def epoch : Instant := { seconds := 0, nanos := 0 }

/-- The first instant. -/
def first : Instant := { seconds := -8334601228800, nanos := 0 }

instance : Inhabited Instant := ⟨epoch⟩

instance : Repr Instant := ⟨fun t _ => repr (t.seconds, t.nanos)⟩

instance : LT Instant :=
  ⟨fun s t => s.seconds < t.seconds ∨ s.seconds = t.seconds ∧ s.nanos < t.nanos⟩

instance : LE Instant :=
  ⟨fun s t => s.seconds < t.seconds ∨ s.seconds = t.seconds ∧ s.nanos ≤ t.nanos⟩

theorem lt_def {s t : Instant} :
    s < t ↔ s.seconds < t.seconds ∨ s.seconds = t.seconds ∧ s.nanos < t.nanos := Iff.rfl

theorem le_def {s t : Instant} :
    s ≤ t ↔ s.seconds < t.seconds ∨ s.seconds = t.seconds ∧ s.nanos ≤ t.nanos := Iff.rfl

instance (s t : Instant) : Decidable (s < t) := decidable_of_iff _ lt_def.symm

instance (s t : Instant) : Decidable (s ≤ t) := decidable_of_iff _ le_def.symm

/-- The place of an instant in an order-preserving numbering from zero. -/
def rank (t : Instant) : Nat :=
  (t.seconds + 8334601228800).toNat * (2 * nanosPerSecond) + t.nanos

theorem lt_iff_rank_lt {s t : Instant} : s < t ↔ s.rank < t.rank := by
  have hs := s.nanos_lt
  have hs' := s.min_le
  have ht := t.nanos_lt
  have ht' := t.min_le
  rw [lt_def]
  simp only [rank, nanosPerSecond] at *
  omega

/-- One more than the largest rank. -/
def ranks : Nat := 16544868105600 * (2 * nanosPerSecond)

theorem rank_lt_ranks (t : Instant) : t.rank < ranks := by
  have := t.nanos_lt
  have := t.min_le
  have := t.le_max
  simp only [rank, ranks, nanosPerSecond] at *
  omega

/-! ### Text -/

/-- A natural number in decimal, filled up with zeros in front. -/
def padded (width n : Nat) : List Char :=
  let ds := Nat.toDigits 10 n
  List.replicate (width - ds.length) '0' ++ ds

/-- A year: four digits, and a sign outside the years 0 to 9999. -/
def yearChars (year : Int) : List Char :=
  if year < 0 then '-' :: padded 4 year.natAbs
  else if year ≤ 9999 then padded 4 year.natAbs
  else '+' :: padded 4 year.natAbs

/-- The instant's date. -/
def date (t : Instant) : Date := Date.ofDayNumber (t.seconds / 86400)

/-- The second within the day. -/
def secondOfDay (t : Instant) : Nat := (t.seconds % 86400).toNat

/-- Date and time of day up to the second.  A leap second is counted as the second behind, which is
second 60 at the end of a minute. -/
def baseChars (t : Instant) : List Char :=
  let d := t.date
  let s := t.secondOfDay
  let second := s % 60 + t.nanos / nanosPerSecond
  yearChars d.year ++ '-' :: padded 2 d.month ++ '-' :: padded 2 d.day ++
    'T' :: padded 2 (s / 3600) ++ ':' :: padded 2 (s / 60 % 60) ++ ':' :: padded 2 second

/-- The fraction of a second, in as many groups of three digits as are needed. -/
def fractionChars (t : Instant) : List Char :=
  let n := t.nanos % nanosPerSecond
  if n = 0 then []
  else if n % 1000000 = 0 then '.' :: padded 3 (n / 1000000)
  else if n % 1000 = 0 then '.' :: padded 6 (n / 1000)
  else '.' :: padded 9 n

/-- The exact text of an instant. -/
def chars (t : Instant) : List Char := t.baseChars ++ (t.fractionChars ++ ['Z'])

/-- The exact text of an instant. -/
def render (t : Instant) : String := String.ofList t.chars

/-- The text of an instant cut to seconds, as answers show it. -/
def datestamp (t : Instant) : String := String.ofList (t.baseChars ++ ['Z'])

end Instant

end Harvest
