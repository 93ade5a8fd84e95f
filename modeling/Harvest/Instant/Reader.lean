import Harvest.Instant
import Harvest.Text

/-!
# Reading times

Times inside records and tokens are read leniently (`Instant.ofText?`): blanks may stand around
the parts of date and time, numbers may be short, years may have a sign, a blank may stand for
the `T`, and an offset from UTC may be written in several ways.  What `Instant.render` writes is
read back as it was.
-/

namespace Harvest.Instant.Reader

/-- Up to `limit` digits at the front, and the rest. -/
def takeDigits : Nat → List Char → List Char × List Char
  | 0, cs => ([], cs)
  | _, [] => ([], [])
  | limit + 1, c :: cs =>
    if c.isDigit then
      let (ds, rest) := takeDigits limit cs
      (c :: ds, rest)
    else ([], c :: cs)

/-- A number of one to `limit` digits. -/
def number? (limit : Nat) (cs : List Char) : Option (Nat × List Char) :=
  match takeDigits limit cs with
  | ([], _) => none
  | (ds, rest) => some (Nat.ofDigitChars 10 ds 0, rest)

/-- A year: one to four digits, or any number of them after a sign. -/
def year? (cs : List Char) : Option (Int × List Char) :=
  match dropBlanks cs with
  | '-' :: r => (number? r.length r).map fun (n, rest) => (-(n : Int), rest)
  | '+' :: r => (number? r.length r).map fun (n, rest) => ((n : Int), rest)
  | r => (number? 4 r).map fun (n, rest) => ((n : Int), rest)

/-- A number of one or two digits, after blanks. -/
def field? (cs : List Char) : Option (Nat × List Char) := number? 2 (dropBlanks cs)

/-- A fixed character, after blanks. -/
def mark? (m : Char) (cs : List Char) : Option (List Char) :=
  match dropBlanks cs with
  | c :: rest => if c = m then some rest else none
  | [] => none

/-- A date. -/
def date? (cs : List Char) : Option (Date × List Char) := do
  let (year, cs) ← year? cs
  let cs ← mark? '-' cs
  let (month, cs) ← field? cs
  let cs ← mark? '-' cs
  let (day, cs) ← field? cs
  return ({ year, month, day }, cs)

/-- What may stand between date and time. -/
def separator? : List Char → Option (List Char)
  | c :: rest => if c = 'T' ∨ c = 't' ∨ c = ' ' then some rest else none
  | [] => none

/-- Hours, minutes and seconds. -/
def clock? (cs : List Char) : Option ((Nat × Nat × Nat) × List Char) := do
  let (hour, cs) ← field? cs
  let cs ← mark? ':' cs
  let (minute, cs) ← field? cs
  let cs ← mark? ':' cs
  let (second, cs) ← field? cs
  return ((hour, minute, second), cs)

/-- The nanoseconds of a fraction, if there is one; digits after the ninth are skipped. -/
def fraction? : List Char → Option (Nat × List Char)
  | '.' :: cs =>
    match takeDigits 9 cs with
    | ([], _) => none
    | (ds, rest) =>
      let ds := ds ++ List.replicate (9 - ds.length) '0'
      some (Nat.ofDigitChars 10 ds 0, rest.dropWhile Char.isDigit)
  | cs => some (0, cs)

/-- Two digits, the first no larger than `tens`. -/
def pair? (tens : Char) : List Char → Option (Nat × List Char)
  | a :: b :: rest =>
    if a.isDigit ∧ a ≤ tens ∧ b.isDigit then some (Nat.ofDigitChars 10 [a, b] 0, rest) else none
  | _ => none

/-- Hours and minutes of an offset, in seconds. -/
def span? (cs : List Char) : Option (Int × List Char) := do
  let (hours, cs) ← pair? '9' cs
  let (minutes, cs) ← pair? '5' (cs.dropWhile fun c => c = ':' || isBlank c)
  return ((hours * 3600 + minutes * 60 : Nat), cs)

/-- An offset from UTC, in seconds: `UTC` or `Z` in any case, or a signed span. -/
def offset? : List Char → Option (Int × List Char)
  | [] => none
  | c :: cs =>
    match c, cs with
    | u, t :: v :: rest =>
      if u.toUpper = 'U' ∧ t.toUpper = 'T' ∧ v.toUpper = 'C' then some (0, rest)
      else signed c cs
    | _, _ => signed c cs
where
  /-- An offset that is not written `UTC`. -/
  signed (c : Char) (cs : List Char) : Option (Int × List Char) :=
    if c = 'Z' ∨ c = 'z' then some (0, cs)
    else if c = '+' then span? cs
    else if c = '-' ∨ c = '\u2212' then (span? cs).map fun (s, rest) => (-s, rest)
    else none

/-- The instant of a date, a time of day, nanoseconds and an offset.  Second 60 is a leap
second. -/
def instant? (date : Date) (hour minute second nanos : Nat) (offset : Int) : Option Instant :=
  if date.isReal ∧ Date.minYear ≤ date.year ∧ date.year ≤ Date.maxYear ∧
      hour ≤ 23 ∧ minute ≤ 59 ∧ second ≤ 60 ∧ -86400 < offset ∧ offset < 86400 then
    let seconds := date.dayNumber * 86400 + hour * 3600 + minute * 60 + min second 59 - offset
    ofParts? seconds (nanos + (if second = 60 then nanosPerSecond else 0))
  else none

end Reader

/-- Read a time leniently. -/
def ofChars? (cs : List Char) : Option Instant := do
  let (date, cs) ← Reader.date? cs
  let cs ← Reader.separator? cs
  let ((hour, minute, second), cs) ← Reader.clock? cs
  let (nanos, cs) ← Reader.fraction? cs
  let (offset, cs) ← Reader.offset? (dropBlanks cs)
  if (dropBlanks cs).isEmpty then Reader.instant? date hour minute second nanos offset else none

/-- Read a time leniently. -/
def ofText? (s : String) : Option Instant := ofChars? s.toList

end Harvest.Instant
