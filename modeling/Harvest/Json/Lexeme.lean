import Harvest.Json.Number

/-!
# Lexemes of JSON text

`Json.lexemes?` splits a text into its lexemes, one character after the other (`Scan.step`).
A string is decoded on the way.  Escapes name UTF-16 units, and a string whose units do not pair
up is well written but stands for no text: its lexeme holds `none`.
-/

namespace Harvest.Json

/-- The smallest parts of JSON text. -/
inductive Lexeme where
  | openList
  | closeList
  | openObject
  | closeObject
  | colon
  | comma
  | null
  | bool (b : Bool)
  | number (n : Numeral)
  | text (s : Option String)
  deriving DecidableEq, Repr

/-! ### Strings -/

/-- The first half of a surrogate pair. -/
def isHighSurrogate (u : Nat) : Bool := 0xD800 ≤ u && u ≤ 0xDBFF

/-- The second half of a surrogate pair. -/
def isLowSurrogate (u : Nat) : Bool := 0xDC00 ≤ u && u ≤ 0xDFFF

/-- Put surrogate pairs together; a half without its partner stands for no text. -/
def assemble : List Nat → Option (List Char)
  | [] => some []
  | [u] => if isHighSurrogate u || isLowSurrogate u then none else some [Char.ofNat u]
  | u :: v :: us =>
    if isHighSurrogate u then
      if isLowSurrogate v then
        (assemble us).map (Char.ofNat (0x10000 + (u - 0xD800) * 0x400 + (v - 0xDC00)) :: ·)
      else none
    else if isLowSurrogate u then none
    else (assemble (v :: us)).map (Char.ofNat u :: ·)

/-- What a one-letter escape stands for. -/
def unescape? : Char → Option Nat
  | '"' => some 0x22
  | '\\' => some 0x5C
  | '/' => some 0x2F
  | 'b' => some 0x08
  | 'f' => some 0x0C
  | 'n' => some 0x0A
  | 'r' => some 0x0D
  | 't' => some 0x09
  | _ => none

/-- The value of a hexadecimal digit. -/
def hexDigit? (c : Char) : Option Nat :=
  if '0' ≤ c ∧ c ≤ '9' then some (c.toNat - 48)
  else if 'a' ≤ c ∧ c ≤ 'f' then some (c.toNat - 87)
  else if 'A' ≤ c ∧ c ≤ 'F' then some (c.toNat - 55)
  else none

/-! ### The scanner -/

/-- Where the scanner is.  Lists hold the latest element first. -/
inductive Scan where
  /-- Between lexemes. -/
  | gap
  /-- In a number or a name. -/
  | word (cs : List Char)
  /-- In a string, with the code points and units read. -/
  | text (us : List Nat)
  /-- In a string, after a backslash. -/
  | escape (us : List Nat)
  /-- In a string, in an escape of four hexadecimal digits: those still to come, and the value
  of those read. -/
  | hex (us : List Nat) (left : Nat) (value : Nat)
  deriving DecidableEq, Repr

/-- The lexeme a finished word stands for. -/
def wordLexeme? (cs : List Char) : Option Lexeme :=
  if cs = ['n', 'u', 'l', 'l'] then some .null
  else if cs = ['t', 'r', 'u', 'e'] then some (.bool true)
  else if cs = ['f', 'a', 'l', 's', 'e'] then some (.bool false)
  else (Numeral.ofWord? cs).map .number

/-- Blanks may stand between lexemes. -/
def isGap (c : Char) : Bool := c = ' ' || c = '\t' || c = '\n' || c = '\r'

/-- The characters of numbers and names. -/
def isWordChar (c : Char) : Bool := c.isAlphanum || c = '+' || c = '-' || c = '.'

/-- The lexemes of one character. -/
def mark? : Char → Option Lexeme
  | '[' => some .openList
  | ']' => some .closeList
  | '\x7b' => some .openObject
  | '\x7d' => some .closeObject
  | ':' => some .colon
  | ',' => some .comma
  | _ => none

/-- A scanner's place, and the lexemes found so far, latest first. -/
structure Scanner where
  place : Scan := .gap
  found : List Lexeme := []
  deriving DecidableEq, Repr

/-- Take a character that stands between lexemes or starts one. -/
def start? (found : List Lexeme) (c : Char) : Option Scanner :=
  if isGap c then some ⟨.gap, found⟩
  else if c = '"' then some ⟨.text [], found⟩
  else if isWordChar c then some ⟨.word [c], found⟩
  else (mark? c).map fun m => ⟨.gap, m :: found⟩

/-- Take one character. -/
def Scanner.step (s : Scanner) (c : Char) : Option Scanner :=
  match s.place with
  | .gap => start? s.found c
  | .word cs =>
    if isWordChar c then some ⟨.word (c :: cs), s.found⟩
    else do
      let l ← wordLexeme? cs.reverse
      start? (l :: s.found) c
  | .text us =>
    if c = '"' then some ⟨.gap, .text ((assemble us.reverse).map String.ofList) :: s.found⟩
    else if c = '\\' then some ⟨.escape us, s.found⟩
    else if c.toNat < 0x20 then none
    else some ⟨.text (c.toNat :: us), s.found⟩
  | .escape us =>
    if c = 'u' then some ⟨.hex us 4 0, s.found⟩
    else (unescape? c).map fun u => ⟨.text (u :: us), s.found⟩
  | .hex us left value => do
    let d ← hexDigit? c
    let value := value * 16 + d
    if left ≤ 1 then some ⟨.text (value :: us), s.found⟩
    else some ⟨.hex us (left - 1) value, s.found⟩

/-- The lexemes found once the text has ended; a string must not be open. -/
def Scanner.finish (s : Scanner) : Option (List Lexeme) :=
  match s.place with
  | .gap => some s.found.reverse
  | .word cs => do
    let l ← wordLexeme? cs.reverse
    return (l :: s.found).reverse
  | _ => none

/-- Take a run of characters. -/
def Scanner.run (s : Scanner) : List Char → Option Scanner
  | [] => some s
  | c :: cs =>
    match s.step c with
    | none => none
    | some s' => s'.run cs

/-- The lexemes of a text. -/
def lexemes? (cs : List Char) : Option (List Lexeme) :=
  match ({} : Scanner).run cs with
  | none => none
  | some s => s.finish

end Harvest.Json
