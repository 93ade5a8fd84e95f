import Harvest.Text.Unseen

/-!
# Texts

What the formats of this library ask of texts: their bytes in UTF-8 (`bytesOf`, `textOf?`), the
blanks that may surround the parts of a time that is read leniently (`isBlank`), and the form in
which they stand in log lines and diagnostics (`quoted`).
-/

namespace Harvest

/-! ### Bytes -/

/-- The bytes of a text. -/
def bytesOf (s : String) : List UInt8 := s.toByteArray.data.toList

/-- The text that bytes spell, if they spell one. -/
def textOf? (bs : List UInt8) : Option String := String.fromUTF8? ⟨bs.toArray⟩

/-! ### Blanks -/

/-- The characters that Unicode counts as white space, as ranges of code points. -/
def blankRanges : List (Nat × Nat) :=
  [(0x0009, 0x000D), (0x0020, 0x0020), (0x0085, 0x0085), (0x00A0, 0x00A0), (0x1680, 0x1680),
    (0x2000, 0x200A), (0x2028, 0x2029), (0x202F, 0x202F), (0x205F, 0x205F), (0x3000, 0x3000)]

/-- Whether a character is a blank. -/
def isBlank (c : Char) : Bool := blankRanges.any fun r => r.1 ≤ c.toNat && c.toNat ≤ r.2

/-- Drop the blanks in front. -/
def dropBlanks (cs : List Char) : List Char := cs.dropWhile isBlank

/-! ### Quotes -/

/-- The code point of a character, for one that cannot be seen. -/
def codePoint (c : Char) : List Char :=
  ['\\', 'u', '\x7b'] ++ Nat.toDigits 16 c.toNat ++ ['\x7d']

/-- A character inside quotes.  Quotes and backslashes are escaped, common control characters have
a letter, and what cannot be seen is named by its code point. -/
def quoteChar (c : Char) : List Char :=
  if c = '"' then ['\\', '"']
  else if c = '\\' then ['\\', '\\']
  else if c = '\x00' then ['\\', '0']
  else if c = '\t' then ['\\', 't']
  else if c = '\n' then ['\\', 'n']
  else if c = '\r' then ['\\', 'r']
  else if isUnseen c then codePoint c
  else [c]

/-- A text in quotes. -/
def quoted (s : String) : String :=
  String.ofList ('"' :: (s.toList.flatMap quoteChar ++ ['"']))

end Harvest
