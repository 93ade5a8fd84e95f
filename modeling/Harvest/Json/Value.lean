import Harvest.Binary64.Shortest
import Harvest.Json.Raw

/-!
# JSON values

`Json` is what a JSON text means: numbers are integers or floating-point numbers of 64 bits,
strings are texts, and the keys of an object read from a text are distinct and sorted.
`Json.Raw.value?` takes the meaning of a text, `Json.render` writes a value compactly.
-/

namespace Harvest

/-- A JSON value.  Objects hold their members in the order in which they are written. -/
inductive Json where
  | null
  | bool (b : Bool)
  | int (n : Int)
  | real (x : Binary64)
  | text (s : String)
  | list (items : List Json)
  | object (members : List (String × Json))
  deriving Repr

namespace Json

/-! ### Writing -/

/-- The digit of a value below sixteen. -/
def hexChar (n : Nat) : Char := if n < 10 then Char.ofNat (48 + n) else Char.ofNat (87 + n)

/-- A character inside a string.  Quotes, backslashes and control characters are escaped, by a
letter if they have one. -/
def escapeChar (c : Char) : List Char :=
  if c = '"' then ['\\', '"']
  else if c = '\\' then ['\\', '\\']
  else if c = '\x08' then ['\\', 'b']
  else if c = '\x0c' then ['\\', 'f']
  else if c = '\n' then ['\\', 'n']
  else if c = '\r' then ['\\', 'r']
  else if c = '\t' then ['\\', 't']
  else if c.toNat < 0x20 then ['\\', 'u', '0', '0', hexChar (c.toNat / 16), hexChar (c.toNat % 16)]
  else [c]

/-- A string in quotes. -/
def renderText (s : String) : List Char := '"' :: (s.toList.flatMap escapeChar ++ ['"'])

/-- An integer in decimal. -/
def renderInt : Int → List Char
  | .ofNat n => Nat.toDigits 10 n
  | .negSucc n => '-' :: Nat.toDigits 10 (n + 1)

mutual

/-- The compact text of a value. -/
def chars : Json → List Char
  | .null => ['n', 'u', 'l', 'l']
  | .bool true => ['t', 'r', 'u', 'e']
  | .bool false => ['f', 'a', 'l', 's', 'e']
  | .int n => renderInt n
  | .real x => x.render.toList
  | .text s => renderText s
  | .list items => '[' :: (itemChars items ++ [']'])
  | .object members => '\x7b' :: (memberChars members ++ ['\x7d'])

/-- Items with commas between them. -/
def itemChars : List Json → List Char
  | [] => []
  | [v] => v.chars
  | v :: vs => v.chars ++ ',' :: itemChars vs

/-- Members with commas between them. -/
def memberChars : List (String × Json) → List Char
  | [] => []
  | [(k, v)] => renderText k ++ ':' :: v.chars
  | (k, v) :: ms => renderText k ++ ':' :: (v.chars ++ ',' :: memberChars ms)

end

/-- The compact text of a value. -/
def render (v : Json) : String := String.ofList v.chars

/-! ### The meaning of a text -/

/-- Put a member into an object sorted by keys, in place of one with the same key. -/
def putMember (k : String) (v : Json) : List (String × Json) → List (String × Json)
  | [] => [(k, v)]
  | m :: ms =>
    if k < m.1 then (k, v) :: m :: ms
    else if k = m.1 then (k, v) :: ms
    else m :: putMember k v ms

/-- The least integer that is kept as one. -/
def minInt : Int := -0x8000000000000000

/-- The largest integer that is kept as one. -/
def maxInt : Int := 0xFFFFFFFFFFFFFFFF

/-- The value of a number: a 64-bit integer where it is written as one and fits, else a
floating-point number. -/
def ofNumeral? (n : Numeral) : Option Json :=
  match n.integer? with
  | some i => if minInt ≤ i ∧ i ≤ maxInt then some (.int i) else n.real?.map .real
  | none => n.real?.map .real

mutual

/-- The meaning of a text, with at most `depth` lists and objects inside each other. -/
def Raw.value? (depth : Nat) : Raw → Option Json
  | .null => some .null
  | .bool b => some (.bool b)
  | .number n => ofNumeral? n
  | .text s => s.map .text
  | .list items =>
    match depth with
    | 0 => none
    | depth + 1 => (Raw.values? depth items).map .list
  | .object members =>
    match depth with
    | 0 => none
    | depth + 1 => (Raw.memberValues? depth members []).map .object

/-- The meanings of a list's items. -/
def Raw.values? (depth : Nat) : List Raw → Option (List Json)
  | [] => some []
  | r :: rs => do
    let v ← r.value? depth
    let vs ← Raw.values? depth rs
    return v :: vs

/-- The meanings of an object's members, added to those in front: a later member takes the place
of an earlier one with the same key. -/
def Raw.memberValues? (depth : Nat) :
    List (Option String × Raw) → List (String × Json) → Option (List (String × Json))
  | [], found => some found
  | (k, r) :: ms, found => do
    let k ← k
    let v ← r.value? depth
    Raw.memberValues? depth ms (putMember k v found)

end

end Json

end Harvest
