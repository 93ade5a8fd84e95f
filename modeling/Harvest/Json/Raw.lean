import Harvest.Json.Lexeme

/-!
# JSON text as it is written

`Json.Raw` is the tree that a text spells out: members in the order of the text, repeated keys
included, numbers as numerals, and `none` for a string that stands for no text.  `Raw.ofText?`
reads it from the lexemes with an explicit stack of the lists and objects that are open, so that
no depth of nesting is too much.
-/

namespace Harvest.Json

/-- A JSON text as a tree. -/
inductive Raw where
  | null
  | bool (b : Bool)
  | number (n : Numeral)
  | text (s : Option String)
  | list (items : List Raw)
  | object (members : List (Option String × Raw))
  deriving Repr

/-- A list or object that is open, with what it holds so far, latest first. -/
inductive Frame where
  | list (items : List Raw)
  | object (members : List (Option String × Raw))
  /-- An object in which a key has been read and its value is due. -/
  | member (members : List (Option String × Raw)) (key : Option String)
  deriving Repr

/-- What may come next. -/
inductive Want where
  | value
  /-- A value, or the end of the list that was just opened. -/
  | item
  /-- A key, or the end of the object that was just opened. -/
  | member
  | key
  | colon
  /-- A comma, or the end of what is open. -/
  | separator
  deriving DecidableEq, Repr

/-- A reader is inside a text, or has read it. -/
inductive Reader where
  | reading (frames : List Frame) (want : Want)
  | done (value : Raw)
  deriving Repr

namespace Reader

/-- Add a finished value to what is open. -/
def put (v : Raw) : List Frame → Option Reader
  | [] => some (.done v)
  | .list items :: fs => some (.reading (.list (v :: items) :: fs) .separator)
  | .member members key :: fs => some (.reading (.object ((key, v) :: members) :: fs) .separator)
  | .object _ :: _ => none

/-- Start a value, where one is due. -/
def value (frames : List Frame) : Lexeme → Option Reader
  | .null => put .null frames
  | .bool b => put (.bool b) frames
  | .number n => put (.number n) frames
  | .text s => put (.text s) frames
  | .openList => some (.reading (.list [] :: frames) .item)
  | .openObject => some (.reading (.object [] :: frames) .member)
  | _ => none

/-- Read a key, where one is due. -/
def key : List Frame → Lexeme → Option Reader
  | .object members :: fs, .text s => some (.reading (.member members s :: fs) .colon)
  | _, _ => none

/-- Close what is open. -/
def close : List Frame → Lexeme → Option Reader
  | .list items :: fs, .closeList => put (.list items.reverse) fs
  | .object members :: fs, .closeObject => put (.object members.reverse) fs
  | _, _ => none

/-- Take one lexeme. -/
def step : Reader → Lexeme → Option Reader
  | .done _, _ => none
  | .reading frames .value, l => value frames l
  | .reading frames .item, l => if l = .closeList then close frames l else value frames l
  | .reading frames .member, l => if l = .closeObject then close frames l else key frames l
  | .reading frames .key, l => key frames l
  | .reading frames .colon, l => if l = .colon then some (.reading frames .value) else none
  | .reading frames .separator, l =>
    if l = .comma then
      match frames with
      | .list _ :: _ => some (.reading frames .value)
      | .object _ :: _ => some (.reading frames .key)
      | _ => none
    else close frames l

/-- Take a run of lexemes. -/
def run (r : Reader) : List Lexeme → Option Reader
  | [] => some r
  | l :: ls =>
    match r.step l with
    | none => none
    | some r' => r'.run ls

/-- The value, once the text has ended. -/
def finish : Reader → Option Raw
  | .done v => some v
  | .reading _ _ => none

end Reader

/-- The tree that lexemes spell out. -/
def Raw.ofLexemes? (ls : List Lexeme) : Option Raw :=
  match (Reader.reading [] .value).run ls with
  | none => none
  | some r => r.finish

/-- Read a JSON text. -/
def Raw.ofText? (s : String) : Option Raw :=
  match lexemes? s.toList with
  | none => none
  | some ls => Raw.ofLexemes? ls

end Harvest.Json
