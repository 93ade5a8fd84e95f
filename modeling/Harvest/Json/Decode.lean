import Harvest.Json.Value
import Harvest.OrderedMap

/-!
# Decoding JSON texts

Readers for the parts of a JSON text, each of which gives `none` on a text of another shape.  A
structure is written as an object or as the list of its fields in order (`Raw.fields?`); either
way its fields are then taken by name.
-/

namespace Harvest.Json

namespace Raw

/-- A string. -/
def text? : Raw → Option String
  | .text s => s
  | _ => none

/-- A truth value. -/
def bool? : Raw → Option Bool
  | .bool b => some b
  | _ => none

/-- An integer. -/
def integer? : Raw → Option Int
  | .number n => n.integer?
  | _ => none

/-- A natural number that is no larger than `max`. -/
def natUpTo? (max : Nat) (r : Raw) : Option Nat := do
  let i ← r.integer?
  if 0 ≤ i ∧ i ≤ max then some i.toNat else none

/-- A list whose items can all be read. -/
def listOf? {α : Type} (item? : Raw → Option α) : Raw → Option (List α)
  | .list items => items.mapM item?
  | _ => none

/-- An object whose members can all be read; a repeated key keeps its first place and its last
value. -/
def mapOf? {α : Type} (value? : Raw → Option α) : Raw → Option (OrderedMap α)
  | .object members => do
    let entries ← members.mapM fun (k, r) => do return (← k, ← value? r)
    return OrderedMap.ofList entries
  | _ => none

/-- One of a few names: a string, or an object that gives the name the value null. -/
def choice? {α : Type} (ofName? : String → Option α) : Raw → Option α
  | .text s => s >>= ofName?
  | .object [(k, .null)] => k >>= ofName?
  | _ => none

end Raw

/-- The fields of a structure as they are given. -/
structure Fields where
  given : List (String × Raw)
  /-- Given as a list, in which fields can be missing at the end only. -/
  positional : Bool

namespace Fields

/-- The text of a field. -/
def look (f : Fields) (name : String) : Option Raw := OrderedMap.look name f.given

/-- A field that must be given. -/
def required {α : Type} (f : Fields) (name : String) (read? : Raw → Option α) : Option α :=
  f.look name >>= read?

/-- A field that has a value when it is not given. -/
def defaulted {α : Type} (f : Fields) (name : String) (value : α) (read? : Raw → Option α) :
    Option α :=
  match f.look name with
  | none => some value
  | some r => read? r

/-- A field that may be null. -/
def nullable {α : Type} (read? : Raw → Option α) : Raw → Option (Option α)
  | .null => some none
  | r => (read? r).map some

/-- A field that may be null, and may be missing from an object. -/
def optional {α : Type} (f : Fields) (name : String) (read? : Raw → Option α) :
    Option (Option α) :=
  match f.look name with
  | none => if f.positional then none else some none
  | some r => nullable read? r

end Fields

/-- The fields of a structure.  In an object no field may come twice, every key must be a text,
and, where `closed`, every key must be the name of a field.  A list must not be longer than the
list of fields. -/
def Raw.fields? (names : List String) (closed : Bool) : Raw → Option Fields
  | .list items =>
    if items.length ≤ names.length then some ⟨names.zip items, true⟩ else none
  | .object members => do
    let given ← members.mapM fun (k, r) => k.map fun k => (k, r)
    let keys := given.map Prod.fst
    if names.any fun n => 1 < keys.count n then none
    else if closed && keys.any (· ∉ names) then none
    else some ⟨given, false⟩
  | _ => none

/-- The largest natural number of 64 bits. -/
def max64 : Nat := 0xFFFFFFFFFFFFFFFF

/-- The largest natural number of 32 bits. -/
def max32 : Nat := 0xFFFFFFFF

end Harvest.Json
