import Harvest.OrderedMap
import Harvest.Record
import Harvest.Text

/-!
# Mappers

A mapper turns a record into the XML of one metadata format.  Mappers are registered under the
prefix of their format.
-/

namespace Harvest

/-- Makes the metadata of a record; its text goes into an answer as it is. -/
abbrev Mapper := Record → Except Fault String

/-- Mappers under the prefixes of their formats. -/
structure MapperRegistry where
  mappers : OrderedMap Mapper

namespace MapperRegistry

/-- The registry with no mappers. -/
def empty : MapperRegistry := ⟨.empty⟩

/-- Register a mapper, or replace it. -/
def register (g : MapperRegistry) (metadataPrefix : String) (m : Mapper) : MapperRegistry :=
  ⟨g.mappers.insert metadataPrefix m⟩

/-- Whether a format has a mapper. -/
def contains (g : MapperRegistry) (metadataPrefix : String) : Bool :=
  g.mappers.contains metadataPrefix

/-- The metadata of a record in a format. -/
def map (g : MapperRegistry) (metadataPrefix : String) (r : Record) : Except Fault String :=
  match g.mappers.find? metadataPrefix with
  | some m => m r
  | none => .error (.noMapper metadataPrefix)

/-- A registry in diagnostics: its prefixes, sorted. -/
def describe (g : MapperRegistry) : String :=
  "MapperRegistry \x7b prefixes: [" ++
    ", ".intercalate ((g.mappers.names.mergeSort fun a b => !(b < a)).map quoted) ++ "] \x7d"

end MapperRegistry

end Harvest
