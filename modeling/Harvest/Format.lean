import Harvest.OrderedMap
import Harvest.Record

/-!
# Metadata formats

Each format has a prefix under which harvesters ask for it, and options: the record types its
listings walk through, in this order, and the size of a page.  A `FormatRegistry` keeps formats
and options under their prefixes in order of registration.
-/

namespace Harvest

/-- The page size of a format that has none of its own. -/
def defaultPageSize : Nat := 25

/-- How a format is listed. -/
structure FormatOptions where
  /-- The record types of the format, in listing order. -/
  recordTypes : List RecordType
  /-- How many records a page may hold. -/
  pageSize : Nat := defaultPageSize
  deriving DecidableEq, Repr

namespace FormatOptions

/-- The first type that a list has twice: the one whose second place is first. -/
def firstRepeated : List RecordType → List RecordType → Option RecordType
  | _, [] => none
  | seen, t :: ts => if t ∈ seen then some t else firstRepeated (t :: seen) ts

/-- Insist on at least one record type, a page size, and no type listed twice. -/
def validate (o : FormatOptions) : Except Fault Unit :=
  if o.recordTypes.isEmpty then .error .noRecordTypes
  else if o.pageSize = 0 then .error .emptyPages
  else
    match firstRepeated [] o.recordTypes with
    | some t => .error (.recordTypeTwice t.name)
    | none => .ok ()

/-- Options that are valid. -/
def make (recordTypes : List RecordType) (pageSize : Nat) : Except Fault FormatOptions := do
  let o : FormatOptions := { recordTypes, pageSize }
  o.validate
  return o

/-- Whether records of a type are available in the format. -/
def supports (o : FormatOptions) (t : RecordType) : Bool := t ∈ o.recordTypes

end FormatOptions

/-- A metadata format as a listing of formats shows it. -/
structure MetadataFormat where
  metadataPrefix : String
  schema : String
  xmlNamespace : String
  deriving DecidableEq, Repr

/-- A registered format. -/
structure FormatEntry where
  format : MetadataFormat
  options : FormatOptions
  deriving DecidableEq, Repr

/-- Formats under their prefixes, in order of registration. -/
structure FormatRegistry where
  entries : OrderedMap FormatEntry
  deriving DecidableEq, Repr

namespace FormatRegistry

/-- The registry with no formats. -/
def empty : FormatRegistry := ⟨.empty⟩

/-- Register a format, or replace it. -/
def insert (g : FormatRegistry) (f : MetadataFormat) (o : FormatOptions) : FormatRegistry :=
  ⟨g.entries.insert f.metadataPrefix ⟨f, o⟩⟩

/-- The options of a format, if it is registered. -/
def options? (g : FormatRegistry) (metadataPrefix : String) : Option FormatOptions :=
  (g.entries.find? metadataPrefix).map (·.options)

/-- The options of a format. -/
def optionsFor (g : FormatRegistry) (metadataPrefix : String) : Except Fault FormatOptions :=
  match g.options? metadataPrefix with
  | some o => .ok o
  | none => .error (.unknownFormat metadataPrefix)

/-- The description of a format, if it is registered. -/
def format? (g : FormatRegistry) (metadataPrefix : String) : Option MetadataFormat :=
  (g.entries.find? metadataPrefix).map (·.format)

/-- All formats, in order of registration. -/
def formats (g : FormatRegistry) : List MetadataFormat := g.entries.values.map (·.format)

/-- Give a registered format other options, which must be valid. -/
def override (g : FormatRegistry) (metadataPrefix : String) (o : FormatOptions) :
    Except Fault FormatRegistry := do
  o.validate
  match g.entries.find? metadataPrefix with
  | some e => return ⟨g.entries.insert metadataPrefix { e with options := o }⟩
  | none => throw (.overrideOfUnknownFormat metadataPrefix)

/-- Keep the formats whose prefix passes a test. -/
def retain (g : FormatRegistry) (keep : String → Bool) : FormatRegistry :=
  ⟨g.entries.filterNames keep⟩

/-- The standard formats and the record types they cover. -/
def standardFormats : List (MetadataFormat × List RecordType) :=
  [(⟨"oai_dc", "http://www.openarchives.org/OAI/2.0/oai_dc.xsd",
      "http://www.openarchives.org/OAI/2.0/oai_dc/"⟩, [.resource, .archivalObject]),
    (⟨"oai_dcterms", "http://dublincore.org/schemas/xmls/qdc/2008/02/11/dcterms.xsd",
      "http://purl.org/dc/terms/"⟩, [.resource, .archivalObject]),
    (⟨"oai_mods", "https://www.loc.gov/standards/mods/v3/mods-3-6.xsd",
      "http://www.loc.gov/mods/v3"⟩, [.resource, .archivalObject]),
    (⟨"oai_marc", "https://www.loc.gov/standards/marcxml/schema/MARC21slim.xsd",
      "http://www.loc.gov/MARC21/slim"⟩, [.resource, .archivalObject]),
    (⟨"oai_ead", "https://www.loc.gov/ead/ead.xsd", "http://www.loc.gov/ead/"⟩, [.resource])]

/-- The registry of the standard formats. -/
def standard : FormatRegistry :=
  standardFormats.foldl (fun g f => g.insert f.1 { recordTypes := f.2 }) empty

end FormatRegistry

end Harvest
