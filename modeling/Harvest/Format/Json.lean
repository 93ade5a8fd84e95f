import Harvest.Format
import Harvest.Json.Decode
import Harvest.Record.Json

/-!
# Formats as JSON

Descriptions and options of formats, read from and written as structures.
-/

namespace Harvest

open Json

/-- Read the options of a format. -/
def FormatOptions.ofRaw? (r : Raw) : Option FormatOptions := do
  let f ← r.fields? ["record_types", "page_size"] true
  return {
    recordTypes := ← f.required "record_types" (Raw.listOf? Raw.recordType?)
    pageSize := ← f.defaulted "page_size" defaultPageSize (Raw.natUpTo? max64) }

/-- The options of a format as JSON. -/
def FormatOptions.toJson (o : FormatOptions) : Json :=
  .object [("record_types", .list (o.recordTypes.map fun t => .text t.name)),
    ("page_size", .int o.pageSize)]

/-- Read the description of a format. -/
def MetadataFormat.ofRaw? (r : Raw) : Option MetadataFormat := do
  let f ← r.fields? ["prefix", "schema", "namespace"] false
  return {
    metadataPrefix := ← f.required "prefix" Raw.text?
    schema := ← f.required "schema" Raw.text?
    xmlNamespace := ← f.required "namespace" Raw.text? }

/-- The description of a format as JSON. -/
def MetadataFormat.toJson (f : MetadataFormat) : Json :=
  .object [("prefix", .text f.metadataPrefix), ("schema", .text f.schema),
    ("namespace", .text f.xmlNamespace)]

end Harvest
