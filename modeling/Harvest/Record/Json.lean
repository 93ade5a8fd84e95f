import Harvest.Instant.Reader
import Harvest.Json.Decode
import Harvest.Record

/-!
# Records as JSON

A record is read from a structure of fourteen fields and written as one.  Fields beside these
are ignored when a record is read, whatever they hold.
-/

namespace Harvest

open Json

namespace Json.Raw

/-- A time. -/
def instant? (r : Raw) : Option Instant := r.text? >>= Instant.ofText?

/-- A 64-bit number. -/
def id? (r : Raw) : Option UInt64 := (r.natUpTo? max64).map Nat.toUInt64

/-- The number of a repository. -/
def repository? (r : Raw) : Option UInt32 := (r.natUpTo? max32).map Nat.toUInt32

/-- A record type. -/
def recordType? (r : Raw) : Option RecordType := r.choice? RecordType.ofName?

end Json.Raw

/-- Read an ancestor. -/
def Ancestor.ofRaw? (r : Raw) : Option Ancestor := do
  let f ← r.fields? ["uri", "publish"] false
  return {
    uri := ← f.required "uri" Raw.text?
    publish := ← f.required "publish" Raw.bool? }

/-- An ancestor as JSON. -/
def Ancestor.toJson (a : Ancestor) : Json :=
  .object [("uri", .text a.uri), ("publish", .bool a.publish)]

namespace Record

/-- The fields of a record, in order. -/
def fieldNames : List String :=
  ["id", "uri", "record_type", "repository_id", "repository_code", "publish", "suppressed",
    "ancestors", "level", "sponsor", "mtime", "deleted", "title", "data"]

/-- How deep the data of a record may nest; with the record itself it is one level more. -/
def dataDepth : Nat := 126

/-- Read a record. -/
def ofRaw? (r : Raw) : Option Record := do
  let f ← r.fields? fieldNames false
  return {
    id := ← f.required "id" Raw.id?
    uri := ← f.required "uri" Raw.text?
    recordType := ← f.required "record_type" Raw.recordType?
    repository := ← f.required "repository_id" Raw.repository?
    repositoryCode := ← f.required "repository_code" Raw.text?
    publish := ← f.required "publish" Raw.bool?
    suppressed := ← f.required "suppressed" Raw.bool?
    ancestors := ← f.defaulted "ancestors" [] (Raw.listOf? Ancestor.ofRaw?)
    level := ← f.optional "level" Raw.text?
    sponsor := ← f.optional "sponsor" Raw.text?
    modified := ← f.required "mtime" Raw.instant?
    deleted := ← f.defaulted "deleted" false Raw.bool?
    title := ← f.defaulted "title" "" Raw.text?
    data := ← f.defaulted "data" .null (Raw.value? dataDepth) }

/-- Read a record from a text. -/
def ofText? (s : String) : Option Record := Raw.ofText? s >>= ofRaw?

/-- A text, or null. -/
def orNull : Option String → Json
  | none => .null
  | some s => .text s

/-- A record as JSON. -/
def toJson (r : Record) : Json :=
  .object [
    ("id", .int r.id.toNat),
    ("uri", .text r.uri),
    ("record_type", .text r.recordType.name),
    ("repository_id", .int r.repository.toNat),
    ("repository_code", .text r.repositoryCode),
    ("publish", .bool r.publish),
    ("suppressed", .bool r.suppressed),
    ("ancestors", .list (r.ancestors.map Ancestor.toJson)),
    ("level", orNull r.level),
    ("sponsor", orNull r.sponsor),
    ("mtime", .text r.modified.render),
    ("deleted", .bool r.deleted),
    ("title", .text r.title),
    ("data", r.data)]

end Record

end Harvest
