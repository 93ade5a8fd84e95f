import Harvest.Format.Json
import Harvest.Settings
import Harvest.Text

/-!
# Settings as JSON

Settings are read from a structure in which every field may be missing and no other field may
be, and are written with all their fields in order.
-/

namespace Harvest

open Json

/-- Read a named set. -/
def SetDefinition.ofRaw? (r : Raw) : Option SetDefinition := do
  let f ← r.fields? ["sponsors", "repo_codes", "description"] true
  return {
    sponsors := ← f.defaulted "sponsors" [] (Raw.listOf? Raw.text?)
    repositoryCodes := ← f.defaulted "repo_codes" [] (Raw.listOf? Raw.text?)
    description := ← f.defaulted "description" none (Fields.nullable Raw.text?) }

/-- A list of texts as JSON. -/
def texts (ss : List String) : Json := .list (ss.map .text)

/-- A named set as JSON. -/
def SetDefinition.toJson (d : SetDefinition) : Json :=
  .object [("sponsors", texts d.sponsors), ("repo_codes", texts d.repositoryCodes),
    ("description", Record.orNull d.description)]

/-- Read what the settings say about a repository. -/
def RepositoryEntry.ofRaw? (r : Raw) : Option RepositoryEntry := do
  let f ← r.fields? ["id", "repo_code", "oai_disabled", "sets_available"] true
  return {
    id := ← f.required "id" Raw.repository?
    code := ← f.required "repo_code" Raw.text?
    disabled := ← f.defaulted "oai_disabled" false Raw.bool?
    sets := ← f.defaulted "sets_available" [] (Raw.listOf? Raw.text?) }

/-- What the settings say about a repository, as JSON. -/
def RepositoryEntry.toJson (e : RepositoryEntry) : Json :=
  .object [("id", .int e.id.toNat), ("repo_code", .text e.code),
    ("oai_disabled", .bool e.disabled), ("sets_available", texts e.sets)]

/-- The entries of a map as JSON, in order. -/
def OrderedMap.toJson {α : Type} (value : α → Json) (m : OrderedMap α) : Json :=
  .object (m.entries.map fun e => (e.1, value e.2))

namespace Settings

/-- The fields of settings, in order. -/
def fieldNames : List String :=
  ["repository_name", "base_url", "admin_email", "identifier_namespace", "token_secret",
    "scan_batch_size", "unpublished_policy", "levels", "oai_sets", "repositories", "formats"]

/-- Read settings, without checking that they fit together. -/
def ofRaw? (r : Raw) : Option Settings := do
  let f ← r.fields? fieldNames true
  let d : Settings := {}
  return {
    repositoryName := ← f.defaulted "repository_name" d.repositoryName Raw.text?
    baseUrl := ← f.defaulted "base_url" d.baseUrl Raw.text?
    adminEmail := ← f.defaulted "admin_email" d.adminEmail Raw.text?
    identifierNamespace := ← f.defaulted "identifier_namespace" d.identifierNamespace Raw.text?
    tokenSecret := ← f.defaulted "token_secret" d.tokenSecret Raw.text?
    scanBatchSize := ← f.defaulted "scan_batch_size" d.scanBatchSize (Raw.natUpTo? max64)
    hiddenPolicy := ←
      f.defaulted "unpublished_policy" d.hiddenPolicy (Raw.choice? HiddenPolicy.ofName?)
    levels := ← f.defaulted "levels" d.levels (Raw.listOf? Raw.text?)
    sets := ← f.defaulted "oai_sets" d.sets (Raw.mapOf? SetDefinition.ofRaw?)
    repositories := ←
      f.defaulted "repositories" d.repositories (Raw.listOf? RepositoryEntry.ofRaw?)
    formats := ← f.defaulted "formats" d.formats (Raw.mapOf? FormatOptions.ofRaw?) }

/-- Read settings from a text, without checking that they fit together. -/
def ofText? (s : String) : Option Settings := Raw.ofText? s >>= ofRaw?

/-- Read settings from a text and check them; `explain` says why a text cannot be read. -/
def load (explain : String → String) (s : String) : Except Fault Settings :=
  match ofText? s with
  | none => .error (.unreadableSettings (explain s))
  | some settings => do
    settings.validate
    return settings

/-- Read settings from the content of a file and check them; a file that cannot be read has no
content. -/
def loadFile (explain : String → String) : Option (List UInt8) → Except Fault Settings
  | none => .error ⟨.io, "No such file or directory (os error 2)"⟩
  | some bytes =>
    match textOf? bytes with
    | none => .error ⟨.io, "stream did not contain valid UTF-8"⟩
    | some s => load explain s

/-- Settings as JSON. -/
def toJson (s : Settings) : Json :=
  .object [
    ("repository_name", .text s.repositoryName),
    ("base_url", .text s.baseUrl),
    ("admin_email", .text s.adminEmail),
    ("identifier_namespace", .text s.identifierNamespace),
    ("token_secret", .text s.tokenSecret),
    ("scan_batch_size", .int s.scanBatchSize),
    ("unpublished_policy", .text s.hiddenPolicy.name),
    ("levels", texts s.levels),
    ("oai_sets", s.sets.toJson SetDefinition.toJson),
    ("repositories", .list (s.repositories.map RepositoryEntry.toJson)),
    ("formats", s.formats.toJson FormatOptions.toJson)]

end Settings

end Harvest
