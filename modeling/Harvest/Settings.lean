import Harvest.Format
import Harvest.Sets
import Harvest.Text
import Harvest.Visibility

/-!
# Settings

What a provider is set up with.  `Settings.validate` checks what single fields cannot show: the
namespace of identifiers, the rules of named sets, repositories that come twice, and options for
formats that do not exist.
-/

namespace Harvest

/-- The largest size of a batch. -/
def maxBatch : Nat := 0xFFFFFFFFFFFFFFFF

/-- The settings of a provider. -/
structure Settings where
  repositoryName : String := "ArchivesSpace OAI Provider"
  /-- The address under which the provider is reached. -/
  baseUrl : String := "http://localhost/oai"
  adminEmail : String := "admin@example.com"
  /-- The namespace of the identifiers of records. -/
  identifierNamespace : String := "archivesspace"
  /-- What makes the checksums of tokens hard to guess. -/
  tokenSecret : String := ""
  /-- How many records are fetched from the store at a time; zero stands for twice a page. -/
  scanBatchSize : Nat := 0
  hiddenPolicy : HiddenPolicy := .omit
  /-- The archival levels that are sets. -/
  levels : List String := defaultLevels
  /-- The named sets. -/
  sets : OrderedMap SetDefinition := .empty
  repositories : List RepositoryEntry := []
  /-- Options that replace those of standard formats. -/
  formats : OrderedMap FormatOptions := .empty
  deriving DecidableEq, Repr

namespace Settings

/-- The first repository that comes twice: the one whose second place is first. -/
def firstRepeated : List UInt32 → List RepositoryEntry → Option UInt32
  | _, [] => none
  | seen, e :: es => if e.id ∈ seen then some e.id else firstRepeated (e.id :: seen) es

/-- The standard formats with the options of the settings. -/
def formatRegistry (s : Settings) : Except Fault FormatRegistry :=
  s.formats.entries.foldlM (fun g e => g.override e.1 e.2) FormatRegistry.standard

/-- Insist on settings that fit together. -/
def validate (s : Settings) : Except Fault Unit := do
  if s.identifierNamespace.isEmpty || s.identifierNamespace.contains '/' then
    throw .badNamespace
  s.sets.entries.forM fun e => e.2.validate e.1
  if let some id := firstRepeated [] s.repositories then
    throw (.repositoryTwice (toString id))
  let _ ← s.formatRegistry

/-- The sets of the settings. -/
def setDirectory (s : Settings) : SetDirectory := ⟨s.sets, s.levels⟩

/-- What the settings say about a repository. -/
def repository? (s : Settings) (id : UInt32) : Option RepositoryEntry :=
  s.repositories.find? (·.id = id)

/-- Whether there is a secret; blanks are none. -/
def hasTokenSecret (s : Settings) : Bool := s.tokenSecret.toList.any (!isBlank ·)

/-- How many records are fetched at a time for pages of a size. -/
def batchSizeFor (s : Settings) (pageSize : Nat) : Nat :=
  if s.scanBatchSize = 0 then max 1 (min (2 * pageSize) maxBatch) else s.scanBatchSize

theorem batchSizeFor_pos (s : Settings) (pageSize : Nat) : 0 < s.batchSizeFor pageSize := by
  unfold batchSizeFor
  split <;> omega

end Settings

end Harvest
