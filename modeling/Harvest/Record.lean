import Harvest.Fault
import Harvest.Instant
import Harvest.Json.Value

/-!
# Records

A record as a harvester may see it: what orders and addresses it, the flags that decide whether
it is shown, the attributes that put it into sets, and data that only mappers look into.

The records of one type are ordered by their cursors: by modification time, then by number.
`Cursor.rank` numbers all cursors in this order, which bounds every walk along them
(`Cursor.remaining_lt`).
-/

namespace Harvest

/-- The kinds of record. -/
inductive RecordType where
  /-- A collection, at the top of a hierarchy. -/
  | resource
  /-- A component inside the hierarchy of a resource. -/
  | archivalObject
  /-- A digital copy of archival material. -/
  | digitalObject
  /-- A note of material received. -/
  | accession
  /-- A person, family or body. -/
  | agent
  /-- A subject heading. -/
  | subject
  deriving DecidableEq, Repr

namespace RecordType

/-- All record types; stores keep them in this order. -/
def all : List RecordType :=
  [resource, archivalObject, digitalObject, accession, agent, subject]

/-- The name of a type in settings and records. -/
def name : RecordType → String
  | resource => "resource"
  | archivalObject => "archival_object"
  | digitalObject => "digital_object"
  | accession => "accession"
  | agent => "agent"
  | subject => "subject"

/-- The segment of a URI that stands for a type. -/
def segment : RecordType → String
  | resource => "resources"
  | archivalObject => "archival_objects"
  | digitalObject => "digital_objects"
  | accession => "accessions"
  | agent => "agents"
  | subject => "subjects"

/-- The place of a type among all types. -/
def index : RecordType → Nat
  | resource => 0
  | archivalObject => 1
  | digitalObject => 2
  | accession => 3
  | agent => 4
  | subject => 5

/-- The type of a name. -/
def ofName? (s : String) : Option RecordType := all.find? (·.name = s)

/-- The type of a name, or the fault that there is none. -/
def ofName (s : String) : Except Fault RecordType :=
  match ofName? s with
  | some t => .ok t
  | none => .error (.unknownRecordType s)

/-- Records of these types sit in a hierarchy and have a level. -/
def isHierarchical (t : RecordType) : Bool := t = resource || t = archivalObject

/-- Records of these types are at the top of a hierarchy. -/
def isTopLevel (t : RecordType) : Bool := t = resource

end RecordType

/-- The place of a record among those of its type. -/
@[ext]
structure Cursor where
  modified : Instant
  id : UInt64
  deriving DecidableEq, Repr

namespace Cursor

instance : LT Cursor :=
  ⟨fun a b => a.modified < b.modified ∨ a.modified = b.modified ∧ a.id < b.id⟩

theorem lt_def {a b : Cursor} :
    a < b ↔ a.modified < b.modified ∨ a.modified = b.modified ∧ a.id < b.id := Iff.rfl

instance (a b : Cursor) : Decidable (a < b) := decidable_of_iff _ lt_def.symm

/-- The place of a cursor in an order-preserving numbering from zero. -/
def rank (a : Cursor) : Nat := a.modified.rank * 0x10000000000000000 + a.id.toNat

theorem rank_lt_rank {a b : Cursor} (h : a < b) : a.rank < b.rank := by
  have ha := a.id.toNat_lt
  have hb := b.id.toNat_lt
  simp only [rank]
  rcases h with h | ⟨h, k⟩
  · have := Instant.lt_iff_rank_lt.1 h
    omega
  · have := UInt64.lt_iff_toNat_lt.1 k
    rw [h]
    omega

/-- One more than the largest rank. -/
def ranks : Nat := Instant.ranks * 0x10000000000000000

theorem rank_lt_ranks (a : Cursor) : a.rank < ranks := by
  have ha := a.id.toNat_lt
  have h := a.modified.rank_lt_ranks
  unfold rank ranks
  generalize Instant.ranks = n at h
  omega

/-- How many cursors there are after a place; with no place, more than there are cursors. -/
def remaining : Option Cursor → Nat
  | none => ranks
  | some a => ranks - 1 - a.rank

/-- A cursor that is after a place leaves fewer behind it. -/
theorem remaining_lt {place : Option Cursor} {a : Cursor} (h : ∀ b, place = some b → b < a) :
    remaining (some a) < remaining place := by
  have ha := rank_lt_ranks a
  cases place with
  | none => simp only [remaining]; omega
  | some b =>
    have hb := rank_lt_rank (h b rfl)
    simp only [remaining]
    omega

end Cursor

/-- A link of a record's chain of ancestors. -/
structure Ancestor where
  uri : String
  publish : Bool
  deriving DecidableEq, Repr

/-- A record. -/
structure Record where
  /-- The record's number within its type. -/
  id : UInt64
  uri : String
  recordType : RecordType
  /-- The number of the repository that holds it. -/
  repository : UInt32
  repositoryCode : String
  publish : Bool
  suppressed : Bool
  /-- The chain of ancestors, nearest first. -/
  ancestors : List Ancestor
  /-- The archival level of a record in a hierarchy. -/
  level : Option String
  sponsor : Option String
  modified : Instant
  /-- The record is gone, and this is the mark it leaves. -/
  deleted : Bool
  title : String
  /-- What mappers make metadata of. -/
  data : Json
  deriving Repr

namespace Record

/-- The usual URI of a record. -/
def uriOf (repository : UInt32) (t : RecordType) (id : UInt64) : String :=
  "/repositories/" ++ toString repository ++ "/" ++ t.segment ++ "/" ++ toString id

/-- A published record with no ancestors. -/
def plain (t : RecordType) (id : UInt64) (repository : UInt32) (code : String)
    (modified : Instant) : Record where
  id := id
  uri := uriOf repository t id
  recordType := t
  repository := repository
  repositoryCode := code
  publish := true
  suppressed := false
  ancestors := []
  level := none
  sponsor := none
  modified := modified
  deleted := false
  title := ""
  data := .null

/-- The mark of a record that no longer exists. -/
def marker (t : RecordType) (id : UInt64) (repository : UInt32) (code : String)
    (deletedAt : Instant) : Record :=
  { plain t id repository code deletedAt with deleted := true }

/-- The mark that a record leaves: what orders and addresses it stays, the description goes. -/
def tombstone (r : Record) : Record :=
  { r with
    deleted := true
    ancestors := []
    level := none
    sponsor := none
    title := ""
    data := .null }

/-- The record's place among those of its type. -/
def cursor (r : Record) : Cursor := ⟨r.modified, r.id⟩

end Record

end Harvest
