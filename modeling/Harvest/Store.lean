import Harvest.OrderedMap
import Harvest.Source

/-!
# The store

A store in memory.  Its records stand on a shelf in the order of their types and cursors, and a
catalogue says for every URI where its record stands.  Writing a record under a URI that is there
moves the record to its new place; two URIs cannot share a place.

A record read from the store shows its ancestors as they are then: one that is in the store
counts as published only if it is published and not deleted.
-/

namespace Harvest

/-- A place on the shelf: type and cursor. -/
@[ext]
structure Place where
  recordType : RecordType
  cursor : Cursor
  deriving DecidableEq, Repr

namespace Place

/-- Types come in their own order, the records of a type in the order of their cursors. -/
def before (p q : Place) : Bool :=
  p.recordType.index < q.recordType.index ||
    p.recordType = q.recordType && p.cursor < q.cursor

/-- The first place that a record of a type can have. -/
def firstOf (t : RecordType) : Place := ⟨t, ⟨.first, 0⟩⟩

end Place

/-- The place of a record. -/
def Record.place (r : Record) : Place := ⟨r.recordType, r.cursor⟩

/-- Put a record on a shelf, instead of one at the same place. -/
def shelve (r : Record) : List Record → List Record
  | [] => [r]
  | s :: ss =>
    if r.place.before s.place then r :: s :: ss
    else if r.place = s.place then r :: ss
    else s :: shelve r ss

/-- A store of records. -/
structure Store where
  /-- The records, in the order of their places. -/
  shelf : List Record := []
  /-- The place of every URI's record. -/
  catalogue : OrderedMap Place := .empty
  deriving Repr

namespace Store

/-- The store with no records. -/
def empty : Store := {}

/-- The record at a place. -/
def at? (s : Store) (p : Place) : Option Record := s.shelf.find? (·.place = p)

/-- The record of a URI, as it was written. -/
def lookup (s : Store) (uri : String) : Option Record := s.catalogue.find? uri >>= s.at?

/-- The shelf without the record at a place. -/
def without (s : Store) (p : Place) : List Record := s.shelf.filter (·.place ≠ p)

/-- Write a record: it takes the place of the record with its URI, if there is one.  A place that
another URI holds is a fault. -/
def put (s : Store) (r : Record) : Except Fault Store :=
  match (s.at? r.place).filter (·.uri ≠ r.uri) with
  | some other => .error (.positionTaken r.uri other.uri)
  | none =>
    let shelf := match s.catalogue.find? r.uri with
      | some old => s.without old
      | none => s.shelf
    .ok { shelf := shelve r shelf, catalogue := s.catalogue.insert r.uri r.place }

/-- A store of some records; the first fault ends the writing. -/
def ofRecords (rs : List Record) : Except Fault Store := rs.foldlM put empty

/-- Change the record of a URI; with no such record there is no new store. -/
def modify (s : Store) (uri : String) (change : Record → Record) : Except Fault (Option Store) :=
  match s.lookup uri with
  | none => .ok none
  | some r => (s.put (change r)).map some

/-- Change whether a record is published. -/
def setPublish (s : Store) (uri : String) (publish : Bool) (time : Instant) :
    Except Fault (Option Store) :=
  s.modify uri fun r => { r with publish, modified := time }

/-- Change whether a record is suppressed. -/
def setSuppressed (s : Store) (uri : String) (suppressed : Bool) (time : Instant) :
    Except Fault (Option Store) :=
  s.modify uri fun r => { r with suppressed, modified := time }

/-- Replace a record by the mark it leaves. -/
def delete (s : Store) (uri : String) (time : Instant) : Except Fault (Option Store) :=
  s.modify uri fun r => { r.tombstone with modified := time }

/-- The number of records, marks of deleted ones included. -/
def size (s : Store) : Nat := s.shelf.length

/-- Whether there are no records. -/
def isEmpty (s : Store) : Bool := s.size = 0

/-! ### Reading -/

/-- An ancestor as it is now. -/
def current (s : Store) (a : Ancestor) : Ancestor :=
  match s.lookup a.uri with
  | some r => { a with publish := r.publish && !r.deleted }
  | none => a

/-- A record with its ancestors as they are now. -/
def view (s : Store) (r : Record) : Record := { r with ancestors := r.ancestors.map s.current }

/-- The record of a URI. -/
def get (s : Store) (uri : String) : Option Record := (s.lookup uri).map s.view

/-- Whether a record stands before the first place that a query can reach. -/
def isBefore (q : ScanQuery) (r : Record) : Bool :=
  match q.after with
  | some c => !(Place.mk q.recordType c).before r.place
  | none => r.place.before (.firstOf q.recordType)

/-- Whether a record stands among those that a query walks over: its type's, up to its upper
bound. -/
def isWithin (q : ScanQuery) (r : Record) : Bool :=
  r.recordType = q.recordType && q.upTo.all (r.modified ≤ ·)

/-- The first records that a query admits.  The walk starts after the query's cursor and ends
with its type or its upper bound. -/
def scan (s : Store) (q : ScanQuery) : List Record :=
  ((((s.shelf.dropWhile (isBefore q)).takeWhile (isWithin q)).filter q.admits).take q.limit).map
    s.view

/-- The earlier of two instants. -/
def earlier (t : Option Instant) (r : Record) : Option Instant :=
  match t with
  | none => some r.modified
  | some t => some (if r.modified < t then r.modified else t)

/-- The earliest time at which a record was modified. -/
def earliest (s : Store) : Option Instant := s.shelf.foldl earlier none

/-- A store as a source: it never fails, and reading does not change it. -/
def source : Source Store where
  scan q s := (.ok (s.scan q), s)
  get uri s := (.ok (s.get uri), s)
  earliest s := (.ok s.earliest, s)

end Store

end Harvest
