import Harvest.Engine
import Harvest.Record

/-!
# Sources

A source gives access to records in bounded batches: records of one type, in the order of their
cursors, after a given cursor and within bounds (`ScanQuery`).  It also looks up single records.
A source has a state, which any question may change; a source whose answers never change has the
state of its records.
-/

namespace Harvest

/-- A question for a batch of records. -/
structure ScanQuery where
  recordType : RecordType
  /-- Only records after this cursor. -/
  after : Option Cursor := none
  /-- Only records modified then or later. -/
  since : Option Instant := none
  /-- Only records modified then or earlier. -/
  upTo : Option Instant := none
  /-- No records of these repositories. -/
  excluded : List UInt32 := []
  /-- How many records the batch may have. -/
  limit : Nat
  deriving DecidableEq, Repr

namespace ScanQuery

/-- Whether a record is within all bounds of a query but its limit. -/
def admits (q : ScanQuery) (r : Record) : Bool :=
  r.recordType = q.recordType &&
    q.after.all (· < r.cursor) &&
    q.since.all (· ≤ r.modified) &&
    q.upTo.all (r.modified ≤ ·) &&
    r.repository ∉ q.excluded

end ScanQuery

/-- What can be asked of a store of records whose states are in `σ`.  A batch that is shorter
than the limit of its query says that there are no more records. -/
structure Source (σ : Type) where
  /-- The next records that a query admits, in the order of their cursors. -/
  scan : ScanQuery → σ → Except Fault (List Record) × σ
  /-- The record of a URI. -/
  get : String → σ → Except Fault (Option Record) × σ
  /-- The earliest time at which a record was modified. -/
  earliest : σ → Except Fault (Option Instant) × σ

namespace Source

variable {σ : Type}

/-- The same source, keeping the queries for batches that it was asked, latest first. -/
def traced (src : Source σ) : Source (σ × List ScanQuery) where
  scan q s :=
    let (result, state) := src.scan q s.1
    (result, state, q :: s.2)
  get uri s :=
    let (result, state) := src.get uri s.1
    (result, state, s.2)
  earliest s :=
    let (result, state) := src.earliest s.1
    (result, state, s.2)

end Source

end Harvest
