import Harvest.Record

/-!
# Resumption tokens

A token says where a listing stopped and what was asked for, so that the next request can go on
without any state kept in between.
-/

namespace Harvest

/-- Where a listing stopped: in which of the format's record types, and after which record. -/
structure TokenPosition where
  typeIndex : UInt64
  last : Cursor
  deriving DecidableEq, Repr

namespace TokenPosition

instance : LT TokenPosition :=
  ⟨fun a b => a.typeIndex < b.typeIndex ∨ a.typeIndex = b.typeIndex ∧ a.last < b.last⟩

theorem lt_def {a b : TokenPosition} :
    a < b ↔ a.typeIndex < b.typeIndex ∨ a.typeIndex = b.typeIndex ∧ a.last < b.last := Iff.rfl

instance (a b : TokenPosition) : Decidable (a < b) := decidable_of_iff _ lt_def.symm

end TokenPosition

/-- A resumption token. -/
structure ResumptionToken where
  metadataPrefix : String
  set : Option String
  since : Option Instant
  upTo : Option Instant
  position : TokenPosition
  deriving DecidableEq, Repr

namespace ResumptionToken

/-- Whether two tokens were issued for the same request. -/
def sameRequest (t u : ResumptionToken) : Bool :=
  t.metadataPrefix = u.metadataPrefix && t.set = u.set && t.since = u.since && t.upTo = u.upTo

end ResumptionToken

end Harvest
