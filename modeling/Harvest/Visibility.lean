import Harvest.Record

/-!
# Visibility

A record may be shown when it is published, not suppressed, and all its ancestors are published.
The decision is made anew from the record at hand every time, as flags change between requests.
-/

namespace Harvest

/-- Why a record must not be shown. -/
inductive HiddenReason where
  | unpublished
  | suppressed
  /-- The nearest ancestor that is not published. -/
  | unpublishedAncestor (uri : String)
  deriving DecidableEq, Repr

/-- How a listing reports records that must not be shown. -/
inductive HiddenPolicy where
  /-- It leaves them out. -/
  | omit
  /-- It reports them as deleted. -/
  | tombstone
  deriving DecidableEq, Repr

namespace HiddenPolicy

/-- The name of a policy in settings. -/
def name : HiddenPolicy → String
  | .omit => "omit"
  | .tombstone => "tombstone"

/-- The policy of a name. -/
def ofName? (s : String) : Option HiddenPolicy := [HiddenPolicy.omit, .tombstone].find? (·.name = s)

end HiddenPolicy

namespace Record

/-- Why a record must not be shown, if it must not. -/
def hiddenReason? (r : Record) : Option HiddenReason :=
  if !r.publish then some .unpublished
  else if r.suppressed then some .suppressed
  else (r.ancestors.find? (!·.publish)).map fun a => .unpublishedAncestor a.uri

/-- Whether a record may be shown. -/
def isVisible (r : Record) : Bool := r.hiddenReason?.isNone

/-- A record may be shown exactly when all its flags allow it. -/
theorem isVisible_iff {r : Record} :
    r.isVisible ↔ r.publish ∧ r.suppressed = false ∧ ∀ a ∈ r.ancestors, a.publish := by
  cases hp : r.publish <;> cases hs : r.suppressed <;>
    simp [isVisible, hiddenReason?, hp, hs]

end Record

end Harvest
