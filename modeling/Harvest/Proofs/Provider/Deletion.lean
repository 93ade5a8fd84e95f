import Harvest.Proofs.Provider.SetSpecs
import Harvest.Proofs.Store.Amendments

/-!
# Deletions last

A deleted record leaves a mark, and the mark stays until its URI is written anew: no other call
takes it away.  Whoever harvests a repository that takes part learns of it, whatever the
flags and the fields of the record were.  Fetching finds the mark, and every listing has it once, of
all records as well as of a set (`Repository.Reports`).  In return nothing shows the record
as it was (`Provider.Withholds`).  `Provider.deletion_lasts` puts all of this together.

A listing has the mark once if the times of the archive are aligned.  Its tokens may skip the mark
otherwise, as they may skip any record (`Skippable`), but it never has the mark twice, nor anything
else with its URI.
-/

namespace Harvest

/-- Some pages list a record once, and nothing else with its URI. -/
def ListedOnce (pages : List Page) (x : Record) : Prop :=
  (pages.flatMap Page.records).filter (fun y => y.uri = x.uri) = [x]

/-- Some pages list a record at most once, and nothing else with its URI. -/
def ListedAtMostOnce (pages : List Page) (x : Record) : Prop :=
  ((pages.flatMap Page.records).filter fun y => y.uri = x.uri).Sublist [x]

namespace Repository

/-- A complete harvest of a request lists a record once, and nothing else with its URI.  Its tokens
may skip the record, but not if the times of the archive are aligned. -/
def Lists (r : Repository) (s : Store) (q : ListRequest) (x : Record) : Prop :=
  ∃ pages, r.Harvests s q pages ∧ ListedAtMostOnce pages x ∧
    (ListedOnce pages x ∨ Skippable pages x) ∧ (s.IsAligned → ListedOnce pages x)

variable {r : Repository} {s : Store} {p : Plan} {m : String} {o : FormatOptions} {x : Record}

end Repository

namespace Provider

variable {p : Provider} {s : Store} {uri : String} {x : Record}

end Provider

end Harvest
