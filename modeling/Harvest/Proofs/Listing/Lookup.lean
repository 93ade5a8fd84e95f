import Harvest.Proofs.Exposure
import Harvest.Proofs.Listing.Entries

/-!
# Listings against lookups

A listing leaves out repositories by their numbers, sifts batches and walks through the types of a
format.  A lookup reads one record, asks for its repository and looks at its type last.  Both come
to the same: the complete harvest of a format holds what fetching finds, every record once and as
it is fetched, but for what its tokens may skip (`Repository.fetch_eq_ok_iff_mem_harvest`).

Where the times of the archive are aligned nothing is skipped, and whoever fetches a stored record
that is not in the harvest learns why: harvesters are not told of it (`Settings.isReported`), or the
format does not cover its type.
-/

namespace Harvest

open Engine

/-- Harvesters are told of a record: its repository takes part, and it is deleted, or visible, or
reported as deleted because it is hidden. -/
def Settings.isReported (c : Settings) (x : Record) : Bool :=
  !(c.repository? x.repository).any (·.disabled) &&
    (x.deleted || x.isVisible || c.hiddenPolicy = .tombstone)

namespace Scope

/-- A scope without a set leaves out hidden records at most. -/
theorem isSome_shows?_iff {c : Scope} (hrule : c.rule = none) {x : Record} :
    (c.shows? x).isSome = true ↔ (x.deleted || x.isVisible || c.policy = .tombstone) = true := by
  unfold shows?
  rw [hrule]
  cases x.deleted <;> cases x.isVisible <;> cases c.policy <;> simp

end Scope

/-- The plan of a listing with no set and no window. -/
def Plan.everything (m : String) (o : FormatOptions) : Plan := ⟨m, none, none, none, none, o, none⟩

namespace Repository

variable {r : Repository} {s : Store} {uri m : String} {o : FormatOptions} {x : Record}

/-! ### Lookups -/

/-- Lookups are about the records that are reported. -/
theorem isReported_iff (hv : r.settings.validate = .ok ()) (x : Record) :
    r.settings.isReported x = true ↔
      r.single.covers x = true ∧ (r.single.shows? x).isSome = true := by
  have hentry : ∀ e : RepositoryEntry, (!e.admits none) = e.disabled := by
    intro e
    simp [RepositoryEntry.admits]
  rw [covers_single hv, Scope.isSome_shows?_iff rfl, Settings.isReported, Bool.and_eq_true]
  simp only [hentry]
  rfl

theorem located_of_isReported (hv : r.settings.validate = .ok ()) (hx : s.get uri = some x)
    (h : r.settings.isReported x = true) :
    ∃ y, r.located s uri = .ok y ∧ y.recordType = x.recordType := by
  obtain ⟨hcovers, hshown⟩ := (isReported_iff hv x).1 h
  obtain ⟨y, hy⟩ := Option.isSome_iff_exists.1 hshown
  exact ⟨y, located_eq_ok_iff.2 ⟨x, hx, hcovers, hy⟩, (Scope.of_shows? hy).2.1⟩

/-! ### Listings -/

/-- A listing with no set and no window leaves out repositories that are disabled. -/
theorem covers_everything_iff : (r.scope (Plan.everything m o)).covers x = true ↔
    ∀ e ∈ r.settings.repositories, e.id = x.repository → e.disabled = false := by
  simp [Scope.covers_iff, RepositoryEntry.admits_iff, scope, Plan.everything]

/-- Fetching finds what a listing with no set and no window shows of a URI. -/
theorem fetched_eq_ok_iff_shown? (ho : r.formats.options? m = some o) :
    r.fetched s uri m = .ok x ↔ r.shown? s (Plan.everything m o) uri = some x := by
  have hcovers : (r.scope (Plan.everything m o)).covers = r.single.covers := rfl
  have hshows : (r.scope (Plan.everything m o)).shows? = r.single.shows? := rfl
  simp only [shown?_eq_some_iff, fetched_eq_ok_iff, ho, Option.some.injEq, exists_eq_left',
    located_eq_ok_iff, hcovers, hshows, FormatOptions.supports, decide_eq_true_eq]
  constructor
  · rintro ⟨⟨y, hget, hc, hshown⟩, htype⟩
    exact ⟨y, hget, (Scope.of_shows? hshown).2.1 ▸ htype, hc, hshown⟩
  · rintro ⟨y, hget, htype, hc, hshown⟩
    exact ⟨⟨y, hget, hc, hshown⟩, (Scope.of_shows? hshown).2.1 ▸ htype⟩

/-- **The listing of a format holds what fetching finds.** -/
theorem mem_whole_iff_fetched (hs : s.WellFormed) (ho : r.formats.options? m = some o) :
    (x ∈ (r.whole s.records (Plan.everything m o)).map Prod.snd ∧ x.uri = uri) ↔
      r.fetched s uri m = .ok x :=
  (mem_whole_iff_shown? hs).trans (fetched_eq_ok_iff_shown? ho).symm

end Repository

end Harvest
