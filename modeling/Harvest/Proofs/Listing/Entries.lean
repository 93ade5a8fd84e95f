import Harvest.Proofs.Listing.Complete

/-!
# What a listing shows of one URI

A listing is put together from all records of a store.  What it shows of one URI depends on the
record of that URI alone (`Repository.shown?`): the record as it is shown, if the format covers its
type and the scope covers the record.  The listing has this entry once, or nothing of the URI
(`Repository.filter_uri_whole`).
-/

namespace Harvest.Repository

variable {r : Repository} {s : Store} {p : Plan} {uri : String} {x : Record}

/-- What the listing of a plan shows of a URI. -/
def shown? (r : Repository) (s : Store) (p : Plan) (uri : String) : Option Record :=
  ((s.get uri).filter fun x => p.options.supports x.recordType && (r.scope p).covers x).bind
    (r.scope p).shows?

theorem shown?_eq_some_iff : r.shown? s p uri = some x ↔
    ∃ y, s.get uri = some y ∧ y.recordType ∈ p.options.recordTypes ∧
      (r.scope p).covers y = true ∧ (r.scope p).shows? y = some x := by
  simp only [shown?, Option.bind_eq_some_iff, Option.filter_eq_some_iff, Bool.and_eq_true,
    FormatOptions.supports, decide_eq_true_eq, and_assoc]

/-- **A listing shows of a URI what its record comes to.** -/
theorem mem_whole_iff_shown? (hs : s.WellFormed) :
    (x ∈ (r.whole s.records p).map Prod.snd ∧ x.uri = uri) ↔ r.shown? s p uri = some x := by
  rw [shown?_eq_some_iff]
  simp only [List.mem_map, mem_whole]
  constructor
  · rintro ⟨⟨e, ⟨y, hy, ht, hc, hshown⟩, rfl⟩, rfl⟩
    obtain ⟨hu, -, -⟩ := Scope.of_shows? hshown
    exact ⟨y, (Store.get_eq_some_iff hs).2 ⟨hy, hu.symm⟩, List.mem_of_getElem? ht, hc, hshown⟩
  · rintro ⟨y, hget, htype, hc, hshown⟩
    obtain ⟨hy, rfl⟩ := (Store.get_eq_some_iff hs).1 hget
    obtain ⟨hu, -, -⟩ := Scope.of_shows? hshown
    obtain ⟨i, hi⟩ := List.mem_iff_getElem?.1 htype
    exact ⟨⟨(i, x), ⟨y, hy, hi, hc, hshown⟩, rfl⟩, hu⟩

/-- A listing of types that come once shows a URI once, if at all. -/
theorem filter_uri_whole (hs : s.WellFormed) (htypes : p.options.recordTypes.Nodup) :
    ((r.whole s.records p).map Prod.snd).filter (fun x => x.uri = uri) =
      (r.shown? s p uri).toList := by
  have hnodup : ((r.whole s.records p).map Prod.snd).Nodup :=
    List.pairwise_map.2 ((pairwise_uri_whole hs htypes).imp fun hne heq => hne (congrArg _ heq))
  refine eq_toList_of_nodup (hnodup.filter _) fun x => ?_
  rw [List.mem_filter, decide_eq_true_iff, mem_whole_iff_shown? hs]

end Harvest.Repository
