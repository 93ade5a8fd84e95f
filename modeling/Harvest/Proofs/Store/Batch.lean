import Harvest.Proofs.Store.Refinement
import Harvest.Proofs.Store.Scan

/-!
# Batches of a store

To answer a query a store walks along a part of its shelf: from the query's cursor, or from the
first place of its type, up to the end of the type or of the window.  The answer is nevertheless
what one gets without shelf and cuts: of all stored records those that the query admits, sorted by
their cursors, the first of them, with their ancestors as they are now (`Store.scan_eq_sorted`).

So a batch that is short says that nothing is left, and it is short exactly if fewer records than
its limit match.  It does not go the other way: a full batch may hold all that match
(`Store.not_short_items`), and who asks for the next batch gets an empty one.
-/

namespace Harvest

/-- The records that a query admits, sorted by their cursors. -/
def ScanQuery.matching (q : ScanQuery) (rs : List Record) : List Record :=
  (rs.filter q.admits).mergeSort fun a b => !decide (b.cursor < a.cursor)

namespace Store

variable {s : Store} {rs : List Record}

/-- A store holds just these records, in whatever order they come. -/
structure Holds (s : Store) (rs : List Record) : Prop where
  nodup : rs.Nodup
  mem_iff : ∀ r, r ∈ rs ↔ s.lookup r.uri = some r

theorem holds_shelf (hs : s.WellFormed) : s.Holds s.shelf where
  nodup := hs.shelved.imp fun {a b} hab heq => Place.ne_of_before hab (congrArg Record.place heq)
  mem_iff r := by rw [lookup_eq_some_iff hs, and_iff_left rfl]

theorem Holds.perm_shelf (h : s.Holds rs) (hs : s.WellFormed) : rs.Perm s.shelf := by
  refine (List.perm_ext_iff_of_nodup h.nodup (holds_shelf hs).nodup).2 fun r => ?_
  rw [h.mem_iff, (holds_shelf hs).mem_iff]

/-- The shelf has what a query admits in the order of the cursors. -/
theorem Holds.matching_eq (h : s.Holds rs) (hs : s.WellFormed) (q : ScanQuery) :
    q.matching rs = s.shelf.filter q.admits := by
  have hperm : (q.matching rs).Perm (s.shelf.filter q.admits) :=
    (List.mergeSort_perm _ _).trans ((h.perm_shelf hs).filter _)
  have hordered : (s.shelf.filter q.admits).Pairwise fun a b =>
      (!decide (b.cursor < a.cursor)) = true := by
    refine (hs.shelved.pairwise_filter fun r hr => (ScanQuery.admits_iff.1 hr).1).imp
      fun {a b} hab => ?_
    have hnot : ¬ b.cursor < a.cursor := fun hba => lt_irrefl _ (lt_trans hab hba)
    simpa using hnot
  refine hperm.eq_of_pairwise (fun a b ha hb hab hba => ?_) (pairwise_mergeSort_cursor _) hordered
  -- both are of the query's type, so records with one cursor have one place
  obtain ⟨ha, hadmits⟩ := List.mem_filter.1 (hperm.mem_iff.1 ha)
  obtain ⟨hb, hadmits'⟩ := List.mem_filter.1 hb
  have htype : a.recordType = b.recordType :=
    (ScanQuery.admits_iff.1 hadmits).1.trans (ScanQuery.admits_iff.1 hadmits').1.symm
  have hcursor : a.cursor = b.cursor := by
    simp only [Bool.not_eq_true', decide_eq_false_iff_not, not_lt] at hab hba
    exact le_antisymm hab hba
  exact hs.shelved.eq_of_place ha hb (by rw [Record.place, Record.place, htype, hcursor])

/-- **A batch holds the first of the matching records.**  Whatever the type, the cursor, the bounds,
the exclusions and the limit of a query are, a scan gives of all stored records those that the query
admits, sorted by modification time and number, the first of them up to the limit; each ancestor
that is stored counts as published if it is published and not deleted, and any other one as it was
written.  The batch is short exactly if fewer records match than its limit, and then none is
left. -/
theorem scan_eq_sorted (hs : s.Reachable) (hrs : s.Holds rs) (q : ScanQuery) :
    s.scan q = ((q.matching rs).take q.limit).map
        (fun r => { r with ancestors := r.ancestors.map (RecordMap.resolve s.lookup) }) ∧
      (q.matching rs).Pairwise (fun a b => a.cursor < b.cursor) ∧
      ((s.scan q).length < q.limit ↔ (q.matching rs).length < q.limit) ∧
      ((s.scan q).length < q.limit → ∀ r, s.lookup r.uri = some r → q.admits r = true →
        r.uri ∈ (s.scan q).map Record.uri) := by
  have hwell := hs.wellFormed
  have hmatching := hrs.matching_eq hwell q
  have hview : s.view = fun r =>
      { r with ancestors := r.ancestors.map (RecordMap.resolve s.lookup) } :=
    funext (Represents.view ⟨hwell, fun _ => rfl⟩)
  have hscan : s.scan q = ((q.matching rs).take q.limit).map s.view := by
    rw [scan_eq hwell, records, List.filter_map, ← List.map_take, hmatching]
    rfl
  have hshort : (s.scan q).length < q.limit ↔ (q.matching rs).length < q.limit := by
    rw [hscan, List.length_map, List.length_take]
    omega
  refine ⟨hview ▸ hscan, ?_, hshort, fun hlt r hr hadmits => ?_⟩
  · rw [hmatching]
    exact hwell.shelved.pairwise_filter fun r hr => (ScanQuery.admits_iff.1 hr).1
  · -- a limit that is not reached cuts nothing off
    have hmem : r ∈ q.matching rs := by
      rw [hmatching]
      exact List.mem_filter.2 ⟨((holds_shelf hwell).mem_iff r).2 hr, hadmits⟩
    rw [hscan, List.take_of_length_le (Nat.le_of_lt (hshort.1 hlt)), List.map_map]
    exact List.mem_map_of_mem hmem

/-! ### Two items of the small archive -/

/-- A query for archival objects. -/
def itemsQuery (limit : Nat) : ScanQuery := { recordType := .archivalObject, limit }

/-- A batch of one item holds the letter, whose collection is published by now. -/
theorem scan_eq_sorted_letter : sample.Reachable ∧ sample.Holds sample.shelf ∧
    (sample.scan (itemsQuery 1)).map (fun r => (r.uri, r.ancestors)) =
      [(sampleLetter.uri, [⟨sampleCollection.uri, true⟩])] ∧
    (sample.scan (itemsQuery 3)).length < 3 := by
  have hs := sample_reachable
  have hrs := holds_shelf hs.wellFormed
  obtain ⟨hone, -⟩ := scan_eq_sorted hs hrs (itemsQuery 1)
  obtain ⟨-, -, hshort, -⟩ := scan_eq_sorted hs hrs (itemsQuery 3)
  rw [hrs.matching_eq hs.wellFormed] at hone hshort
  refine ⟨hs, hrs, ?_, hshort.2 (by decide +kernel)⟩
  rw [hone]
  decide +kernel

/-- A batch of two holds both items, so that none is left, and yet it is not short. -/
theorem not_short_items : sample.Reachable ∧
    (∀ r, sample.lookup r.uri = some r → (itemsQuery 2).admits r = true →
      r.uri ∈ (sample.scan (itemsQuery 2)).map Record.uri) ∧
    ¬ (sample.scan (itemsQuery 2)).length < (itemsQuery 2).limit := by
  have hshelf := holds_shelf sample_reachable.wellFormed
  have huris : ∀ r ∈ sample.shelf, (itemsQuery 2).admits r = true →
      r.uri ∈ (sample.scan (itemsQuery 2)).map Record.uri := by decide +kernel
  exact ⟨sample_reachable, fun r hr => huris r ((hshelf.mem_iff r).2 hr), by decide +kernel⟩

end Store

end Harvest
