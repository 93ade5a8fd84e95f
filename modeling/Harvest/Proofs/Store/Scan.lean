import Harvest.Proofs.Lists
import Harvest.Proofs.Store.History

/-!
# Scans

A scan walks over a part of the shelf and stops early.  On a well-formed store it nevertheless
gives exactly the first records that the query admits, in order (`Store.scan_eq`): what it skips
in front and leaves behind is not admitted.
-/

namespace Harvest

theorem ScanQuery.admits_iff {q : ScanQuery} {r : Record} : q.admits r = true ↔
    r.recordType = q.recordType ∧ (∀ c, q.after = some c → c < r.cursor) ∧
      (∀ t, q.since = some t → t ≤ r.modified) ∧ (∀ u, q.upTo = some u → r.modified ≤ u) ∧
      r.repository ∉ q.excluded := by
  simp [admits, Option.all_eq_true, and_assoc]

namespace Store

variable {s : Store}

/-! ### Records as they are read -/

/-- The records of a store as they are read, in the order of their places. -/
def records (s : Store) : List Record := s.shelf.map s.view

@[simp]
theorem admits_view (s : Store) (q : ScanQuery) (r : Record) :
    q.admits (s.view r) = q.admits r := rfl

theorem shelved_records (h : s.WellFormed) : Shelved s.records :=
  List.pairwise_map.2 h.shelved

theorem get_eq_some_iff (h : s.WellFormed) {uri : String} {r : Record} :
    s.get uri = some r ↔ r ∈ s.records ∧ r.uri = uri := by
  rw [get, Option.map_eq_some_iff, records]
  constructor
  · rintro ⟨x, hx, rfl⟩
    obtain ⟨hx, hu⟩ := (lookup_eq_some_iff h).1 hx
    exact ⟨List.mem_map.2 ⟨x, hx, rfl⟩, hu⟩
  · rintro ⟨hr, hu⟩
    obtain ⟨x, hx, rfl⟩ := List.mem_map.1 hr
    exact ⟨x, (lookup_eq_some_iff h).2 ⟨hx, hu⟩, rfl⟩

theorem eq_of_mem_records (h : s.WellFormed) {x y : Record} (hx : x ∈ s.records)
    (hy : y ∈ s.records) (hxy : x.uri = y.uri) : x = y := by
  have hgx := (get_eq_some_iff h).2 ⟨hx, hxy⟩
  have hgy := (get_eq_some_iff h).2 ⟨hy, rfl⟩
  exact Option.some.inj (hgx.symm.trans hgy)

/-! ### The walk over the shelf -/

theorem before_firstOf_iff {t : RecordType} {p : Place} :
    p.before (.firstOf t) ↔ p.recordType.index < t.index := by
  have hrank : (Place.firstOf t).cursor.rank = 0 := by
    simp [Place.firstOf, Cursor.rank, Instant.rank, Instant.first]
  have hfirst : ¬ p.cursor < (Place.firstOf t).cursor := by
    rw [Cursor.lt_iff_rank_lt, hrank]
    exact Nat.not_lt_zero _
  rw [Place.before_iff, or_iff_left fun h => hfirst h.2]
  rfl

theorem isBefore_iff {q : ScanQuery} {r : Record} : isBefore q r = true ↔
    r.recordType.index < q.recordType.index ∨
      r.recordType = q.recordType ∧ ∃ c, q.after = some c ∧ ¬ c < r.cursor := by
  unfold isBefore
  cases hq : q.after with
  | none => simp [before_firstOf_iff, Record.place]
  | some c =>
    simp only [Bool.not_eq_true', Bool.eq_false_iff, ne_eq, Place.before_iff, Option.some.injEq,
      exists_eq_left', ← RecordType.index_inj]
    change ¬ (q.recordType.index < r.recordType.index ∨
      q.recordType.index = r.recordType.index ∧ c < r.cursor) ↔ _
    by_cases hlt : c < r.cursor
    · simp only [hlt, not_true, and_true, and_false, or_false]
      omega
    · simp only [hlt, not_false_iff, and_false, and_true, or_false]
      omega

theorem isWithin_iff {q : ScanQuery} {r : Record} : isWithin q r = true ↔
    r.recordType = q.recordType ∧ ∀ u, q.upTo = some u → r.modified ≤ u := by
  simp [isWithin, Option.all_eq_true]

/-- What stands before a record in front of the start is in front of the start as well. -/
theorem isBefore_of_before {q : ScanQuery} {a b : Record} (hab : a.place.before b.place)
    (hb : isBefore q b = true) : isBefore q a = true := by
  have hlt := Place.before_iff_lt.1 hab
  unfold isBefore at hb ⊢
  cases hq : q.after with
  | none =>
    rw [hq] at hb
    exact Place.before_iff_lt.2 (lt_trans hlt (Place.before_iff_lt.1 hb))
  | some c =>
    rw [hq] at hb
    simp only [Bool.not_eq_true', Bool.eq_false_iff, ne_eq, Place.before_iff_lt, not_lt] at hb ⊢
    exact le_trans (le_of_lt hlt) hb

/-- From the start on, what stands before a record within the bounds is within them as well. -/
theorem isWithin_of_before {q : ScanQuery} {a b : Record} (hab : a.place.before b.place)
    (ha : isBefore q a = false) (hb : isWithin q b = true) : isWithin q a = true := by
  obtain ⟨htype, hupto⟩ := isWithin_iff.1 hb
  have hstart : ¬ a.recordType.index < q.recordType.index := fun hlt =>
    Bool.eq_false_iff.1 ha (isBefore_iff.2 (.inl hlt))
  obtain hlt | ⟨heq, hlt⟩ := Place.before_iff.1 hab
  · change a.recordType.index < b.recordType.index at hlt
    rw [htype] at hlt
    exact absurd hlt hstart
  · change a.recordType = b.recordType at heq
    refine isWithin_iff.2 ⟨heq.trans htype, fun u hu => ?_⟩
    exact le_trans (Cursor.modified_le hlt) (hupto u hu)

theorem between_of_admits {q : ScanQuery} {r : Record} (h : q.admits r = true) :
    isBefore q r = false ∧ isWithin q r = true := by
  obtain ⟨htype, hafter, -, hupto, -⟩ := ScanQuery.admits_iff.1 h
  refine ⟨Bool.eq_false_iff.2 fun hb => ?_, isWithin_iff.2 ⟨htype, hupto⟩⟩
  obtain hlt | ⟨-, c, hc, hn⟩ := isBefore_iff.1 hb
  · rw [htype] at hlt
    omega
  · exact hn (hafter c hc)

/-- **A scan gives the first records that the query admits.** -/
theorem scan_eq (h : s.WellFormed) (q : ScanQuery) :
    s.scan q = (s.records.filter q.admits).take q.limit := by
  -- on an ordered shelf both cuts are filters, and they leave out nothing that is admitted
  have hdrop : s.shelf.dropWhile (isBefore q) = s.shelf.filter fun r => !isBefore q r :=
    dropWhile_eq_filter (h.shelved.imp fun hab => isBefore_of_before hab)
  have htake : (s.shelf.filter fun r => !isBefore q r).takeWhile (isWithin q) =
      (s.shelf.filter fun r => !isBefore q r).filter (isWithin q) := by
    refine takeWhile_eq_filter (List.Pairwise.imp_of_mem (fun {a b} ha hb hab => ?_)
      (List.Pairwise.filter _ h.shelved))
    exact isWithin_of_before hab (by simpa using (List.mem_filter.1 ha).2)
  have hfilter : ((s.shelf.filter fun r => !isBefore q r).filter (isWithin q)).filter q.admits =
      s.shelf.filter q.admits := by
    rw [List.filter_filter, List.filter_filter]
    refine List.filter_congr fun r _ => ?_
    by_cases hr : q.admits r = true
    · simp [hr, between_of_admits hr]
    · simp [hr]
  have hview : s.records.filter q.admits = (s.shelf.filter q.admits).map s.view := by
    rw [records, List.filter_map]
    exact congrArg _ (List.filter_congr fun r _ => admits_view s q r)
  rw [scan, hdrop, htake, hfilter, hview, List.map_take]

end Store

end Harvest
