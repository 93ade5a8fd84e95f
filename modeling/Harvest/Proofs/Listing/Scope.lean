import Harvest.Proofs.Listing.Page

/-!
# What a listing is about

A *scope* says which records a listing shows and as what, apart from batches, pages and tokens.
`Scope.reference` is the listing that it describes: for each record type in order, the records
sorted by their cursors, those that are covered, as they are shown.

The whole listing of a plan is the reference listing of its scope (`Repository.whole_eq`), and its
entries can be told from the records one by one (`Repository.mem_whole`).
-/

namespace Harvest

/-- What a listing is about. -/
structure Scope where
  /-- The record types, in listing order. -/
  recordTypes : List RecordType
  set : Option String
  rule : Option SetRule
  since : Option Instant
  upTo : Option Instant
  repositories : List RepositoryEntry
  policy : HiddenPolicy

namespace Scope

/-- Whether a record is within the window and its repository takes part. -/
def covers (c : Scope) (r : Record) : Bool :=
  c.since.all (· ≤ r.modified) && c.upTo.all (r.modified ≤ ·) &&
    c.repositories.all fun e => e.id ≠ r.repository || e.admits c.set

/-- A record as it is shown, if it is.  Deleted records always are; others must belong to the
set, and are left out or shown as deleted if they are hidden. -/
def shows? (c : Scope) (r : Record) : Option Record :=
  if r.deleted then some r
  else if c.rule.all (·.admits r) then
    if r.isVisible then some r
    else
      match c.policy with
      | .omit => none
      | .tombstone => some r.tombstone
  else none

/-- The records of a type, sorted by their cursors. -/
def sorted (rs : List Record) (t : RecordType) : List Record :=
  (rs.filter (·.recordType = t)).mergeSort fun a b => !decide (b.cursor < a.cursor)

/-- The reference listing of some records. -/
def reference (c : Scope) (rs : List Record) : List Record :=
  c.recordTypes.flatMap fun t => ((sorted rs t).filter c.covers).filterMap c.shows?

variable {c : Scope} {r x : Record}

theorem covers_iff : c.covers r = true ↔
    (∀ s, c.since = some s → s ≤ r.modified) ∧ (∀ u, c.upTo = some u → r.modified ≤ u) ∧
      ∀ e ∈ c.repositories, e.id = r.repository → e.admits c.set = true := by
  simp [covers, Option.all_eq_true, and_assoc, imp_iff_not_or]

/-- A record that is shown keeps what orders and addresses it. -/
theorem of_shows? (h : c.shows? r = some x) :
    x.uri = r.uri ∧ x.recordType = r.recordType ∧ x.cursor = r.cursor := by
  unfold shows? at h
  split_ifs at h
  · cases h
    exact ⟨rfl, rfl, rfl⟩
  · cases h
    exact ⟨rfl, rfl, rfl⟩
  · split at h <;> cases h
    exact ⟨rfl, rfl, rfl⟩

/-- A live record is shown as it is, if it is visible and belongs to the set. -/
theorem shows?_live_iff : (c.shows? r = some x ∧ x.deleted = false) ↔
    r = x ∧ x.deleted = false ∧ x.isVisible = true ∧ c.rule.all (·.admits x) = true := by
  constructor
  · rintro ⟨hshows, hlive⟩
    unfold shows? at hshows
    split_ifs at hshows with hdeleted hrule hvisible
    · cases hshows
      rw [hdeleted] at hlive
      cases hlive
    · cases hshows
      exact ⟨rfl, hlive, hvisible, hrule⟩
    · split at hshows <;> cases hshows
      cases hlive
  · rintro ⟨rfl, hlive, hvisible, hrule⟩
    refine ⟨?_, hlive⟩
    rw [shows?, hlive, if_neg Bool.false_ne_true, if_pos hrule, if_pos hvisible]

theorem sorted_eq {rs : List Record} (h : Shelved rs) (t : RecordType) :
    sorted rs t = rs.filter (·.recordType = t) := by
  refine List.mergeSort_of_pairwise ?_
  have hcursor := h.pairwise_filter (p := fun r => decide (r.recordType = t)) (t := t) (by simp)
  refine hcursor.imp fun {a b} hab => ?_
  have hnot : ¬ b.cursor < a.cursor := fun h => lt_irrefl _ (lt_trans hab h)
  simpa using hnot

end Scope

namespace Repository

variable {r : Repository} {p : Plan} {rs : List Record}

/-- What the listing of a plan is about. -/
def scope (r : Repository) (p : Plan) : Scope where
  recordTypes := p.options.recordTypes
  set := p.set
  rule := p.rule
  since := p.since
  upTo := p.upTo
  repositories := r.settings.repositories
  policy := r.settings.hiddenPolicy

theorem listed?_eq (x : Record) : (r.pass p).listed? x = (r.scope p).shows? x := by
  have hinSet : (r.pass p).inSet x = (r.scope p).rule.all (·.admits x) := rfl
  have hpolicy : (r.pass p).policy = (r.scope p).policy := rfl
  unfold Pass.listed? Scope.shows? Record.isVisible
  rw [hinSet, hpolicy]
  by_cases hdeleted : x.deleted = true
  · rw [if_pos hdeleted, if_pos hdeleted]
  · rw [if_neg hdeleted, if_neg hdeleted]
    cases x.hiddenReason? <;> cases (r.scope p).policy <;> rfl

theorem admits_query_eq (t : RecordType) (x : Record) :
    ((r.pass p).query t none).admits x = (decide (x.recordType = t) && (r.scope p).covers x) := by
  have hexcluded : x.repository ∉ (r.pass p).excluded ↔
      ∀ e ∈ r.settings.repositories, e.id = x.repository → e.admits p.set = true := by
    simp only [pass, excludedRepositories, List.mem_map, List.mem_filter, not_exists, not_and,
      and_imp, Bool.not_eq_true']
    constructor
    · intro h e he hid
      by_contra hn
      exact h e he (by simpa using hn) hid
    · intro h e he hn hid
      rw [h e he hid] at hn
      cases hn
  rw [Bool.eq_iff_iff, Bool.and_eq_true, decide_eq_true_iff, ScanQuery.admits_iff,
    Scope.covers_iff]
  refine and_congr_right fun _ => ?_
  simp only [Pass.query, reduceCtorEq, false_imp_iff, implies_true, true_and]
  exact and_congr_right fun _ => and_congr_right fun _ => hexcluded

theorem ofType_eq_shown (h : Shelved rs) (t : RecordType) : (r.pass p).ofType rs t none =
    ((Scope.sorted rs t).filter (r.scope p).covers).filterMap (r.scope p).shows? := by
  rw [Scope.sorted_eq h, List.filter_filter, Pass.ofType]
  refine congrArg₂ _ (funext listed?_eq) (List.filter_congr fun x _ => ?_)
  rw [admits_query_eq, Bool.and_comm]

/-- An entry of the whole listing is a record that the scope covers, as it is shown, with the
place of its type. -/
theorem mem_whole {e : Entry} : e ∈ r.whole rs p ↔
    ∃ x ∈ rs, p.options.recordTypes[e.1]? = some x.recordType ∧ (r.scope p).covers x = true ∧
      (r.scope p).shows? x = some e.2 := by
  simp only [whole, Pass.mem_listing, Pass.mem_ofType, admits_query_eq, listed?_eq,
    Bool.and_eq_true, decide_eq_true_eq, Nat.zero_add]
  constructor
  · rintro ⟨i, t, ht, rfl, x, hx, ⟨rfl, hc⟩, hs⟩
    exact ⟨x, hx, ht, hc, hs⟩
  · rintro ⟨x, hx, ht, hc, hs⟩
    exact ⟨e.1, x.recordType, ht, rfl, x, hx, ⟨rfl, hc⟩, hs⟩

theorem index_lt_of_mem_whole {e : Entry} (he : e ∈ r.whole rs p) :
    e.1 < p.options.recordTypes.length := by
  obtain ⟨x, -, ht, -⟩ := mem_whole.1 he
  exact (List.getElem?_eq_some_iff.1 ht).1

theorem pairwise_uri_whole {s : Store} (hs : s.WellFormed) (htypes : p.options.recordTypes.Nodup) :
    (r.whole s.records p).Pairwise fun a b => a.2.uri ≠ b.2.uri := by
  refine (pairwise_whole (Store.shelved_records hs)).imp_of_mem fun {a b} ha hb hab huri => ?_
  obtain ⟨x, hx, hxt, -, hxs⟩ := mem_whole.1 ha
  obtain ⟨y, hy, hyt, -, hys⟩ := mem_whole.1 hb
  obtain ⟨hxu, -, hxc⟩ := Scope.of_shows? hxs
  obtain ⟨hyu, -, hyc⟩ := Scope.of_shows? hys
  -- one record of the URI would be listed twice, at one spot
  obtain rfl := Store.eq_of_mem_records hs hx hy (hxu.symm.trans (huri.trans hyu))
  have hindex : a.1 = b.1 := (List.getElem?_inj (index_lt_of_mem_whole ha) htypes).1
    (hxt.trans hyt.symm)
  have hspot : spotOf a = spotOf b := by rw [spotOf, spotOf, hindex, hxc, hyc]
  rw [hspot] at hab
  exact lt_irrefl _ hab

end Repository

end Harvest
