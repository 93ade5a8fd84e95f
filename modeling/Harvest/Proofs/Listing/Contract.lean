import Harvest.Proofs.Listing.Progress
import Harvest.Proofs.Listing.Scope

/-!
# Sources that keep their contract

Whatever a source is, it is asked for batches only.  It keeps its contract over some records
(`Source.Keeps`) when every batch holds the first of them that the query admits, in the order of
their cursors, and is short only if there are no more.  Nothing is said of how the records are kept:
they come as a list in any order, no two of them at one place.

Laid out in the order of their places, such records are served (`Source.Keeps.serves`), so that
`Repository.ensures_find` applies.  Hence one page is exact, wherever it starts and however large a
batch is: `Repository.find_of_keeps` compares it with `Scope.entries`, the reference listing with
the places of its record types.
-/

namespace Harvest

/-- A batch holds the first records that a query admits, in the order of their cursors, and is short
only if there are no more. -/
def ScanQuery.AnsweredBy (q : ScanQuery) (rs batch : List Record) : Prop :=
  ∃ rest, (batch ++ rest).Perm (rs.filter q.admits) ∧
    (batch ++ rest).Pairwise (fun a b => a.cursor < b.cursor) ∧
    batch.length ≤ q.limit ∧ (batch.length < q.limit → rest = [])

/-- In every state with `I`, scans answer their queries from some records, no two of which have one
place. -/
structure Source.Keeps {σ : Type} (src : Source σ) (I : σ → Prop) (rs : List Record) : Prop where
  distinct : rs.Pairwise fun a b => a.place ≠ b.place
  scan : ∀ q s, I s → ∃ batch,
    (src.scan q s).1 = .ok batch ∧ q.AnsweredBy rs batch ∧ I (src.scan q s).2

/-! ### Records in order -/

/-- Records in the order of their places. -/
def shelf (rs : List Record) : List Record := rs.mergeSort fun a b => !b.place.before a.place

variable {rs : List Record}

theorem perm_shelf (rs : List Record) : (shelf rs).Perm rs := List.mergeSort_perm _ _

theorem shelved_shelf (h : rs.Pairwise fun a b => a.place ≠ b.place) : Shelved (shelf rs) := by
  have hordered : (shelf rs).Pairwise fun a b => (!b.place.before a.place) = true := by
    refine List.pairwise_mergeSort (fun a b c hab hbc => ?_) (fun a b => ?_) rs
    · simp only [Bool.not_eq_true', Bool.eq_false_iff, ne_eq, Place.before_iff_lt, not_lt] at *
      exact le_trans hab hbc
    · simp only [Bool.or_eq_true, Bool.not_eq_true', Bool.eq_false_iff, ne_eq,
        Place.before_iff_lt, not_lt]
      exact le_total a.place b.place
  have hdistinct : (shelf rs).Pairwise fun a b => a.place ≠ b.place :=
    (perm_shelf rs).symm.pairwise h Ne.symm
  refine (hordered.and hdistinct).imp fun {a b} hab => ?_
  obtain hlt | heq | hgt := lt_trichotomy a.place b.place
  · exact Place.before_iff_lt.2 hlt
  · exact absurd heq hab.2
  · rw [Place.before_iff_lt.2 hgt] at hab
    exact absurd hab.1 Bool.false_ne_true

theorem ScanQuery.AnsweredBy.eq_take {q : ScanQuery} {batch : List Record}
    (h : q.AnsweredBy rs batch) {l : List Record} (hl : Shelved l) (hperm : l.Perm rs) :
    batch = (l.filter q.admits).take q.limit := by
  obtain ⟨rest, hrest, hordered, hle, hshort⟩ := h
  have hl' := hl.pairwise_filter (p := q.admits) fun r hr => (ScanQuery.admits_iff.1 hr).1
  have hall : batch ++ rest = l.filter q.admits := by
    refine eq_of_pairwise_of_mem (r := fun a b : Record => a.cursor < b.cursor)
      (fun a b => lt_asymm) hordered hl' fun r => ?_
    rw [hrest.mem_iff, (hperm.filter _).mem_iff]
  rw [← hall]
  obtain hlt | heq := Nat.lt_or_eq_of_le hle
  · rw [hshort hlt, List.append_nil, List.take_of_length_le hle]
  · rw [← heq, List.take_left]

/-- **A source that keeps its contract serves its records**, laid out in order. -/
theorem Source.Keeps.serves {σ : Type} {src : Source σ} {I : σ → Prop} (h : src.Keeps I rs) :
    src.Serves I (shelf rs) where
  shelved := shelved_shelf h.distinct
  scan q s hs := by
    obtain ⟨batch, hbatch, hanswered, hI⟩ := h.scan q s hs
    rw [hbatch, hanswered.eq_take (shelved_shelf h.distinct) (perm_shelf rs)]
    exact ⟨rfl, hI⟩

/-- A source that serves records keeps its contract over them. -/
theorem Source.Serves.keeps {σ : Type} {src : Source σ} {I : σ → Prop} (h : src.Serves I rs) :
    src.Keeps I rs where
  distinct := h.shelved.imp fun hab => Place.ne_of_before hab
  scan q s hs := by
    obtain ⟨hbatch, hI⟩ := h.scan q s hs
    refine ⟨_, hbatch, ⟨(rs.filter q.admits).drop q.limit, ?_, ?_, List.length_take_le _ _, ?_⟩,
      hI⟩
    · rw [List.take_append_drop]
    · rw [List.take_append_drop]
      exact h.shelved.pairwise_filter fun r hr => (ScanQuery.admits_iff.1 hr).1
    · intro hlt
      rw [List.length_take] at hlt
      exact List.drop_eq_nil_of_le (by omega)

/-! ### The reference listing -/

namespace Scope

/-- The entries of the reference listing: for each record type in order, the records sorted by their
cursors, those that are covered, as they are shown, with the place of the type. -/
def entries (c : Scope) (rs : List Record) : List Entry :=
  c.recordTypes.zipIdx.flatMap fun t =>
    (((sorted rs t.1).filter c.covers).filterMap c.shows?).map fun r => (t.2, r)

/-- The entries that come after a spot, if there is one to start from. -/
def behind (c : Scope) (rs : List Record) (start : Option Spot) : List Entry :=
  (c.entries rs).filter fun e => start.all (· < spotOf e)

theorem pairwise_sorted (rs : List Record) (t : RecordType) :
    (sorted rs t).Pairwise fun a b => (!decide (b.cursor < a.cursor)) = true :=
  pairwise_mergeSort_cursor _

/-- The records of a type do not depend on the order in which they are given. -/
theorem sorted_shelf (h : rs.Pairwise fun a b => a.place ≠ b.place) (t : RecordType) :
    sorted (shelf rs) t = sorted rs t := by
  have hmem : ∀ {r}, r ∈ sorted (shelf rs) t → r ∈ shelf rs ∧ r.recordType = t := fun hr => by
    simpa [sorted] using hr
  have hperm : (sorted (shelf rs) t).Perm (sorted rs t) :=
    (List.mergeSort_perm _ _).trans (((perm_shelf rs).filter _).trans
      (List.mergeSort_perm _ _).symm)
  refine hperm.eq_of_pairwise (fun a b ha hb hab hba => ?_) (pairwise_sorted _ t)
    (pairwise_sorted rs t)
  -- two records of one type with one cursor have one place
  obtain ⟨ha, hta⟩ := hmem ha
  obtain ⟨hb, htb⟩ := hmem (hperm.mem_iff.2 hb)
  have hcursor : a.cursor = b.cursor := by
    simp only [Bool.not_eq_true', decide_eq_false_iff_not, not_lt] at hab hba
    exact le_antisymm hab hba
  exact (shelved_shelf h).eq_of_place ha hb (by rw [Record.place, Record.place, hta, htb, hcursor])

theorem entries_shelf {c : Scope} (h : rs.Pairwise fun a b => a.place ≠ b.place) :
    c.entries (shelf rs) = c.entries rs := by
  simp only [entries, sorted_shelf h]

end Scope

namespace Repository

open Engine

variable {σ : Type} {src : Source σ} {I : σ → Prop} {r : Repository} {q : ListRequest} {p : Plan}
  {s : σ}

theorem whole_eq_entries (h : Shelved rs) : r.whole rs p = (r.scope p).entries rs := by
  have hlisting : ∀ ts index, (r.pass p).listing rs index ts none =
      (ts.zipIdx index).flatMap fun t => ((r.pass p).ofType rs t.1 none).map fun x => (t.2, x) := by
    intro ts
    induction ts with
    | nil => exact fun _ => rfl
    | cons t ts ih =>
      intro index
      rw [Pass.listing, ih, List.zipIdx_cons, List.flatMap_cons]
  rw [whole, hlisting, Scope.entries]
  simp only [ofType_eq_shown h]
  rfl

/-- A plan is for a request: it has the options of a format that is registered, the rule of its set,
and the start, format, set and bounds that the request names, itself or by its token. -/
structure PlanFor (r : Repository) (q : ListRequest) (p : Plan) : Prop where
  registered : r.formats.options? p.metadataPrefix = some p.options
  resolved : r.resolveSet p.set = .ok p.rule
  start : r.start? q = p.start
  inRange : p.InRange
  continues : ∀ e, r.Continues q (p.tokenAt e)

theorem planFor_of_planned (h : r.planned q = .ok p) : r.PlanFor q p := by
  obtain ⟨hstart, hcontinues⟩ := of_planned h
  have hparts : r.formats.options? p.metadataPrefix = some p.options ∧
      r.resolveSet p.set = .ok p.rule := by
    cases hq : q.token with
    | none =>
      obtain ⟨hfresh, -⟩ := (planned_fresh_eq_ok_iff hq).1 h
      obtain ⟨m, o, rule, -, ho, hrule, rfl⟩ := planFresh_eq_ok_iff.1 hfresh
      exact ⟨ho, hrule⟩
    | some raw =>
      obtain ⟨t, -, hresumed, -⟩ := (planned_resumed_eq_ok_iff hq).1 h
      obtain ⟨-, o, rule, ho, -, hrule, rfl⟩ := planResumed_eq_ok_iff.1 hresumed
      exact ⟨ho, hrule⟩
  exact ⟨hparts.1, hparts.2, hstart, inRange_of_planned h, hcontinues⟩

theorem due_eq_behind (h : Shelved rs) (hp : p.InRange) :
    r.due rs p = (r.scope p).behind rs (p.start.map TokenPosition.spot) := by
  rw [due_eq hp, whole_eq_entries h, Scope.behind]
  refine List.filter_congr fun e _ => ?_
  rw [Plan.reaches, Option.all_map]

/-- **One page is exact over any source that keeps its contract.**  A request that can be planned is
answered with the first entries of the reference listing behind its start, as many as a page has
room for.  The page is the last one exactly if there are no more; else its token is for the same
request and holds the spot of its last record. -/
theorem find_of_keeps (hsrc : src.Keeps I rs) (hs : I s) (hp : r.planned q = .ok p)
    (hvalid : p.options.validate = .ok ()) :
    r.PlanFor q p ∧ ∃ page, ((r.find src q).run s).result = .ok page ∧
      let due := (r.scope p).behind rs (p.start.map TokenPosition.spot)
      page.records = (due.take p.options.pageSize).map Prod.snd ∧
      (page.isTerminal = true ↔ due.length ≤ p.options.pageSize) ∧
      ∀ t, page.next = some t → r.Continues q t ∧
        ∃ e, (due.take p.options.pageSize).getLast? = some e ∧ t.position.spot = spotOf e := by
  have hfor := planFor_of_planned hp
  obtain ⟨-, hsize, hnodup⟩ := FormatOptions.validate_eq_ok_iff.1 hvalid
  have hfind : ((r.find src q).run s).result = .ok (r.pageOver (shelf rs) p) := by
    rw [(ensures_find hsrc.serves q s hs).1, hp]
    rfl
  have hdue : r.due (shelf rs) p = (r.scope p).behind rs (p.start.map TokenPosition.spot) := by
    rw [due_eq_behind (shelved_shelf hsrc.distinct) hfor.inRange, Scope.behind,
      Scope.entries_shelf hsrc.distinct, ← Scope.behind]
  refine ⟨hfor, _, hfind, ?_⟩
  rw [← hdue]
  refine ⟨rfl, ?_, fun t ht => ?_⟩
  · obtain ⟨hnext, hrecords⟩ | ⟨e, -, hnext, hlt⟩ := pageOver_cases r (shelf rs) hsize
    · -- a page that holds all that is due is no larger than a page may be
      have hlen := congrArg List.length hrecords
      rw [pageOver, List.length_map, List.length_map, List.length_take] at hlen
      have hle : (r.due (shelf rs) p).length ≤ p.options.pageSize := by omega
      simp [Page.isTerminal, hnext, hle]
    · simp [Page.isTerminal, hnext, hlt]
  · obtain ⟨hnext, -⟩ | ⟨e, hlast, hnext, -⟩ := pageOver_cases r (shelf rs) hsize
    · rw [hnext] at ht
      cases ht
    · obtain rfl : p.tokenAt e = t := Option.some.inj (hnext.symm.trans ht)
      refine ⟨hfor.continues e, e, hlast, Plan.spot_tokenAt ?_⟩
      obtain ⟨hmem, -⟩ := mem_whole_of_last hfor.inRange hlast
      exact Nat.le_of_lt (Nat.lt_of_lt_of_le (index_lt_of_mem_whole hmem)
        (FormatOptions.length_le_six hnodup))

/-! ### A page from a cursor that no record has -/

/-- A token that points between two collections. -/
def betweenToken : ResumptionToken where
  metadataPrefix := "oai_dc"
  set := none
  since := none
  upTo := none
  position := ⟨0, ⟨Store.sampleTime 15, 7⟩⟩

/-- The plan of a listing that goes on from there. -/
def betweenPlan : Plan := { singlesPlan with start := some betweenToken.position }

theorem behind_betweenPlan : ((sampleSingles.scope betweenPlan).behind Store.sample.records
    (betweenPlan.start.map TokenPosition.spot)).map (fun e => (e.1, e.2.uri)) =
      [(0, Store.sampleDrawer.uri), (1, Store.sampleLetter.uri)] := by
  have hshelved := Store.shelved_records Store.sample_reachable.wellFormed
  rw [Scope.behind, Scope.entries]
  simp only [Scope.sorted_eq hshelved]
  decide +kernel

/-- From between two records, a page of one record goes on with the later one. -/
theorem find_of_keeps_between : ∃ page,
    ((sampleSingles.find Store.source
      (.resume (sampleSingles.codec.serialize betweenToken))).run Store.sample).result = .ok page ∧
    page.records.map Record.uri = [Store.sampleDrawer.uri] ∧ page.isTerminal = false := by
  have hread : sampleSingles.codec.deserialize (sampleSingles.codec.serialize betweenToken) =
      .ok betweenToken := by
    refine Codec.deserialize_serialize _ _ (by decide) ?_
    exact Nat.le_trans (Codec.utf8ByteSize_serialize_le _ _) (by decide)
  have hplan : sampleSingles.planned (.resume (sampleSingles.codec.serialize betweenToken)) =
      .ok betweenPlan := by
    refine (planned_resumed_eq_ok_iff rfl).2 ⟨_, hread, ?_, by rintro a b ⟨⟩⟩
    exact planResumed_eq_ok_iff.2 ⟨rfl, _, none, rfl, by decide, rfl, rfl⟩
  have hkeeps := (Store.serves Store.sample_reachable.wellFormed).keeps
  obtain ⟨-, page, hpage, hrecords, hterminal, -⟩ := find_of_keeps hkeeps rfl hplan rfl
  have hdue := behind_betweenPlan
  have hlen := congrArg List.length hdue
  rw [List.length_map] at hlen
  refine ⟨page, hpage, ?_, ?_⟩
  · have hfirst := congrArg (fun l => (l.map Prod.snd).take 1) hdue
    simp only [List.map_map, ← List.map_take] at hfirst
    rw [hrecords, List.map_map]
    exact hfirst
  · rw [Bool.eq_false_iff, ne_eq, hterminal, hlen]
    decide

end Repository

end Harvest
