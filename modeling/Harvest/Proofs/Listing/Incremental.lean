import Harvest.Proofs.Listing.Lookup
import Harvest.Proofs.Store.Amendments

/-!
# Harvesting what has changed

Whoever has harvested everything may later ask only for what has changed since
(`ListRequest.changed`), and lay the answer over what is there already (`updatedStatus`).  If hidden
records are listed as deleted, this keeps track of every record that a call has changed: the record
has the time of the call (`Store.lookup_writes_cases`), so the second harvest tells how it stands.

It does not keep track of a record that only its ancestors hide or show.  Those are looked up when
the record is read, and it keeps its own time.  Such records, and no others, are out of date
afterwards where all times are aligned (`Repository.updatedStatus_eq_iff`); unpublishing a
collection makes its file one of them (`Repository.not_updated_letter`).
-/

namespace Harvest

/-- What some pages say of a URI: whether it is deleted, if they list it. -/
def statusIn (pages : List Page) (uri : String) : Option Bool :=
  ((pages.flatMap Page.records).find? fun x => x.uri = uri).map Record.deleted

/-- What is known of a URI when new pages are laid over old ones. -/
def updatedStatus (old new : List Page) (uri : String) : Option Bool :=
  (statusIn new uri).or (statusIn old uri)

/-- The request for what has changed in a format since a certain time. -/
def ListRequest.changed (m : String) (since : Instant) : ListRequest where
  metadataPrefix := some m
  since := some since

/-- A record that is listed is published itself, but its ancestors hide it in just one of two
stores, and its own time is early. -/
structure Overlooked (c : Settings) (o : FormatOptions) (s s' : Store) (since : Instant)
    (x : Record) : Prop where
  covered : x.recordType ∈ o.recordTypes
  enabled : ∀ e ∈ c.repositories, e.id = x.repository → e.disabled = false
  early : x.modified < since
  live : x.deleted = false
  published : x.publish = true
  unsuppressed : x.suppressed = false
  ancestors : ¬ ((∀ a ∈ x.ancestors, (s.current a).publish = true) ↔
    ∀ a ∈ x.ancestors, (s'.current a).publish = true)

/-- Whether a stored record is listed as deleted, if hidden records are. -/
def Store.standing (s : Store) (x : Record) : Bool := x.deleted || !(s.view x).isVisible

/-- Without a set, and with hidden records listed as deleted, every record is shown. -/
theorem Scope.shows?_map_deleted {c : Scope} (hrule : c.rule = none)
    (hpolicy : c.policy = .tombstone) (x : Record) :
    (c.shows? x).map Record.deleted = some (x.deleted || !x.isVisible) := by
  unfold shows?
  rw [hrule, hpolicy]
  cases hdeleted : x.deleted <;> cases x.isVisible <;> simp [hdeleted, Record.tombstone]

namespace Repository

variable {r : Repository} {s s' : Store} {p : Plan} {m : String} {o : FormatOptions}
  {since : Instant} {x y : Record}

/-! ### What a harvest says of a URI -/

/-- Whether a record is in a listing of everything. -/
def lists (r : Repository) (m : String) (o : FormatOptions) (x : Record) : Bool :=
  o.supports x.recordType && (r.scope (Plan.everything m o)).covers x

theorem lists_iff : r.lists m o x = true ↔ x.recordType ∈ o.recordTypes ∧
    ∀ e ∈ r.settings.repositories, e.id = x.repository → e.disabled = false := by
  rw [lists, Bool.and_eq_true, covers_everything_iff, FormatOptions.supports, decide_eq_true_iff]

theorem lists_of_amends (h : y.Amends x) : r.lists m o y = r.lists m o x := by
  rw [Bool.eq_iff_iff, lists_iff, lists_iff, h.recordType, h.repository]

theorem shown?_map_deleted (hrule : p.rule = none) (hpolicy : r.settings.hiddenPolicy = .tombstone)
    (s : Store) (uri : String) : (r.shown? s p uri).map Record.deleted =
      ((s.lookup uri).filter fun x => p.options.supports x.recordType && (r.scope p).covers x).map
        s.standing := by
  rw [shown?, Store.get]
  cases s.lookup uri with
  | none => rfl
  | some x =>
    -- nothing that a scope looks at is changed by reading
    have hlisted : (p.options.supports (s.view x).recordType && (r.scope p).covers (s.view x)) =
        (p.options.supports x.recordType && (r.scope p).covers x) := rfl
    rw [Option.map_some, Option.filter_some, Option.filter_some, hlisted]
    split_ifs
    · exact Scope.shows?_map_deleted hrule hpolicy (s.view x)
    · rfl

theorem statusIn_eq (hs : s.WellFormed) (htypes : p.options.recordTypes.Nodup) {pages : List Page}
    (hrecords : pages.flatMap Page.records = (r.whole s.records p).map Prod.snd) (uri : String) :
    statusIn pages uri = (r.shown? s p uri).map Record.deleted := by
  rw [statusIn, hrecords, ← List.head?_filter, filter_uri_whole hs htypes]
  cases r.shown? s p uri <;> rfl

/-- A harvest without a set tells how every listed record stands that has a late time. -/
theorem exists_harvests_standing (hs : s.Reachable) (haligned : s.IsAligned)
    (hformats : r.formats.IsStandard) (hpolicy : r.settings.hiddenPolicy = .tombstone)
    (ho : r.formats.options? m = some o) (since : Option Instant)
    (hsince : ∀ i ∈ since, i.IsAligned) :
    ∃ pages, r.Harvests s { metadataPrefix := some m, since := since } pages ∧
      ∀ uri, statusIn pages uri =
        ((s.lookup uri).filter fun x => since.all (· ≤ x.modified) && r.lists m o x).map
          s.standing := by
  have hrule : r.resolveSet none = .ok none := rfl
  have hwindow : ∀ a b, since = some a → none = some b → a ≤ b := by rintro a b - ⟨⟩
  obtain ⟨-, -, htypes⟩ := FormatOptions.validate_eq_ok_iff.1 (hformats m o ho).2
  have hbounds : AlignedBounds since none := ⟨hsince, alignedBounds_none.2⟩
  obtain ⟨pages, hpages, -, -, hrecords⟩ := exists_harvests hs hformats ho hrule (Nat.zero_le _)
    hwindow hbounds
  have hall := hrecords fun e he => isAligned_of_mem_whole haligned he
  refine ⟨pages, hpages, fun uri => ?_⟩
  rw [statusIn_eq hs.wellFormed htypes hall, shown?_map_deleted rfl hpolicy]
  congr 2
  funext x
  simp only [lists, Scope.covers, scope, Plan.everything, Option.all_none, Bool.true_and]
  ac_rfl

/-! ### What is overlooked -/

/-- A record stands differently in two stores exactly if its ancestors alone make the
difference. -/
theorem standing_ne_iff : s.standing x ≠ s'.standing x ↔
    x.deleted = false ∧ x.publish = true ∧ x.suppressed = false ∧
      ¬ ((∀ a ∈ x.ancestors, (s.current a).publish = true) ↔
        ∀ a ∈ x.ancestors, (s'.current a).publish = true) := by
  have hvisible : (s.view x).isVisible = (s'.view x).isVisible ↔
      ((s.view x).isVisible = true ↔ (s'.view x).isVisible = true) := Bool.eq_iff_iff
  rw [Store.isVisible_view_iff, Store.isVisible_view_iff] at hvisible
  cases hdeleted : x.deleted with
  | true => simp [Store.standing, hdeleted]
  | false =>
    rw [Store.standing, Store.standing, hdeleted, Bool.false_or, Bool.false_or, ne_eq,
      Bool.not_inj_iff, hvisible]
    tauto

theorem overlooked_iff : Overlooked r.settings o s s' since x ↔
    r.lists m o x = true ∧ x.modified < since ∧ s.standing x ≠ s'.standing x := by
  rw [lists_iff, standing_ne_iff]
  constructor
  · rintro ⟨hcovered, henabled, hearly, hlive, hpublished, hunsuppressed, hancestors⟩
    exact ⟨⟨hcovered, henabled⟩, hearly, hlive, hpublished, hunsuppressed, hancestors⟩
  · rintro ⟨⟨hcovered, henabled⟩, hearly, hlive, hpublished, hunsuppressed, hancestors⟩
    exact ⟨hcovered, henabled, hearly, hlive, hpublished, hunsuppressed, hancestors⟩

/-- **Laying over what has changed since some time brings every URI up to date, unless its record is
overlooked**, if hidden records are listed as deleted and all calls in between have that time or a
later one.  All times are aligned here, as pages must not skip records. -/
theorem updatedStatus_eq_iff {ws : List Write} (hpolicy : r.settings.hiddenPolicy = .tombstone)
    (hg : r.settings.formatRegistry = .ok r.formats) (ho : r.formats.options? m = some o)
    (hs : s.Reachable) (hws : ∀ w ∈ ws, w.StampedSince since) (haligned : s.IsAligned)
    (haligned' : (s.writes ws).IsAligned) (hsince : since.IsAligned) :
    ∃ old new full, r.Harvests s (.fresh m) old ∧
      r.Harvests (s.writes ws) (.changed m since) new ∧
      r.Harvests (s.writes ws) (.fresh m) full ∧
      ∀ uri, updatedStatus old new uri = statusIn full uri ↔
        ∀ x, (s.writes ws).lookup uri = some x →
          ¬ Overlooked r.settings o s (s.writes ws) since x := by
  have hformats := Settings.isStandard_formatRegistry hg
  have hs' := hs.writes ws
  obtain ⟨old, hold, hstatusOld⟩ := exists_harvests_standing hs haligned hformats hpolicy ho none
    alignedBounds_none.1
  obtain ⟨new, hnew, hstatusNew⟩ := exists_harvests_standing hs' haligned' hformats hpolicy ho
    (some since) (by rintro i ⟨⟩; exact hsince)
  obtain ⟨full, hfull, hstatusFull⟩ := exists_harvests_standing hs' haligned' hformats hpolicy ho
    none alignedBounds_none.1
  refine ⟨old, new, full, hold, hnew, hfull, fun uri => ?_⟩
  rw [updatedStatus, hstatusOld, hstatusNew, hstatusFull]
  simp only [overlooked_iff (m := m), Option.all_none, Option.all_some, Bool.true_and]
  obtain hsame | ⟨x, y, hx, hy, hamends, hlate⟩ :=
    Store.lookup_writes_cases hs.wellFormed hws uri
  · -- no call has changed the record, and its time says where its status comes from
    rw [hsame]
    cases s.lookup uri with
    | none => simp
    | some x =>
      cases hlists : r.lists m o x with
      | false => simp [Option.filter_some, hlists]
      | true =>
        obtain hlate | hearly := le_or_gt since x.modified
        · simp [Option.filter_some, hlists, hlate, not_lt.2 hlate]
        · simp [Option.filter_some, hlists, hearly, not_le.2 hearly]
  · -- a changed record has a late time, and is listed exactly if it was
    have hamended := lists_of_amends (r := r) (m := m) (o := o) hamends
    rw [hx, hy]
    cases hlists : r.lists m o x <;>
      simp [Option.filter_some, hamended, hlists, hlate, not_lt.2 hlate]

/-- The collection is unpublished. -/
def unpublishing : List Write :=
  [.setPublish Store.sampleCollection.uri false (Store.sampleTime 50)]

theorem stampedSince_unpublishing : ∀ w ∈ unpublishing, w.StampedSince (Store.sampleTime 50) := by
  intro w hw
  cases List.mem_singleton.1 hw
  exact ⟨_, rfl, by decide⟩

/-- The collection itself is brought up to date. -/
theorem updatedStatus_eq_iff_collection : ∃ old new full,
    sample.Harvests Store.sample (.fresh "oai_dc") old ∧
    sample.Harvests (Store.sample.writes unpublishing) (.changed "oai_dc" (Store.sampleTime 50))
      new ∧
    sample.Harvests (Store.sample.writes unpublishing) (.fresh "oai_dc") full ∧
    updatedStatus old new Store.sampleCollection.uri =
      statusIn full Store.sampleCollection.uri := by
  obtain ⟨old, new, full, hold, hnew, hfull, hiff⟩ := updatedStatus_eq_iff (r := sample)
    (m := "oai_dc") (o := { recordTypes := [.resource, .archivalObject] }) rfl rfl rfl
    Store.sample_reachable stampedSince_unpublishing (by decide +kernel) (by decide +kernel)
    (by decide)
  refine ⟨old, new, full, hold, hnew, hfull, (hiff _).2 fun x hx hover => ?_⟩
  cases hx
  exact absurd hover.early (by decide)

/-- The letter is hidden with its collection, but the harvest of what has changed does not say
so. -/
theorem not_updated_letter :
    sample.settings.validate = .ok () ∧ sample.settings.hiddenPolicy = .tombstone ∧
    sample.settings.formatRegistry = .ok sample.formats ∧ Store.sample.Reachable ∧
    (∀ w ∈ unpublishing, w.StampedSince (Store.sampleTime 50)) ∧
    ∃ old new full,
      sample.Harvests Store.sample (.fresh "oai_dc") old ∧
      sample.Harvests (Store.sample.writes unpublishing) (.changed "oai_dc" (Store.sampleTime 50))
        new ∧
      sample.Harvests (Store.sample.writes unpublishing) (.fresh "oai_dc") full ∧
      updatedStatus old new Store.sampleLetter.uri = some false ∧
      statusIn full Store.sampleLetter.uri = some true := by
  have hvalid : sample.settings.validate = .ok () :=
    Settings.validate_eq_ok_iff.2 ⟨⟨by decide, by decide⟩, by rintro e ⟨⟩, rfl, _, rfl⟩
  have hformats : sample.formats.IsStandard :=
    Settings.isStandard_formatRegistry (s := sample.settings) rfl
  have ho : sample.formats.options? "oai_dc" =
    some { recordTypes := [.resource, .archivalObject] } := rfl
  have hafter := Store.sample_reachable.writes unpublishing
  have haligned : (Store.sample.writes unpublishing).IsAligned := by decide +kernel
  obtain ⟨old, hold, hstatusOld⟩ := exists_harvests_standing Store.sample_reachable
    (by decide +kernel) hformats rfl ho none alignedBounds_none.1
  obtain ⟨new, hnew, hstatusNew⟩ := exists_harvests_standing hafter haligned hformats rfl ho
    (some (Store.sampleTime 50)) (by decide)
  obtain ⟨full, hfull, hstatusFull⟩ := exists_harvests_standing hafter haligned hformats rfl ho
    none alignedBounds_none.1
  refine ⟨hvalid, rfl, rfl, Store.sample_reachable, stampedSince_unpublishing, old, new, full, hold,
    hnew, hfull, ?_, ?_⟩
  · rw [updatedStatus, hstatusOld, hstatusNew]
    rfl
  · rw [hstatusFull]
    rfl

end Repository

end Harvest
