import Harvest.Proofs.Datestamp
import Harvest.Proofs.Listing.Lookup
import Harvest.Proofs.Provider.Harvester
import Harvest.Proofs.Store.Refinement

/-!
# Harvests by window

A harvester that comes back asks for a window: a lower bound, or both bounds.  A listing of the
window has what the listing without dates has (`Provider.undated`), less what was modified outside
the window (`Repository.whole_window`).  Its complete harvest returns nothing else, and all of it if
the times in it are aligned (`Provider.exists_harvested_within`), which they are in the window of a
second.  With what datestamps cover, this gives:

* `Provider.windows_leave_no_gap`: **day by day, or second by second, each record is harvested in
  one window and there once**, whatever its fraction of a second is.  Leap seconds are left out: an
  upper bound stops a nanosecond before the one that ends its day or its second, and the next lower
  bound comes after it (`Provider.not_covers_lastOf2016`).
* `Provider.datestamps_are_bounds`: **what the headers show can be sent back as bounds**, and so can
  the earliest datestamp that the repository names.
-/

namespace Harvest

open Datestamp Harvester

namespace Repository

variable {r : Repository} {rs : List Record} {m : String} {o : FormatOptions}

/-- Whether a record was modified within bounds. -/
def within (since upTo : Option Instant) (x : Record) : Bool :=
  since.all (· ≤ x.modified) && upTo.all (x.modified ≤ ·)

/-- **A window keeps what was modified within it**, in the same order. -/
theorem whole_window (h : Shelved rs) (since upTo : Option Instant) :
    r.whole rs ⟨m, none, none, since, upTo, o, none⟩ =
      (r.whole rs (Plan.everything m o)).filter fun e => within since upTo e.2 := by
  refine eq_of_pairwise_of_mem (r := fun a b => spotOf a < spotOf b) (fun a b => lt_asymm)
    (pairwise_whole h) ((pairwise_whole h).filter _) fun e => ?_
  have hcovers : ∀ x, (r.scope ⟨m, none, none, since, upTo, o, none⟩).covers x =
      ((r.scope (Plan.everything m o)).covers x && within since upTo x) := by
    intro x
    simp [Scope.covers, scope, Plan.everything, within, Bool.and_comm]
  have hshown : ∀ {x}, (r.scope (Plan.everything m o)).shows? x = some e.2 →
      within since upTo x = within since upTo e.2 := by
    intro x hx
    have hmodified : x.modified = e.2.modified :=
      (congrArg Cursor.modified (Scope.of_shows? hx).2.2).symm
    rw [within, within, hmodified]
  rw [List.mem_filter, mem_whole, mem_whole]
  constructor
  · rintro ⟨x, hx, htype, hcovered, hshows⟩
    rw [hcovers, Bool.and_eq_true] at hcovered
    exact ⟨⟨x, hx, htype, hcovered.1, hshows⟩, hshown hshows ▸ hcovered.2⟩
  · rintro ⟨⟨x, hx, htype, hcovered, hshows⟩, hwithin⟩
    refine ⟨x, hx, htype, ?_, hshows⟩
    rw [hcovers, hcovered, hshown hshows, hwithin]
    rfl

end Repository

namespace Provider

variable {σ : Type} {settings : Settings} {mappers : MapperRegistry} {explain : Explanation}
  {p : Provider} {t : σ} {s : Store} {now : Instant} {m : String} {o : FormatOptions}
  {g : Granularity} {text : String} {a b : Datestamp} {x : Record}

/-! ### Requests for windows -/

theorem listRequest_since (ha : readLower text = .ok a) :
    listRequest (headers m (some text) none) =
      .ok { metadataPrefix := some m, since := some a.value } := by
  simp [listRequest, headers, freshRequest, bound?, ha, Except.map]

theorem listRequest_window (ha : readLower text = .ok a) (hb : readUpper text = .ok b)
    (hgranularity : a.granularity = b.granularity) :
    listRequest (headers m (some text) (some text)) =
      .ok { metadataPrefix := some m, since := some a.value, upTo := some b.value } := by
  simp [listRequest, headers, freshRequest, bound?, ha, hb, hgranularity, Except.map]

theorem exists_upper (ha : readLower text = .ok a) :
    ∃ b, readUpper text = .ok b ∧ b.granularity = a.granularity ∧ a.value ≤ b.value := by
  obtain ⟨a', b, ha', hb, hga, hgb, hsa, hsb⟩ := exists_window (readLower_eq_ok_iff.1 ha).1
  obtain rfl : a = a' := Except.ok.inj (ha.symm.trans ha')
  refine ⟨b, hb, hgb, ?_⟩
  have hspan : 1 ≤ a.granularity.span := by cases a.granularity <;> decide
  have hna := (readLower_eq_ok_iff.1 ha).2
  rw [Instant.le_def]
  omega

theorem alignedBounds_since (ha : readLower text = .ok a) : AlignedBounds (some a.value) none := by
  have haligned : a.value.IsAligned :=
    Instant.isAligned_of_nanos_lt (by rw [(readLower_eq_ok_iff.1 ha).2]; decide)
  simp [AlignedBounds, haligned]

theorem alignedBounds_window (ha : readLower text = .ok a) (hb : readUpper text = .ok b) :
    AlignedBounds (some a.value) (some b.value) := by
  have haligned : b.value.IsAligned :=
    Instant.isAligned_of_nanos_lt (by rw [(readUpper_eq_ok_iff.1 hb).2]; decide)
  exact ⟨(alignedBounds_since ha).1, by simp [haligned]⟩

/-- The harvest of the window that a text stands for returns a record, once. -/
def ReturnedIn (p : Provider) (s : Store) (now : Instant) (m : String) (g : Granularity)
    (text : String) (x : Record) : Prop :=
  (∃ a, readLower text = .ok a ∧ a.granularity = g) ∧
    ∃ records, p.Harvested s now (headers m (some text) (some text)) records ∧
      records.filter (fun y => y.uri = x.uri) = [x]

/-! ### Harvests -/

/-- All that a format lists of a store. -/
def undated (p : Provider) (s : Store) (m : String) (o : FormatOptions) : List Record :=
  (p.repository.whole s.records (.everything m o)).map Prod.snd

theorem isAligned_of_mem_undated (haligned : s.IsAligned) (hx : x ∈ p.undated s m o) :
    x.modified.IsAligned := by
  obtain ⟨e, he, rfl⟩ := List.mem_map.1 hx
  exact Repository.isAligned_of_mem_whole haligned he

section Harvests

variable (hp : ((make settings mappers explain).run t).result = .ok p) (hs : s.Reachable)
  (ho : p.formats.options? m = some o)

include hp hs ho

theorem exists_harvested_undated (now : Instant) :
    ∃ records, p.Harvested s now (headers m none none) records ∧
      records.Sublist (p.undated s m o) ∧
      ((∀ x ∈ p.undated s m o, x.modified.IsAligned) → records = p.undated s m o) := by
  have hl : listRequest (headers m none none) = .ok { metadataPrefix := some m } := rfl
  obtain ⟨records, hrecords, hsublist, hall⟩ := exists_harvested now hp hs ho hl
    Repository.le_of_undated alignedBounds_none
  exact ⟨records, hrecords, hsublist, fun haligned =>
    hall fun e he => haligned _ (List.mem_map_of_mem he)⟩

theorem harvested_undated (now : Instant) (haligned : s.IsAligned) :
    p.Harvested s now (headers m none none) (p.undated s m o) := by
  obtain ⟨records, hrecords, -, hall⟩ := exists_harvested_undated hp hs ho now
  rwa [← hall fun x => isAligned_of_mem_undated haligned]

/-- The harvest of a window keeps nothing but what was modified within it. -/
theorem exists_harvested_within (now : Instant) {since upTo : Option String} {u v : Option Instant}
    (hl : listRequest (headers m since upTo) =
      .ok { metadataPrefix := some m, since := u, upTo := v })
    (hwindow : ∀ a b, u = some a → v = some b → a ≤ b) (hbounds : AlignedBounds u v) :
    ∃ records, p.Harvested s now (headers m since upTo) records ∧
      records.Sublist ((p.undated s m o).filter (Repository.within u v)) ∧
      ((∀ x ∈ p.undated s m o, Repository.within u v x = true → x.modified.IsAligned) →
        records = (p.undated s m o).filter (Repository.within u v)) := by
  have hwhole : (p.repository.whole s.records ⟨m, none, none, u, v, o, none⟩).map Prod.snd =
      (p.undated s m o).filter (Repository.within u v) := by
    rw [Repository.whole_window (Store.shelved_records hs.wellFormed), undated, List.filter_map]
    rfl
  obtain ⟨records, hrecords, hsublist, hall⟩ := exists_harvested now hp hs ho hl hwindow hbounds
  rw [hwhole] at hsublist hall
  refine ⟨records, hrecords, hsublist, fun haligned => hall fun e he => ?_⟩
  have hmem : e.2 ∈ (p.undated s m o).filter (Repository.within u v) :=
    hwhole ▸ List.mem_map_of_mem he
  exact haligned _ (List.mem_of_mem_filter hmem) (List.mem_filter.1 hmem).2

/-- The harvest of a window of a second is exact. -/
theorem exists_harvested_window (now : Instant) (ha : readLower text = .ok a)
    (hb : readUpper text = .ok b) :
    ∃ records, p.Harvested s now (headers m (some text) (some text)) records ∧
      records.Sublist ((p.undated s m o).filter
        (Repository.within (some a.value) (some b.value))) ∧
      (a.granularity = .second ∨ s.IsAligned → records = (p.undated s m o).filter
        (Repository.within (some a.value) (some b.value))) := by
  obtain ⟨b', hb', hgranularity, hle⟩ := exists_upper ha
  obtain rfl : b = b' := Except.ok.inj (hb.symm.trans hb')
  obtain ⟨records, hrecords, hsublist, hall⟩ := exists_harvested_within hp hs ho now
    (listRequest_window ha hb hgranularity.symm) (by rintro u v ⟨⟩ ⟨⟩; exact hle)
    (alignedBounds_window ha hb)
  refine ⟨records, hrecords, hsublist, ?_⟩
  rintro (hsecond | haligned)
  · refine hall fun x _ hwithin => Instant.isAligned_of_nanos_lt ?_
    simp only [Repository.within, Option.all_some, Bool.and_eq_true, decide_eq_true_eq] at hwithin
    exact nanos_lt_of_covers ⟨a, b, ha, hb, hsecond, hwithin⟩
  · exact hall fun x hx _ => isAligned_of_mem_undated haligned hx

theorem covers_of_returnedIn (h : p.ReturnedIn s now m g text x) : Covers g text x.modified := by
  obtain ⟨⟨a, ha, hgranularity⟩, records, hrecords, honce⟩ := h
  obtain ⟨b, hb, -, -⟩ := exists_upper ha
  obtain ⟨records', hrecords', hsublist, -⟩ := exists_harvested_window hp hs ho now ha hb
  obtain rfl := hrecords.unique hrecords'
  have hmem : x ∈ [x] := List.mem_singleton_self x
  rw [← honce] at hmem
  have hwithin := (List.mem_filter.1 (hsublist.subset (List.mem_of_mem_filter hmem))).2
  simp only [Repository.within, Option.all_some, Bool.and_eq_true, decide_eq_true_eq] at hwithin
  exact ⟨a, b, ha, hb, hgranularity, hwithin⟩

/-- A window returns the records that it covers, each of them once.  A window of a day does so if
the times of the archive are aligned. -/
theorem returnedIn_iff (hx : x ∈ p.undated s m o) (haligned : g = .second ∨ s.IsAligned) :
    p.ReturnedIn s now m g text x ↔ Covers g text x.modified := by
  refine ⟨covers_of_returnedIn hp hs ho, ?_⟩
  rintro ⟨a, b, ha, hb, rfl, hlow, hhigh⟩
  obtain ⟨records, hrecords, -, hall⟩ := exists_harvested_window hp hs ho now ha hb
  refine ⟨⟨a, ha, rfl⟩, records, hrecords, ?_⟩
  obtain ⟨-, -, htypes⟩ := FormatOptions.validate_eq_ok_iff.1 (isStandard_of_make hp m o ho).2
  have hshown := (Repository.mem_whole_iff_shown? hs.wellFormed).1 ⟨hx, rfl⟩
  have honce : (p.undated s m o).filter (fun y => y.uri = x.uri) = [x] := by
    rw [undated, Repository.filter_uri_whole hs.wellFormed htypes, hshown, Option.toList_some]
  rw [hall haligned, List.filter_comm, honce]
  simp [Repository.within, hlow, hhigh]

/-- **Windows leave no gap but behind leap seconds.**  In the years 0 to 9999 an instant is covered
by the text of one day and by that of one second, unless it is a leap second at the end of that day
or of that second; then no text covers it.  So a harvester that asks for one day, or one second,
after the other gets each listed record in exactly one harvest, and there once, but for those that
were modified in such a leap second.  This takes pages that skip nothing, as those of a second are;
those of a day are if the times of the archive are aligned.  No window returns a record that it does
not cover. -/
theorem windows_leave_no_gap (now : Instant) :
    (∀ g t, 0 ≤ t.date.year → t.date.year ≤ 9999 →
      ((∃! text, Covers g text t) ↔ ¬ Missed g t) ∧ (Missed g t → ∀ text, ¬ Covers g text t)) ∧
    (∃ records, p.Harvested s now (headers m none none) records ∧
      records.Sublist (p.undated s m o) ∧ (s.IsAligned → records = p.undated s m o)) ∧
    ∀ x ∈ p.undated s m o, 0 ≤ x.modified.date.year → x.modified.date.year ≤ 9999 → ∀ g,
      (∀ text, p.ReturnedIn s now m g text x → Covers g text x.modified) ∧
      (g = .second ∨ s.IsAligned →
        ((∃! text, p.ReturnedIn s now m g text x) ↔ ¬ Missed g x.modified)) := by
  have hcovers : ∀ g t, 0 ≤ t.date.year → t.date.year ≤ 9999 →
      ((∃! text, Covers g text t) ↔ ¬ Missed g t) := by
    intro g t hlow hhigh
    have hyears : InYears t.seconds := ⟨hlow, hhigh⟩
    rw [existsUnique_covers_iff]
    exact and_iff_right hyears
  obtain ⟨records, hrecords, hsublist, hall⟩ := exists_harvested_undated hp hs ho now
  refine ⟨fun g t hlow hhigh => ⟨hcovers g t hlow hhigh, fun hmissed text h => ?_⟩,
    ⟨records, hrecords, hsublist, fun haligned => hall fun x => isAligned_of_mem_undated haligned⟩,
    fun x hx hlow hhigh g => ⟨fun text => covers_of_returnedIn hp hs ho, fun haligned => ?_⟩⟩
  · exact (covers_iff.1 h).2.1 hmissed
  · rw [← hcovers g x.modified hlow hhigh]
    simp only [returnedIn_iff hp hs ho hx haligned]

end Harvests

theorem make_sample :
    ((make sampleSettings sampleMappers plainWords).run ()).result = .ok sample :=
  make_eq_ok_iff.2 ⟨validate_sampleSettings, _, rfl, rfl⟩

theorem options?_sample : sample.formats.options? "oai_dc" =
    some { recordTypes := [.resource, .archivalObject] } := rfl

theorem letter_mem_undated : Store.sample.view Store.sampleLetter ∈
    sample.undated Store.sample "oai_dc" { recordTypes := [.resource, .archivalObject] } := by
  have hget : Store.sample.get Store.sampleLetter.uri =
      some (Store.sample.view Store.sampleLetter) := rfl
  obtain ⟨hstored, -⟩ := (Store.get_eq_some_iff Store.sample_reachable.wellFormed).1 hget
  exact List.mem_map.2 ⟨(1, Store.sample.view Store.sampleLetter),
    Repository.mem_whole.2 ⟨_, hstored, rfl, rfl, rfl⟩, rfl⟩

/-- The letter is returned in the harvest of one day and in that of one second. -/
theorem windows_leave_no_gap_letter :
    (∃! text, sample.ReturnedIn Store.sample .epoch "oai_dc" .day text
      (Store.sample.view Store.sampleLetter)) ∧
    ∃! text, sample.ReturnedIn Store.sample .epoch "oai_dc" .second text
      (Store.sample.view Store.sampleLetter) := by
  obtain ⟨-, -, hreturned⟩ :=
    windows_leave_no_gap make_sample Store.sample_reachable options?_sample .epoch
  have hletter := hreturned _ letter_mem_undated (by decide) (by decide)
  exact ⟨((hletter .day).2 (.inr (by decide +kernel))).2 (by decide),
    ((hletter .second).2 (.inl rfl)).2 (by decide)⟩

/-- The leap second at the end of the year 2016. -/
def lastOf2016 : Instant := { seconds := 1483228799, nanos := 1000000000 }

/-- No text covers it, neither of a day nor of a second. -/
theorem not_covers_lastOf2016 : lastOf2016.date.year = 2016 ∧
    ∀ g text, ¬ Covers g text lastOf2016 := by
  refine ⟨by decide, fun g text h => (covers_iff.1 h).2.1 ?_⟩
  cases g <;> decide

theorem exists_modified (hx : x ∈ p.undated s m o) : ∃ y ∈ s.shelf, y.modified = x.modified := by
  obtain ⟨e, he, rfl⟩ := List.mem_map.1 hx
  obtain ⟨y, hy, -, -, hshows⟩ := Repository.mem_whole.1 he
  obtain ⟨z, hz, rfl⟩ := List.mem_map.1 hy
  exact ⟨z, hz, (congrArg Cursor.modified (Scope.of_shows? hshows).2.2).symm⟩

/-- The earliest datestamp that is shown is no later than any time in the store. -/
theorem exists_lower_earliest (h : ∀ x ∈ s.shelf, Nameable x.modified) :
    ∃ a, readLower (s.earliest.getD .epoch).datestamp = .ok a ∧
      ∀ x ∈ s.shelf, a.value ≤ x.modified := by
  obtain ⟨hempty, hnone⟩ | ⟨x, hx, hearliest, hleast⟩ := s.earliest_cases
  · rw [hnone, hempty]
    obtain ⟨a, ha, -⟩ := exists_lower_datestamp (t := .epoch) (by decide)
    exact ⟨a, ha, by simp⟩
  · rw [hearliest]
    obtain ⟨a, ha, hle⟩ := exists_lower_datestamp (h x hx)
    exact ⟨a, ha, fun y hy => le_trans hle (hleast y hy)⟩

/-- **Datestamps that are shown can be used as bounds.**  Of the headers that are harvested without
dates, each one that shows a nameable time is harvested again by its own datestamp as both bounds.
If all times in the store are nameable, the earliest datestamp that the repository names is a lower
bound that leaves nothing out and changes no order. -/
theorem datestamps_are_bounds (hp : ((make settings mappers explain).run t).result = .ok p)
    (hs : s.Reachable) (ho : p.formats.options? m = some o) (now : Instant) :
    ∃ records, p.Harvested s now (headers m none none) records ∧
      (∀ x ∈ records, Nameable x.modified → ∃ records',
        p.Harvested s now (headers m (some (p.headerItem x).datestamp)
          (some (p.headerItem x).datestamp)) records' ∧ x ∈ records') ∧
      ((∀ x ∈ s.shelf, Nameable x.modified) → ∃ r earliest,
        p.read? s now (.ofVerb Verb.identify.name) = some r ∧
        r.body.earliest? = some earliest ∧
        p.Harvested s now (headers m (some earliest) none) records) := by
  obtain ⟨records, hrecords, hsublist, hexact⟩ := exists_harvested_undated hp hs ho now
  refine ⟨records, hrecords, fun x hx hnameable => ?_, fun hall => ?_⟩
  · obtain ⟨a, b, ha, hb, hsecond, hlow, hhigh⟩ := covers_datestamp hnameable
    obtain ⟨records', hrecords', -, hwindow⟩ := exists_harvested_window hp hs ho now ha hb
    refine ⟨records', hrecords', ?_⟩
    rw [hwindow (.inl hsecond)]
    exact List.mem_filter.2 ⟨hsublist.subset hx, by simp [Repository.within, hlow, hhigh]⟩
  · obtain ⟨r, hr, hearliest⟩ := read?_identify p s now
    refine ⟨r, _, hr, hearliest, ?_⟩
    obtain ⟨a, ha, hleast⟩ := exists_lower_earliest hall
    have haligned : ∀ x ∈ p.undated s m o, x.modified.IsAligned := by
      intro x hx
      obtain ⟨y, hy, hmodified⟩ := exists_modified hx
      exact hmodified ▸ Instant.isAligned_of_nanos_lt (hall y hy).2.2
    have hkeeps : (p.undated s m o).filter (Repository.within (some a.value) none) =
        p.undated s m o := by
      refine List.filter_eq_self.2 fun x hx => ?_
      obtain ⟨y, hy, hmodified⟩ := exists_modified hx
      simp [Repository.within, ← hmodified, hleast y hy]
    obtain ⟨records', hrecords', -, hwithin⟩ := exists_harvested_within hp hs ho now
      (listRequest_since ha) (by rintro u v - ⟨⟩) (alignedBounds_since ha)
    rw [hexact haligned, ← hkeeps, ← hwithin fun x hx _ => haligned x hx]
    exact hrecords'

/-- The letter is harvested by its own datestamp, and from the earliest one on. -/
theorem datestamps_are_bounds_letter : ∃ letter records earliest,
    letter.uri = Store.sampleLetter.uri ∧ letter ∈ records ∧
    (∃ records', sample.Harvested Store.sample .epoch (headers "oai_dc"
      (some "1970-01-01T00:00:30Z") (some "1970-01-01T00:00:30Z")) records' ∧
        letter ∈ records') ∧
    sample.Harvested Store.sample .epoch (headers "oai_dc" none none) records ∧
    sample.Harvested Store.sample .epoch (headers "oai_dc" (some earliest) none) records := by
  obtain ⟨records, hrecords, hown, hearliest⟩ :=
    datestamps_are_bounds make_sample Store.sample_reachable options?_sample .epoch
  obtain rfl := hrecords.unique
    (harvested_undated make_sample Store.sample_reachable options?_sample _ (by decide +kernel))
  obtain ⟨r, earliest, -, -, hsince⟩ := hearliest (by decide)
  refine ⟨Store.sample.view Store.sampleLetter, _, earliest, rfl, letter_mem_undated, ?_, hrecords,
    hsince⟩
  have hdatestamp : (sample.headerItem (Store.sample.view Store.sampleLetter)).datestamp =
      "1970-01-01T00:00:30Z" := by decide +kernel
  rw [← hdatestamp]
  exact hown _ letter_mem_undated (by decide)

end Provider

end Harvest
