import Harvest.Proofs.Listing.Single

/-!
# What listings and lookups expose

A stored record may be *exposed* (`Store.Exposes`) when its own flags, its repository and all its
ancestors allow it.  This is said of what is stored: an ancestor that is in the store counts by its
record there, any other one by the flag that was written with the record.

A record that is shown and is not the mark of a deleted one is an exposed record as it is read
(`Scope.exists_exposes`).  So is every such record that `Repository.find`, `Repository.locate` and
`Repository.fetch` return.
-/

namespace Harvest

open Engine

/-- A stored record may be shown in full, in listings of a set if one is given. -/
structure Store.Exposes (s : Store) (entries : List RepositoryEntry) (set : Option String)
    (x : Record) : Prop where
  stored : s.lookup x.uri = some x
  live : x.deleted = false
  published : x.publish = true
  unsuppressed : x.suppressed = false
  enabled : ∀ e ∈ entries, e.id = x.repository → e.disabled = false
  inSet : ∀ name, set = some name → ∀ e ∈ entries, e.id = x.repository →
    e.sets ≠ [] → name ∈ e.sets
  ancestors : ∀ a ∈ x.ancestors,
    (∃ y, s.lookup a.uri = some y ∧ y.publish = true ∧ y.deleted = false) ∨
      s.lookup a.uri = none ∧ a.publish = true

theorem RepositoryEntry.admits_iff {e : RepositoryEntry} {set : Option String} :
    e.admits set = true ↔ e.disabled = false ∧
      ∀ name, set = some name → e.sets ≠ [] → name ∈ e.sets := by
  unfold admits
  cases set with
  | none => simp
  | some name => simp [or_iff_not_imp_left, List.isEmpty_iff]

namespace Store

variable {s : Store} {entries : List RepositoryEntry} {set : Option String} {x : Record}

/-- An ancestor is read as published if its record is, or if it has none and was written so. -/
theorem publish_current_iff {a : Ancestor} : (s.current a).publish = true ↔
    (∃ y, s.lookup a.uri = some y ∧ y.publish = true ∧ y.deleted = false) ∨
      s.lookup a.uri = none ∧ a.publish = true := by
  unfold current
  cases s.lookup a.uri <;> simp

theorem isVisible_view_iff : (s.view x).isVisible = true ↔
    x.publish = true ∧ x.suppressed = false ∧ ∀ a ∈ x.ancestors, (s.current a).publish = true := by
  rw [Record.isVisible_iff]
  simp only [view, List.forall_mem_map]

/-- A live record is exposed when it is visible as it is read and its repository takes part. -/
theorem exposes_iff : s.Exposes entries set x ↔ s.lookup x.uri = some x ∧ x.deleted = false ∧
    (s.view x).isVisible = true ∧
      ∀ e ∈ entries, e.id = x.repository → e.admits set = true := by
  simp only [isVisible_view_iff, publish_current_iff, RepositoryEntry.admits_iff]
  constructor
  · intro h
    exact ⟨h.stored, h.live, ⟨h.published, h.unsuppressed, h.ancestors⟩, fun e he hid =>
      ⟨h.enabled e he hid, fun name hname => h.inSet name hname e he hid⟩⟩
  · rintro ⟨hstored, hlive, ⟨hpublished, hunsuppressed, hancestors⟩, hentries⟩
    exact ⟨hstored, hlive, hpublished, hunsuppressed, fun e he hid => (hentries e he hid).1,
      fun name hname e he hid => (hentries e he hid).2 name hname, hancestors⟩

end Store

/-- **What a scope shows of a store, but for the marks of deleted records, is exposed.** -/
theorem Scope.exists_exposes {c : Scope} {s : Store} (hs : s.WellFormed) {x y : Record}
    (hx : x ∈ s.records) (hcovers : c.covers x = true) (hshows : c.shows? x = some y)
    (hlive : y.deleted = false) :
    ∃ z, s.Exposes c.repositories c.set z ∧ y = s.view z := by
  obtain ⟨z, hz, rfl⟩ := List.mem_map.1 hx
  have hstored : s.lookup z.uri = some z := (Store.lookup_eq_some_iff hs).2 ⟨hz, rfl⟩
  obtain ⟨-, -, hentries⟩ := covers_iff.1 hcovers
  obtain ⟨rfl, hlive, hvisible, -⟩ := shows?_live_iff.1 ⟨hshows, hlive⟩
  exact ⟨z, Store.exposes_iff.2 ⟨hstored, hlive, hvisible, hentries⟩, rfl⟩

namespace Repository

variable {r : Repository} {q : ListRequest} {p : Plan} {s : Store}

/-- The set that a request is about; one that goes on is about the set that its token names. -/
def setOf (r : Repository) (q : ListRequest) : Option String :=
  match q.token with
  | none => q.set
  | some raw =>
    match r.codec.deserialize raw with
    | .ok t => t.set
    | .error _ => none

theorem set_of_planned (h : r.planned q = .ok p) : p.set = r.setOf q := by
  unfold setOf
  cases hq : q.token with
  | none =>
    obtain ⟨hfresh, -⟩ := (planned_fresh_eq_ok_iff hq).1 h
    obtain ⟨m, o, rule, -, -, -, rfl⟩ := planFresh_eq_ok_iff.1 hfresh
    rfl
  | some raw =>
    obtain ⟨t, ht, hresumed, -⟩ := (planned_resumed_eq_ok_iff hq).1 h
    obtain ⟨-, o, rule, -, -, -, rfl⟩ := planResumed_eq_ok_iff.1 hresumed
    simp only [ht]

theorem exists_of_mem_pageOver {rs : List Record} (hp : p.InRange) {y : Record}
    (hy : y ∈ (r.pageOver rs p).records) :
    ∃ x ∈ rs, (r.scope p).covers x = true ∧ (r.scope p).shows? x = some y := by
  obtain ⟨e, he, rfl⟩ := List.mem_map.1 hy
  have hmem := List.mem_of_mem_take he
  rw [due_eq hp] at hmem
  obtain ⟨x, hx, -, hcovers, hshows⟩ := mem_whole.1 (List.mem_filter.1 hmem).1
  exact ⟨x, hx, hcovers, hshows⟩

/-- **A page exposes nothing that may not be shown** in a listing of its set. -/
theorem yields_find (hs : s.WellFormed) (q : ListRequest) :
    Yields (· = s) (r.find Store.source q) fun page =>
      ∀ y ∈ page.records, y.deleted = false →
        ∃ z, s.Exposes r.settings.repositories (r.setOf q) z ∧ y = s.view z := by
  refine (ensures_find (Store.serves hs) q).yields ?_
  intro page hpage y hy hlive
  obtain ⟨p, hp, rfl⟩ := map_eq_ok_iff.1 hpage.symm
  obtain ⟨x, hx, hcovers, hshows⟩ := exists_of_mem_pageOver (inRange_of_planned hp) hy
  rw [← set_of_planned hp]
  exact Scope.exists_exposes hs hx hcovers hshows hlive

/-- **A lookup exposes nothing that may not be shown.** -/
theorem exposes_of_located (hs : s.WellFormed) {uri : String} {y : Record}
    (h : r.located s uri = .ok y) (hlive : y.deleted = false) :
    ∃ z, s.Exposes r.settings.repositories none z ∧ y = s.view z := by
  obtain ⟨x, hx, hcovers, hshows⟩ := located_eq_ok_iff.1 h
  obtain ⟨hx, -⟩ := (Store.get_eq_some_iff hs).1 hx
  exact Scope.exists_exposes hs hx hcovers hshows hlive

end Repository

end Harvest
