import Harvest.Proofs.Lists
import Harvest.Proofs.Listing.Single

/-!
# What the repository keeps secret

A record is *open* (`Settings.isOpen`) when harvesters may know of it: it is deleted or visible, and
its repository takes part in harvesting.  If hidden records are left out, listings and lookups
depend on nothing but the open records of a store: two stores with the same open records give the
same pages and the same answers to lookups (`Repository.agree_find`, `Repository.agree_locate`).
That a batch may be full of hidden records makes no difference, as pages hold what is due and
tokens name what was shown.
-/

namespace Harvest

open Engine

/-- Harvesters may know of a record. -/
def Settings.isOpen (c : Settings) (x : Record) : Bool :=
  (x.deleted || x.isVisible) && !(c.repository? x.repository).any (·.disabled)

/-- The open record of a URI. -/
def Store.open? (s : Store) (c : Settings) (uri : String) : Option Record :=
  (s.get uri).filter c.isOpen

namespace Store

variable {s : Store} {c : Settings} {x : Record} {uri : String}

theorem open?_eq_some_iff (hs : s.WellFormed) :
    s.open? c uri = some x ↔ x ∈ s.records.filter c.isOpen ∧ x.uri = uri := by
  rw [open?, Option.filter_eq_some_iff, get_eq_some_iff hs, List.mem_filter]
  exact and_right_comm

end Store

namespace Scope

variable {c : Settings} {d : Scope} {x y : Record}

theorem isOpen_of_shows? (hrepositories : d.repositories = c.repositories)
    (hpolicy : d.policy = .omit) (hcovers : d.covers x = true) (hshows : d.shows? x = some y) :
    c.isOpen x = true := by
  -- a hidden record would not be shown
  have hseen : (x.deleted || x.isVisible) = true := by
    unfold shows? at hshows
    rw [hpolicy] at hshows
    split_ifs at hshows with hdeleted hrule hvisible
    · rw [hdeleted, Bool.true_or]
    · rw [hvisible, Bool.or_true]
  have hpart : ¬ (c.repository? x.repository).any (·.disabled) = true := by
    rw [Option.any_eq_true]
    rintro ⟨e, he, hdisabled⟩
    have hid : e.id = x.repository := by simpa using List.find?_some he
    have hmem : e ∈ d.repositories := hrepositories ▸ List.mem_of_find?_eq_some he
    have hadmits : e.admits d.set = true := (covers_iff.1 hcovers).2.2 e hmem hid
    simp [RepositoryEntry.admits, hdisabled] at hadmits
  rw [Settings.isOpen, hseen, Bool.eq_false_iff.2 hpart]
  rfl

end Scope

/-! ### Stores with the same open records -/

namespace Repository

variable {r : Repository} {p : Plan} {a b : Store}
  (ha : a.WellFormed) (hb : b.WellFormed) (homit : r.settings.hiddenPolicy = .omit)
  (hopen : ∀ uri, a.open? r.settings uri = b.open? r.settings uri)

include ha hb hopen in
/-- A record of one store that a scope shows is a record of the other one. -/
theorem mem_records_of_open {x : Record} (hx : x ∈ a.records)
    (hopened : r.settings.isOpen x = true) : x ∈ b.records := by
  have hfound : a.open? r.settings x.uri = some x :=
    (Store.open?_eq_some_iff ha).2 ⟨List.mem_filter.2 ⟨hx, hopened⟩, rfl⟩
  rw [hopen] at hfound
  exact (List.mem_filter.1 ((Store.open?_eq_some_iff hb).1 hfound).1).1

include ha hb homit hopen

theorem mem_whole_of_open {e : Entry} (he : e ∈ r.whole a.records p) :
    e ∈ r.whole b.records p := by
  obtain ⟨x, hx, ht, hcovers, hshows⟩ := mem_whole.1 he
  have hopened := Scope.isOpen_of_shows? (c := r.settings) rfl homit hcovers hshows
  exact mem_whole.2 ⟨x, mem_records_of_open ha hb hopen hx hopened, ht, hcovers, hshows⟩

/-- **What is due does not depend on hidden records.** -/
theorem due_eq_of_open (hp : p.InRange) : r.due a.records p = r.due b.records p := by
  have hwhole : r.whole a.records p = r.whole b.records p := by
    -- both listings are in strict order, so it is enough that they have the same entries
    refine eq_of_pairwise_of_mem (r := fun x y => spotOf x < spotOf y) (fun x y => lt_asymm)
      (pairwise_whole (Store.shelved_records ha)) (pairwise_whole (Store.shelved_records hb)) ?_
    intro e
    constructor
    · exact mem_whole_of_open ha hb homit hopen
    · exact mem_whole_of_open hb ha homit fun uri => (hopen uri).symm
  rw [due_eq hp, due_eq hp, hwhole]

/-- **Pages do not depend on hidden records.** -/
theorem agree_find (q : ListRequest) :
    Agree (· = a) (· = b) (r.find Store.source q) (r.find Store.source q) := by
  refine (ensures_find (Store.serves ha) q).agree ?_
  have hpages : (r.planned q).map (r.pageOver a.records) =
      (r.planned q).map (r.pageOver b.records) := by
    cases hp : r.planned q with
    | error f => rfl
    | ok p =>
      have hdue := due_eq_of_open ha hb homit hopen (inRange_of_planned hp)
      simp only [Except.map, pageOver, hdue]
  rw [hpages]
  exact ensures_find (Store.serves hb) q

theorem located_of_open {uri : String} {x : Record} (hx : r.located a uri = .ok x) :
    r.located b uri = .ok x := by
  obtain ⟨y, hy, hcovers, hshows⟩ := located_eq_ok_iff.1 hx
  obtain ⟨hmem, hu⟩ := (Store.get_eq_some_iff ha).1 hy
  have hopened := Scope.isOpen_of_shows? (c := r.settings) rfl homit hcovers hshows
  have hget := (Store.get_eq_some_iff hb).2 ⟨mem_records_of_open ha hb hopen hmem hopened, hu⟩
  exact located_eq_ok_iff.2 ⟨y, hget, hcovers, hshows⟩

/-- **Lookups do not depend on hidden records.** -/
theorem agree_locate (hv : r.settings.validate = .ok ()) (uri : String) :
    Agree (· = a) (· = b) (r.locate Store.source uri) (r.locate Store.source uri) := by
  refine (ensures_locate hv a uri).agree ?_
  have hlocated : r.located a uri = r.located b uri := by
    cases hx : r.located a uri with
    | ok x => exact (located_of_open ha hb homit hopen hx).symm
    | error f =>
      -- there is one fault for whatever cannot be found
      cases hy : r.located b uri with
      | ok y =>
        rw [located_of_open hb ha homit (fun uri => (hopen uri).symm) hy] at hx
        cases hx
      | error g => rw [← hx, ← hy, located_eq_error hx, located_eq_error hy]
  rw [hlocated]
  exact ensures_locate hv b uri

theorem agree_fetch (hv : r.settings.validate = .ok ()) (uri m : String) :
    Agree (· = a) (· = b) (r.fetch Store.source uri m) (r.fetch Store.source uri m) := by
  unfold fetch
  refine (agree_ofExcept _).bind fun o => ?_
  refine (agree_locate ha hb homit hopen hv uri).bind fun x => ?_
  split_ifs
  · exact agree_pure x
  · exact agree_fail _

end Repository

end Harvest
