import Harvest.Proofs.Order
import Mathlib.Tactic.SplitIfs

/-!
# What every store keeps

A store is *well formed* (`Store.WellFormed`) when its shelf is strictly ordered by place and its
catalogue leads from every URI to the one record on the shelf that has it.  The empty store is
well formed and writing keeps it so (`Store.WellFormed.put`).

A well-formed store behaves as a map from URIs to records: `Store.lookup_eq_some_iff` says what it
holds, `Store.lookup_put` what a write changes.
-/

namespace Harvest

/-! ### Shelves -/

/-- A shelf in the strict order of its places. -/
def Shelved (l : List Record) : Prop := l.Pairwise fun a b => a.place.before b.place

theorem Shelved.eq_of_place {l : List Record} (h : Shelved l) {a b : Record} (ha : a ∈ l)
    (hb : b ∈ l) (hab : a.place = b.place) : a = b := by
  induction l with
  | nil => cases ha
  | cons c l ih =>
    obtain ⟨hc, hl⟩ := List.pairwise_cons.1 h
    rcases List.mem_cons.1 ha with rfl | ha' <;> rcases List.mem_cons.1 hb with rfl | hb'
    · rfl
    · exact absurd hab (Place.ne_of_before (hc b hb'))
    · exact absurd hab.symm (Place.ne_of_before (hc a ha'))
    · exact ih hl ha' hb'

theorem Shelved.pairwise_filter {l : List Record} (h : Shelved l) {p : Record → Bool}
    {t : RecordType} (hp : ∀ r, p r = true → r.recordType = t) :
    (l.filter p).Pairwise fun a b => a.cursor < b.cursor := by
  refine List.Pairwise.imp_of_mem (fun {a b} ha hb hab => ?_) (List.Pairwise.filter _ h)
  have hta := hp a (List.mem_filter.1 ha).2
  have htb := hp b (List.mem_filter.1 hb).2
  obtain hlt | ⟨-, hlt⟩ := Place.before_iff.1 hab
  · change a.recordType.index < b.recordType.index at hlt
    rw [hta, htb] at hlt
    omega
  · exact hlt

theorem pairwise_mergeSort_cursor (l : List Record) :
    (l.mergeSort fun a b => !decide (b.cursor < a.cursor)).Pairwise fun a b =>
      (!decide (b.cursor < a.cursor)) = true := by
  refine List.pairwise_mergeSort (fun a b c hab hbc => ?_) (fun a b => ?_) _
  · simp only [Bool.not_eq_true', decide_eq_false_iff_not, not_lt] at *
    exact le_trans hab hbc
  · simp only [Bool.or_eq_true, Bool.not_eq_true', decide_eq_false_iff_not, not_lt]
    exact le_total a.cursor b.cursor

theorem mem_shelve {r x : Record} {l : List Record} (h : ∀ y ∈ l, y.place ≠ r.place) :
    x ∈ shelve r l ↔ x = r ∨ x ∈ l := by
  induction l with
  | nil => simp [shelve]
  | cons y l ih =>
    rw [shelve]
    split_ifs with hb he
    · simp
    · exact absurd he.symm (h y List.mem_cons_self)
    · rw [List.mem_cons, ih fun z hz => h z (List.mem_cons_of_mem _ hz), List.mem_cons]
      exact or_left_comm

theorem Shelved.shelve {r : Record} {l : List Record} (hl : Shelved l)
    (h : ∀ y ∈ l, y.place ≠ r.place) : Shelved (shelve r l) := by
  induction l with
  | nil => simp [Harvest.shelve, Shelved]
  | cons y l ih =>
    obtain ⟨hy, hl'⟩ := List.pairwise_cons.1 hl
    have hplace : ∀ z ∈ l, z.place ≠ r.place := fun z hz => h z (List.mem_cons_of_mem _ hz)
    rw [Harvest.shelve]
    split_ifs with hb he
    · refine List.pairwise_cons.2 ⟨fun z hz => ?_, hl⟩
      rcases List.mem_cons.1 hz with rfl | hz
      · exact hb
      · exact Place.before_iff_lt.2
          (lt_trans (Place.before_iff_lt.1 hb) (Place.before_iff_lt.1 (hy z hz)))
    · exact absurd he.symm (h y List.mem_cons_self)
    · -- the record goes further back, and the order is total
      have hyr : y.place.before r.place := by
        rw [Place.before_iff_lt] at hb ⊢
        exact lt_of_le_of_ne (not_lt.1 hb) (Ne.symm he)
      refine List.pairwise_cons.2 ⟨fun z hz => ?_, ih hl' hplace⟩
      rcases (mem_shelve hplace).1 hz with rfl | hz
      · exact hyr
      · exact hy z hz

namespace Store

/-! ### The invariant -/

/-- What holds of every store that was made by writing. -/
structure WellFormed (s : Store) : Prop where
  /-- The shelf is ordered. -/
  shelved : Shelved s.shelf
  /-- The catalogue says where the record of a URI stands, and nothing else. -/
  catalogued : ∀ uri p, s.catalogue.find? uri = some p ↔
    ∃ r ∈ s.shelf, r.uri = uri ∧ r.place = p

theorem WellFormed.empty : empty.WellFormed where
  shelved := List.Pairwise.nil
  catalogued uri p := by
    constructor
    · rintro ⟨⟩
    · rintro ⟨r, ⟨⟩, -⟩

variable {s s' : Store} {r : Record}

theorem WellFormed.eq_of_uri (h : s.WellFormed) {a b : Record} (ha : a ∈ s.shelf)
    (hb : b ∈ s.shelf) (hab : a.uri = b.uri) : a = b := by
  have hfa := (h.catalogued a.uri a.place).2 ⟨a, ha, rfl, rfl⟩
  have hfb := (h.catalogued a.uri b.place).2 ⟨b, hb, hab.symm, rfl⟩
  exact h.shelved.eq_of_place ha hb (Option.some.inj (hfa.symm.trans hfb))

theorem at?_eq_some_iff (h : s.WellFormed) {p : Place} :
    s.at? p = some r ↔ r ∈ s.shelf ∧ r.place = p := by
  constructor
  · intro hr
    exact ⟨List.mem_of_find?_eq_some hr, by simpa using List.find?_some hr⟩
  · rintro ⟨hr, rfl⟩
    cases hf : s.at? r.place with
    | none =>
      have := List.find?_eq_none.1 hf r hr
      simp at this
    | some x =>
      have hx : x.place = r.place := by simpa using List.find?_some hf
      rw [h.shelved.eq_of_place (List.mem_of_find?_eq_some hf) hr hx]

theorem lookup_eq_some_iff (h : s.WellFormed) {uri : String} :
    s.lookup uri = some r ↔ r ∈ s.shelf ∧ r.uri = uri := by
  unfold lookup
  constructor
  · intro hl
    obtain ⟨p, hp, hr⟩ := Option.bind_eq_some_iff.1 hl
    obtain ⟨x, hx, hxu, hxp⟩ := (h.catalogued uri p).1 hp
    obtain ⟨hr', hrp⟩ := (at?_eq_some_iff h).1 hr
    rw [h.shelved.eq_of_place hr' hx (hrp.trans hxp.symm)]
    exact ⟨hx, hxu⟩
  · rintro ⟨hr, rfl⟩
    exact Option.bind_eq_some_iff.2 ⟨r.place, (h.catalogued _ _).2 ⟨r, hr, rfl, rfl⟩,
      (at?_eq_some_iff h).2 ⟨hr, rfl⟩⟩

/-! ### Writing -/

/-- A write fails exactly when another URI holds the place, and else says what stands where. -/
theorem put_eq (s : Store) (r : Record) :
    s.put r = match (s.at? r.place).filter (·.uri ≠ r.uri) with
      | some other => .error (.positionTaken r.uri other.uri)
      | none => .ok ⟨shelve r (match s.catalogue.find? r.uri with
          | some old => s.without old
          | none => s.shelf), s.catalogue.insert r.uri r.place⟩ := rfl

/-- The records that a write leaves where they are: those of other URIs. -/
def others (s : Store) (uri : String) : List Record :=
  match s.catalogue.find? uri with
  | some old => s.without old
  | none => s.shelf

theorem mem_others (h : s.WellFormed) {uri : String} {x : Record} :
    x ∈ s.others uri ↔ x ∈ s.shelf ∧ x.uri ≠ uri := by
  unfold others
  cases hf : s.catalogue.find? uri with
  | none =>
    refine ⟨fun hx => ⟨hx, fun hu => ?_⟩, fun hx => hx.1⟩
    have := (h.catalogued uri x.place).2 ⟨x, hx, hu, rfl⟩
    rw [hf] at this
    cases this
  | some old =>
    obtain ⟨y, hy, hyu, hyp⟩ := (h.catalogued uri old).1 hf
    simp only [without, List.mem_filter, decide_eq_true_eq]
    refine and_congr_right fun hx => not_congr ⟨fun hp => ?_, fun hu => ?_⟩
    · rw [h.shelved.eq_of_place hx hy (hp.trans hyp.symm)]
      exact hyu
    · rw [h.eq_of_uri hx hy (hu.trans hyu.symm)]
      exact hyp

theorem shelved_others (h : s.WellFormed) (uri : String) : Shelved (s.others uri) := by
  unfold others
  split
  · exact List.Pairwise.filter _ h.shelved
  · exact h.shelved

theorem put_eq_ok_iff (h : s.WellFormed) : s.put r = .ok s' ↔
    (∀ x ∈ s.shelf, x.place = r.place → x.uri = r.uri) ∧
      s' = ⟨shelve r (s.others r.uri), s.catalogue.insert r.uri r.place⟩ := by
  have htaken : (s.at? r.place).filter (·.uri ≠ r.uri) = none ↔
      ∀ x ∈ s.shelf, x.place = r.place → x.uri = r.uri := by
    rw [Option.filter_eq_none_iff]
    constructor
    · intro hn x hx hp
      simpa using hn x ((at?_eq_some_iff h).2 ⟨hx, hp⟩)
    · intro hn x hx
      obtain ⟨hx, hp⟩ := (at?_eq_some_iff h).1 hx
      simpa using hn x hx hp
  rw [put_eq]
  cases hf : (s.at? r.place).filter (·.uri ≠ r.uri) with
  | none =>
    simp only [Except.ok.injEq, ← htaken, hf, true_and]
    exact eq_comm
  | some other =>
    rw [← htaken, hf]
    simp

variable (h : s.WellFormed) (hp : s.put r = .ok s')
include h hp

theorem place_ne_of_put {x : Record} (hx : x ∈ s.others r.uri) : x.place ≠ r.place := by
  obtain ⟨hx, hu⟩ := (mem_others h).1 hx
  exact fun hpl => hu (((put_eq_ok_iff h).1 hp).1 x hx hpl)

/-- After a write the store holds the new record and those of other URIs. -/
theorem mem_shelf_put {x : Record} :
    x ∈ s'.shelf ↔ x = r ∨ x ∈ s.shelf ∧ x.uri ≠ r.uri := by
  rw [((put_eq_ok_iff h).1 hp).2, mem_shelve fun y => place_ne_of_put h hp, mem_others h]

/-- **Writing keeps a store well formed.** -/
theorem WellFormed.put : s'.WellFormed where
  shelved := by
    rw [((put_eq_ok_iff h).1 hp).2]
    exact (shelved_others h r.uri).shelve fun y => place_ne_of_put h hp
  catalogued uri p := by
    have hcat : s'.catalogue = s.catalogue.insert r.uri r.place := by
      rw [((put_eq_ok_iff h).1 hp).2]
    simp only [hcat, OrderedMap.find?_insert, mem_shelf_put h hp]
    -- the written URI has its new place, every other one keeps the place it had
    split_ifs with hu
    · rw [Option.some.injEq]
      constructor
      · rintro rfl
        exact ⟨r, .inl rfl, hu.symm, rfl⟩
      · rintro ⟨x, rfl | ⟨-, hx⟩, rfl, hxp⟩
        · exact hxp
        · exact absurd hu hx
    · rw [h.catalogued]
      constructor
      · rintro ⟨x, hx, rfl, hxp⟩
        exact ⟨x, .inr ⟨hx, hu⟩, rfl, hxp⟩
      · rintro ⟨x, rfl | ⟨hx, -⟩, hxu, hxp⟩
        · exact absurd hxu.symm hu
        · exact ⟨x, hx, hxu, hxp⟩

/-- **A write changes the record of its URI and no other.** -/
theorem lookup_put (uri : String) :
    s'.lookup uri = if uri = r.uri then some r else s.lookup uri := by
  have h' := WellFormed.put h hp
  split_ifs with hu
  · exact (lookup_eq_some_iff h').2 ⟨(mem_shelf_put h hp).2 (.inl rfl), hu.symm⟩
  · apply Option.ext
    intro x
    rw [lookup_eq_some_iff h', lookup_eq_some_iff h, mem_shelf_put h hp]
    constructor
    · rintro ⟨rfl | ⟨hx, -⟩, hxu⟩
      · exact absurd hxu.symm hu
      · exact ⟨hx, hxu⟩
    · rintro ⟨hx, rfl⟩
      exact ⟨.inr ⟨hx, hu⟩, rfl⟩

end Store

end Harvest
