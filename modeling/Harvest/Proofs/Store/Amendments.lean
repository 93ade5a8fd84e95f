import Harvest.Proofs.Store.History

/-!
# What calls keep of a record

A call that changes a flag, or deletes, takes the record of its URI and puts it back *amended*
(`Record.Amends`): its type and its repository stay, and so does the mark of a deletion, but it now
has the time of the call.  Only an upsert brings a record of its own
(`Store.lookup_write_cases`).

By induction over a history of calls, a record is amended at most as long as no upsert replaces it
(`Store.Spares.exists_amends`); so a deletion is never taken back by flags.  And after calls that
all have late times, every record is the one from before or has a late time itself
(`Store.lookup_writes_cases`).
-/

namespace Harvest

/-- A record is what changes of flags, or a deletion, have made of another one. -/
structure Record.Amends (y x : Record) : Prop where
  recordType : y.recordType = x.recordType
  repository : y.repository = x.repository
  deleted : x.deleted = true → y.deleted = true

namespace Record.Amends

theorem refl (x : Record) : x.Amends x := ⟨rfl, rfl, fun h => h⟩

theorem trans {x y z : Record} (h : z.Amends y) (h' : y.Amends x) : z.Amends x where
  recordType := h.recordType.trans h'.recordType
  repository := h.repository.trans h'.repository
  deleted := h.deleted ∘ h'.deleted

end Record.Amends

namespace Write

/-- The time that a call gives to the record it changes; an upsert leaves that to the record. -/
def time? : Write → Option Instant
  | upsert _ => none
  | setPublish _ _ time | setSuppressed _ _ time | delete _ time => some time

/-- A call is no upsert, and has a certain time or a later one. -/
def StampedSince (since : Instant) (w : Write) : Prop := ∃ t, w.time? = some t ∧ since ≤ t

/-- The record of a call is brought by an upsert, or amends the one that is there. -/
theorem record?_cases {s : Store} {w : Write} {y : Record} (h : w.record? s = some y) :
    w = .upsert y ∨
      ∃ x, s.lookup w.target = some x ∧ y.Amends x ∧ w.time? = some y.modified := by
  cases w with
  | upsert r => exact .inl (congrArg upsert (Option.some.inj h))
  | setPublish uri publish time =>
    obtain ⟨x, hx, rfl⟩ := Option.map_eq_some_iff.1 h
    exact .inr ⟨x, hx, ⟨rfl, rfl, id⟩, rfl⟩
  | setSuppressed uri suppressed time =>
    obtain ⟨x, hx, rfl⟩ := Option.map_eq_some_iff.1 h
    exact .inr ⟨x, hx, ⟨rfl, rfl, id⟩, rfl⟩
  | delete uri time =>
    obtain ⟨x, hx, rfl⟩ := Option.map_eq_some_iff.1 h
    exact .inr ⟨x, hx, ⟨rfl, rfl, fun _ => rfl⟩, rfl⟩

end Write

namespace Store

variable {s : Store} {uri : String} {x : Record} {ws : List Write}

/-- **What a call makes of the record of a URI**: it leaves it, replaces it, or amends it. -/
theorem lookup_write_cases (h : s.WellFormed) (w : Write) (uri : String) :
    (s.write w).lookup uri = s.lookup uri ∨
      (∃ r, w = .upsert r ∧ r.uri = uri ∧ s.accepts w = true) ∨
      ∃ x y, s.lookup uri = some x ∧ (s.write w).lookup uri = some y ∧ y.Amends x ∧
        w.time? = some y.modified := by
  obtain ⟨-, hs⟩ | ⟨r, ha, hr, hp⟩ := write_cases s w
  · exact .inl (by rw [hs])
  · have hlookup := lookup_put h hp uri
    split_ifs at hlookup with hu
    · obtain rfl | ⟨x, hx, hamends, htime⟩ := Write.record?_cases hr
      · exact .inr (.inl ⟨r, rfl, hu.symm, ha⟩)
      · rw [← uri_of_record? h hr, ← hu] at hx
        exact .inr (.inr ⟨x, r, hx, hlookup, hamends, htime⟩)
    · exact .inl hlookup

/-- **After calls with late times every record is the one from before, or has a late time.** -/
theorem lookup_writes_cases {since : Instant} (hs : s.WellFormed)
    (hws : ∀ w ∈ ws, w.StampedSince since) (uri : String) :
    (s.writes ws).lookup uri = s.lookup uri ∨
      ∃ x y, s.lookup uri = some x ∧ (s.writes ws).lookup uri = some y ∧ y.Amends x ∧
        since ≤ y.modified := by
  induction ws generalizing s with
  | nil => exact .inl rfl
  | cons w ws ih =>
    obtain ⟨⟨t, ht, hle⟩, hws⟩ := List.forall_mem_cons.1 hws
    obtain hsame | ⟨r, rfl, -⟩ | ⟨x, y, hx, hy, hamends, htime⟩ := lookup_write_cases hs w uri
    · rw [writes_cons, ← hsame]
      exact ih (hs.write w) hws
    · cases ht
    · obtain rfl : t = y.modified := Option.some.inj (ht.symm.trans htime)
      obtain hlast | ⟨y', z, hy', hz, hzy, hlate⟩ := ih (hs.write w) hws
      · exact .inr ⟨x, y, hx, hlast.trans hy, hamends, hle⟩
      · obtain rfl : y = y' := Option.some.inj (hy.symm.trans hy')
        exact .inr ⟨x, z, hx, hz, hzy.trans hamends, hlate⟩

end Store

end Harvest
