import Harvest.Proofs.Listing.Scope
import Harvest.Proofs.Validation

/-!
# Lookups of single records

A lookup goes by the rules of a listing with no set and no window (`Repository.single`): it finds
the record of a URI if that scope covers it, and as that scope shows it.  So
`Repository.ensures_locate` says in one line what `Repository.locate` does, apart from the log, and
`Repository.ensures_fetch` what `Repository.fetch` does.
-/

namespace Harvest.Repository

open Engine

variable {r : Repository} {s : Store} {x : Record} {uri : String}

/-- What lookups are about: every record that some listing may show. -/
def single (r : Repository) : Scope where
  recordTypes := RecordType.all
  set := none
  rule := none
  since := none
  upTo := none
  repositories := r.settings.repositories
  policy := r.settings.hiddenPolicy

/-- What a lookup comes to. -/
def located (r : Repository) (s : Store) (uri : String) : Except Fault Record :=
  match ((s.get uri).filter r.single.covers).bind r.single.shows? with
  | some x => .ok x
  | none => .error (.noRecord uri)

theorem located_eq_ok_iff : r.located s uri = .ok x ↔
    ∃ y, s.get uri = some y ∧ r.single.covers y = true ∧ r.single.shows? y = some x := by
  have hbind : ((s.get uri).filter r.single.covers).bind r.single.shows? = some x ↔
      ∃ y, s.get uri = some y ∧ r.single.covers y = true ∧ r.single.shows? y = some x := by
    simp only [Option.bind_eq_some_iff, Option.filter_eq_some_iff, and_assoc]
  rw [← hbind]
  unfold located
  cases ((s.get uri).filter r.single.covers).bind r.single.shows? <;> simp

theorem located_eq_error {f : Fault} (h : r.located s uri = .error f) :
    r.located s uri = .error (.noRecord uri) := by
  unfold located at h ⊢
  split at h
  · cases h
  · rfl

/-- With valid settings it is one entry that keeps a repository out. -/
theorem covers_single (hv : r.settings.validate = .ok ()) (x : Record) : r.single.covers x =
    !(r.settings.repository? x.repository).any (!·.admits none) := by
  rw [Bool.eq_iff_iff, Scope.covers_iff, Bool.not_eq_true', Bool.eq_false_iff, ne_eq,
    Option.any_eq_true]
  constructor
  · rintro ⟨-, -, hall⟩ ⟨e, he, hout⟩
    obtain ⟨hmem, hid⟩ := (Settings.repository?_eq_some_iff hv).1 he
    have hin : e.admits none = true := hall e hmem hid
    rw [hin] at hout
    cases hout
  · intro hnone
    refine ⟨by rintro a ⟨⟩, by rintro b ⟨⟩, fun e he hid => ?_⟩
    by_contra hout
    have hnot : e.admits none = false := Bool.eq_false_iff.2 hout
    refine hnone ⟨e, (Settings.repository?_eq_some_iff hv).2 ⟨he, hid⟩, ?_⟩
    rw [hnot, Bool.not_false]

/-- **A lookup finds what a listing with no set and no window would show.** -/
theorem ensures_locate (hv : r.settings.validate = .ok ()) (s : Store) (uri : String) :
    Ensures (· = s) (r.locate Store.source uri) (· = r.located s uri) := by
  unfold locate located
  refine Ensures.bind (ensures_ask (P := (· = .ok (s.get uri))) ?_) ?_ (by rintro e ⟨⟩)
  · rintro _ rfl
    exact ⟨rfl, rfl⟩
  rintro found hfound
  cases hfound
  cases hget : s.get uri with
  | none => exact ensures_fail rfl
  | some x =>
    have hcovers := covers_single hv x
    cases hout : (r.settings.repository? x.repository).any (!·.admits none) with
    | true =>
      rw [hout] at hcovers
      simp only [hout, if_true, Option.filter_some, hcovers, Bool.not_true, Bool.false_eq_true,
        if_false, Option.bind_none]
      exact Ensures.tell_bind (ensures_fail rfl)
    | false =>
      rw [hout] at hcovers
      simp only [hout, Bool.false_eq_true, if_false, Option.filter_some, hcovers, Bool.not_false,
        if_true, Option.bind_some, Scope.shows?]
      cases hdeleted : x.deleted with
      | true => exact ensures_pure rfl
      | false =>
        simp only [Bool.false_eq_true, if_false, single, Option.all_none, if_true]
        cases hreason : x.hiddenReason? with
        | none =>
          have hvisible : x.isVisible = true := by
            rw [Record.isVisible, hreason, Option.isNone_none]
          rw [if_pos hvisible]
          exact ensures_pure rfl
        | some reason =>
          have hhidden : ¬ x.isVisible = true := by simp [Record.isVisible, hreason]
          rw [if_neg hhidden]
          refine Ensures.tell_bind ?_
          cases r.settings.hiddenPolicy
          · exact ensures_fail rfl
          · exact ensures_pure rfl

/-- What fetching a record in a format comes to. -/
def fetched (r : Repository) (s : Store) (uri m : String) : Except Fault Record := do
  let o ← r.formats.optionsFor m
  let x ← r.located s uri
  if o.supports x.recordType then return x else throw (.typeNotInFormat x.recordType.name m)

theorem ensures_fetch (hv : r.settings.validate = .ok ()) (s : Store) (uri m : String) :
    Ensures (· = s) (r.fetch Store.source uri m) (· = r.fetched s uri m) := by
  unfold fetch fetched
  refine Ensures.bind (ensures_ofExcept rfl) (fun o ho => ?_) fun e he => by rw [he]; rfl
  rw [ho, ok_bind]
  refine Ensures.bind (ensures_locate hv s uri) (fun x hx => ?_) fun e he => by rw [← he]; rfl
  rw [← hx, ok_bind]
  split_ifs
  · exact ensures_pure rfl
  · exact ensures_fail rfl

theorem fetched_eq_ok_iff {m : String} : r.fetched s uri m = .ok x ↔
    ∃ o, r.formats.options? m = some o ∧ r.located s uri = .ok x ∧
      o.supports x.recordType = true := by
  unfold fetched FormatRegistry.optionsFor
  cases r.formats.options? m with
  | none => simp
  | some o =>
    cases r.located s uri with
    | error f => simp
    | ok y =>
      by_cases hsupports : o.supports y.recordType = true
      · simp only [ok_bind, hsupports, if_true, pure_eq, Except.ok.injEq, Option.some.injEq,
          exists_eq_left', iff_self_and]
        rintro rfl
        exact hsupports
      · simp only [ok_bind, hsupports, if_false, throw_eq, reduceCtorEq, Option.some.injEq,
          exists_eq_left', Except.ok.injEq, false_iff]
        rintro ⟨rfl, hx⟩
        exact hsupports hx

theorem yields_fetch (hv : r.settings.validate = .ok ()) (s : Store) (uri m : String) :
    Yields (· = s) (r.fetch Store.source uri m) fun x => r.located s uri = .ok x := by
  refine (ensures_fetch hv s uri m).yields fun x hx => ?_
  obtain ⟨o, -, hlocated, -⟩ := fetched_eq_ok_iff.1 hx.symm
  exact hlocated

end Harvest.Repository
