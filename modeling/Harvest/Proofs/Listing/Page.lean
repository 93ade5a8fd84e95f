import Harvest.Proofs.Listing.Walk

/-!
# Pages

A listing request comes down to a plan (`Repository.planned`), and a plan to the part of the whole
listing behind the plan's start (`Repository.due_eq`).  Over a source that serves some records,
`Repository.find` gives a page with the first records of that part, and a token exactly when it
leaves some behind (`Repository.ensures_find`, `Repository.page_eq`).
-/

namespace Harvest

/-- The spot that a token holds. -/
def TokenPosition.spot (t : TokenPosition) : Spot := ⟨t.typeIndex.toNat, t.last⟩

namespace Plan

/-- The token for going on behind a listed record. -/
def tokenAt (p : Plan) (e : Entry) : ResumptionToken where
  metadataPrefix := p.metadataPrefix
  set := p.set
  since := p.since
  upTo := p.upTo
  position := ⟨UInt64.ofNat e.1, e.2.cursor⟩

/-- Whether a listed record comes after the start of a plan. -/
def reaches (p : Plan) (e : Entry) : Bool := p.start.all fun t => t.spot < spotOf e

/-- The start of a plan is in one of its record types. -/
def InRange (p : Plan) : Prop :=
  ∀ t, p.start = some t → t.typeIndex.toNat < p.options.recordTypes.length

end Plan

namespace Repository

open Engine

variable {σ : Type} {src : Source σ} {I : σ → Prop} {rs : List Record} {r : Repository}
  {q : ListRequest} {p : Plan}

/-! ### Plans -/

/-- The plan of a request, without the log. -/
def planned (r : Repository) (q : ListRequest) : Except Fault Plan :=
  match q.token with
  | none => r.planFresh q >>= checkWindow
  | some raw => r.codec.deserialize raw >>= fun t => r.planResumed q t >>= checkWindow

theorem ensures_plan (r : Repository) (q : ListRequest) :
    Ensures I (r.plan q) (· = r.planned q) := by
  unfold plan planned
  cases q.token with
  | none => exact ensures_ofExcept rfl
  | some raw =>
    cases hraw : r.codec.deserialize raw with
    | ok t =>
      simp only [hraw]
      exact ensures_ofExcept rfl
    | error f =>
      simp only [hraw]
      exact Ensures.tell_bind (ensures_fail rfl)

theorem checkWindow_eq_ok_iff {p p' : Plan} : checkWindow p = .ok p' ↔
    p' = p ∧ ∀ s u, p.since = some s → p.upTo = some u → s ≤ u := by
  unfold checkWindow
  split
  · rename_i s u hs hu
    have hle : ¬ u < s ↔ s ≤ u := not_lt
    simp only [hs, hu, Option.some.injEq]
    split_ifs with hlt
    · simp [← hle, hlt]
    · simp [← hle, hlt, eq_comm]
  · rename_i hno
    rw [Except.ok.injEq, eq_comm, iff_self_and]
    rintro rfl s u hs hu
    exact absurd hu (hno s u hs)

theorem planFresh_eq_ok_iff : r.planFresh q = .ok p ↔
    ∃ m o rule, q.metadataPrefix = some m ∧ r.formats.options? m = some o ∧
      r.resolveSet q.set = .ok rule ∧ p = ⟨m, q.set, rule, q.since, q.upTo, o, none⟩ := by
  unfold planFresh FormatRegistry.optionsFor
  cases q.metadataPrefix with
  | none => simp
  | some m =>
    cases ho : r.formats.options? m with
    | none => simp [ho]
    | some o =>
      cases hrule : r.resolveSet q.set with
      | error f => simp [ho]
      | ok rule => simp [ho, eq_comm]

theorem planned_of_unresolved {m : String} {o : FormatOptions} {f : Fault} (hq : q.token = none)
    (hm : q.metadataPrefix = some m) (ho : r.formats.options? m = some o)
    (hset : r.resolveSet q.set = .error f) : r.planned q = .error f := by
  simp only [planned, hq, planFresh, hm, FormatRegistry.optionsFor, ho, hset, ok_bind, error_bind]

theorem planResumed_eq_ok_iff {t : ResumptionToken} : r.planResumed q t = .ok p ↔
    conflicts q t = false ∧ ∃ o rule, r.formats.options? t.metadataPrefix = some o ∧
      t.position.typeIndex.toNat < o.recordTypes.length ∧ r.resolveSet t.set = .ok rule ∧
      p = ⟨t.metadataPrefix, t.set, rule, t.since, t.upTo, o, some t.position⟩ := by
  unfold planResumed
  cases conflicts q t with
  | true => simp
  | false =>
    cases ho : r.formats.options? t.metadataPrefix with
    | none => simp
    | some o =>
      by_cases hlt : t.position.typeIndex.toNat < o.recordTypes.length
      · cases hrule : r.resolveSet t.set with
        | error f => simp [Nat.not_le.2 hlt]
        | ok rule => simp [Nat.not_le.2 hlt, hlt, eq_comm]
      · simp [Nat.not_lt.1 hlt, hlt]

theorem planned_fresh_eq_ok_iff (hq : q.token = none) : r.planned q = .ok p ↔
    r.planFresh q = .ok p ∧ ∀ s u, p.since = some s → p.upTo = some u → s ≤ u := by
  simp only [planned, hq, bind_eq_ok_iff, checkWindow_eq_ok_iff]
  constructor
  · rintro ⟨p', hp, rfl, hw⟩
    exact ⟨hp, hw⟩
  · rintro ⟨hp, hw⟩
    exact ⟨p, hp, rfl, hw⟩

theorem planned_resumed_eq_ok_iff {raw : String} (hq : q.token = some raw) :
    r.planned q = .ok p ↔ ∃ t, r.codec.deserialize raw = .ok t ∧ r.planResumed q t = .ok p ∧
      ∀ s u, p.since = some s → p.upTo = some u → s ≤ u := by
  simp only [planned, hq, bind_eq_ok_iff, checkWindow_eq_ok_iff]
  constructor
  · rintro ⟨t, ht, p', hp, rfl, hw⟩
    exact ⟨t, ht, hp, hw⟩
  · rintro ⟨t, ht, hp, hw⟩
    exact ⟨t, ht, p, hp, rfl, hw⟩

theorem options_of_planned (h : r.planned q = .ok p) :
    r.formats.options? p.metadataPrefix = some p.options := by
  cases hq : q.token with
  | none =>
    obtain ⟨hfresh, -⟩ := (planned_fresh_eq_ok_iff hq).1 h
    obtain ⟨m, o, rule, -, ho, -, rfl⟩ := planFresh_eq_ok_iff.1 hfresh
    exact ho
  | some raw =>
    obtain ⟨t, -, hresumed, -⟩ := (planned_resumed_eq_ok_iff hq).1 h
    obtain ⟨-, o, rule, ho, -, -, rfl⟩ := planResumed_eq_ok_iff.1 hresumed
    exact ho

theorem inRange_of_planned (h : r.planned q = .ok p) : p.InRange := by
  intro t ht
  cases hq : q.token with
  | none =>
    obtain ⟨hfresh, -⟩ := (planned_fresh_eq_ok_iff hq).1 h
    obtain ⟨m, o, rule, -, -, -, rfl⟩ := planFresh_eq_ok_iff.1 hfresh
    cases ht
  | some raw =>
    obtain ⟨t', -, hresumed, -⟩ := (planned_resumed_eq_ok_iff hq).1 h
    obtain ⟨-, o, rule, -, hlt, -, rfl⟩ := planResumed_eq_ok_iff.1 hresumed
    cases ht
    exact hlt

/-! ### What is due -/

/-- The whole listing of what a plan asks for. -/
def whole (r : Repository) (rs : List Record) (p : Plan) : List Entry :=
  (r.pass p).listing rs 0 p.options.recordTypes none

/-- What is still to be listed for a plan. -/
def due (r : Repository) (rs : List Record) (p : Plan) : List Entry :=
  match p.start with
  | none => r.whole rs p
  | some t => (r.pass p).listing rs t.typeIndex.toNat
      (p.options.recordTypes.drop t.typeIndex.toNat) (some t.last)

/-- **What is due is the part of the whole listing behind the start.** -/
theorem due_eq (h : p.InRange) : r.due rs p = (r.whole rs p).filter p.reaches := by
  unfold due
  cases hs : p.start with
  | none =>
    refine (List.filter_eq_self.2 fun e _ => ?_).symm
    simp [Plan.reaches, hs]
  | some t =>
    -- no record of a type in front of the start comes after it
    have hcut := @Pass.listing_drop (r.pass p) rs 0 _ _ (h t hs) t.last
    rw [Nat.zero_add] at hcut
    simp only [hcut, whole]
    refine List.filter_congr fun e _ => ?_
    simp only [Plan.reaches, hs, Option.all_some]
    rfl

theorem pairwise_whole (h : Shelved rs) :
    (r.whole rs p).Pairwise fun a b => spotOf a < spotOf b := Pass.pairwise_listing h _ _ _

theorem pairwise_due (h : Shelved rs) (hp : p.InRange) :
    (r.due rs p).Pairwise fun a b => spotOf a < spotOf b := by
  rw [due_eq hp]
  exact List.Pairwise.filter _ (pairwise_whole h)

/-! ### Pages -/

/-- The page of a plan over some records: the first ones that are due, and a token if more are. -/
def pageOver (r : Repository) (rs : List Record) (p : Plan) : Page where
  records := ((r.due rs p).take p.options.pageSize).map Prod.snd
  next := if (r.due rs p).length ≤ p.options.pageSize then none
    else ((r.due rs p).take p.options.pageSize).getLast?.map p.tokenAt

theorem page_eq_take (p : Plan) (w : Walk) : page p w =
    ⟨(w.accepted.take p.options.pageSize).map Prod.snd,
      if w.accepted.length ≤ p.options.pageSize then none
      else (w.accepted.take p.options.pageSize).getLast?.map p.tokenAt⟩ := by
  unfold page
  split_ifs with hle
  · rw [List.take_of_length_le hle]
  · cases hlast : (w.accepted.take p.options.pageSize).getLast? with
    | none => simp [List.getLast?_eq_none_iff.1 hlast]
    | some e =>
      simp only [hlast]
      rfl

theorem metadataPrefix_of_next {w : Walk} {t : ResumptionToken} (h : (page p w).next = some t) :
    t.metadataPrefix = p.metadataPrefix := by
  rw [page_eq_take] at h
  simp only [Option.ite_none_left_eq_some, Option.map_eq_some_iff] at h
  obtain ⟨-, e, -, rfl⟩ := h
  rfl

/-- A page is made from one record more than it has room for. -/
theorem page_eq {w : Walk} (hw : w.accepted = (r.due rs p).take (p.options.pageSize + 1)) :
    page p w = r.pageOver rs p := by
  have hlen : w.accepted.length ≤ p.options.pageSize ↔
      (r.due rs p).length ≤ p.options.pageSize := by
    rw [hw, List.length_take]
    omega
  have htake : w.accepted.take p.options.pageSize = (r.due rs p).take p.options.pageSize := by
    rw [hw, List.take_take, Nat.min_eq_left (Nat.le_succ _)]
  simp only [page_eq_take, pageOver, htake, hlen]

/-- **A page holds what is due first**, over any source that serves the records. -/
theorem ensures_find (hs : src.Serves I rs) (q : ListRequest) :
    Ensures I (r.find src q) (· = (r.planned q).map (r.pageOver rs)) := by
  unfold find
  refine Ensures.bind (ensures_plan r q) (fun p hp => ?_) fun e he => by rw [← he]; rfl
  rw [← hp]
  have hwalk : ∀ index ts after, (r.pass p).listing rs index ts after = r.due rs p →
      Ensures I (do
        let w ← (r.pass p).walk src index ts (p.options.pageSize + 1) after
        Engine.tell [pageLine p w]
        return page p w) (· = (Except.ok p).map (r.pageOver rs)) := by
    intro index ts after hdue
    refine Ensures.bind (Pass.ensures_walk hs index ts (Nat.succ_pos _) after) ?_
      (by rintro e ⟨w, ⟨⟩, -⟩)
    rintro w ⟨w', hw, haccepted⟩
    cases hw
    exact Ensures.tell_bind (ensures_pure (congrArg _ (page_eq (haccepted.trans (by rw [hdue])))))
  cases hstart : p.start with
  | none => exact hwalk _ _ _ (by rw [due, hstart]; rfl)
  | some t => exact hwalk _ _ _ (by rw [due, hstart])

end Repository

end Harvest
