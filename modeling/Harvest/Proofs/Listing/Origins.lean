import Harvest.Proofs.Listing.Faults

/-!
# Where the faults of the repository come from

Over any source there are three ways for a listing to fail (`Repository.find_eq_error`): it cannot
be planned, the source refuses one of its scans, or a batch breaks the order of cursors.  What
cannot be planned fails with one of four kinds (`Repository.kind_of_planned`), and over a store that
is the only way (`Repository.isProtocol_of_find`).

A lookup fails because the source does, or because there is nothing to be shown
(`Repository.locate_eq_error`).
-/

namespace Harvest

namespace Exchange

/-- The source has refused to answer. -/
def Refuses (e : Exchange) (f : Fault) : Prop := e.answer = .error f

/-- The source has answered out of order, and one of the records is held against it. -/
def Breaks (e : Exchange) (f : Fault) : Prop :=
  ∃ batch, e.answer = .ok batch ∧ ¬ Pass.InOrder e.query.after batch ∧
    ∃ r ∈ batch, f = .outOfOrder r.uri

end Exchange

namespace Pass

variable {p : Pass} {t : RecordType} {room index : Nat} {after : Option Cursor}
  {batch : List Record} {ts : List RecordType} {scans : List Exchange} {f : Fault}

theorem of_sift_failed (h : (p.sift room after batch).ending = .failed f) :
    ¬ InOrder after batch ∧ ∃ r ∈ batch, f = .outOfOrder r.uri := by
  induction batch generalizing room after with
  | nil => cases h
  | cons r batch ih =>
    have hrest : ∀ room', (p.sift room' (some r.cursor) batch).ending = .failed f →
        ¬ InOrder after (r :: batch) ∧ ∃ x ∈ r :: batch, f = .outOfOrder x.uri := by
      intro room' h'
      obtain ⟨hno, x, hx, hf⟩ := ih h'
      exact ⟨fun hall => hno hall.tail, x, List.mem_cons_of_mem _ hx, hf⟩
    by_cases hafter : after.all (· < r.cursor) = true
    · rw [sift, if_pos hafter] at h
      cases hl : p.listed? r with
      | none =>
        rw [hl] at h
        exact hrest _ h
      | some shown =>
        rw [hl] at h
        simp only at h
        split_ifs at h
        exact hrest _ h
    · rw [sift, if_neg hafter] at h
      refine ⟨fun hall => hafter ?_, r, List.mem_cons_self, (SiftEnd.failed.inj h).symm⟩
      exact (Option.all_eq_true _ _).2 fun a ha =>
        decide_eq_true (hall.2 a ha r List.mem_cons_self)

theorem TypeRun.eq_error {x : Except Fault TypeWalk} (h : p.TypeRun t room after scans x)
    (hx : x = .error f) : ∃ e ∈ scans, e.Refuses f ∨ e.Breaks f := by
  induction h with
  | refused g =>
    cases hx
    exact ⟨_, List.mem_singleton_self _, .inl rfl⟩
  | failed h =>
    cases hx
    obtain ⟨hno, hr⟩ := of_sift_failed h
    exact ⟨_, List.mem_singleton_self _, .inr ⟨_, rfl, hno, hr⟩⟩
  | full _ | last _ _ => cases hx
  | more _ _ _ ih =>
    obtain ⟨e, he, hf⟩ := ih (map_eq_error_iff.1 hx)
    exact ⟨e, List.mem_cons_of_mem _ he, hf⟩

/-- **A walk fails with one of its scans.** -/
theorem WalkRun.eq_error {x : Except Fault Walk} (h : p.WalkRun index ts room after scans x)
    (hx : x = .error f) : ∃ e ∈ scans, e.Refuses f ∨ e.Breaks f := by
  induction h with
  | done | full _ _ => cases hx
  | failed h => exact h.eq_error (congrArg Except.error (Except.error.inj hx))
  | next _ _ _ ih =>
    obtain ⟨e, he, hf⟩ := ih (map_eq_error_iff.1 hx)
    exact ⟨e, List.mem_append_right _ he, hf⟩

end Pass

namespace Repository

open Engine

variable {σ : Type} {r : Repository} {src : Source σ} {q : ListRequest} {s : σ} {f : Fault}
  {uri m : String}

/-! ### Listings -/

/-- What cannot be planned has a fault of its own. -/
theorem kind_of_planned (h : r.planned q = .error f) : f.kind ∈ requestKinds := by
  have hanswers := answers_planned r q
  rw [h] at hanswers
  obtain ⟨c, hc, -, hkind⟩ := FirstIs.exists_justified hanswers
  exact hkind ▸ kind_of_complaint hc

theorem isProtocol_of_requestKinds (h : f.kind ∈ requestKinds) : f.isProtocol = true := by
  have hall : ∀ k ∈ requestKinds, k.isProtocol = true := by decide
  exact hall _ h

/-- **A listing that fails cannot be planned, or fails with one of its scans.** -/
theorem find_eq_error (h : ((r.find src q).run s).result = .error f) :
    r.planned q = .error f ∨ ∃ e ∈ r.scans src q s, e.Refuses f ∨ e.Breaks f := by
  obtain ⟨g, hg, -, hx⟩ | ⟨p, w, -, hrun, hx⟩ := run_of_find h
  · cases hx
    exact .inl hg
  · exact .inr (hrun.eq_error (map_eq_error_iff.1 hx.symm))

theorem find_of_planned_error (h : r.planned q = .error f) :
    ((r.find src q).run s).result = .error f := by
  obtain ⟨g, hg, -, hx⟩ | ⟨p, w, hp, -⟩ := run_of_find (rfl : ((r.find src q).run s).result = _)
  · obtain rfl : f = g := Except.error.inj (h.symm.trans hg)
    exact hx
  · rw [h] at hp
    cases hp

/-- Over a store there is nothing but the request that can be at fault. -/
theorem isProtocol_of_find {store : Store} (hs : store.WellFormed)
    (h : ((r.find Store.source q).run store).result = .error f) : f.isProtocol = true := by
  rw [(ensures_find (Store.serves hs) q store rfl).1] at h
  exact isProtocol_of_requestKinds (kind_of_planned (map_eq_error_iff.1 h))

theorem not_refuses {store : Store} (hs : store.WellFormed) {e : Exchange}
    (he : e ∈ r.scans Store.source q store) : ¬ e.Refuses f := by
  intro hf
  obtain ⟨-, -, hscans, -⟩ | ⟨p, w, hp, hrun, hx⟩ :=
    run_of_find (rfl : ((r.find Store.source q).run store).result = _)
  · rw [hscans] at he
    cases he
  · rw [(ensures_find (Store.serves hs) q store rfl).1, hp, hrun.error_of_refused he hf] at hx
    cases hx

/-! ### Lookups -/

/-- **A lookup that fails is refused by the source, or has nothing to show.** -/
theorem locate_eq_error (h : ((r.locate src uri).run s).result = .error f) :
    (src.get uri s).1 = .error f ∨ f = .noRecord uri := by
  have hask : ((ask (src.get uri)).run s).result = (src.get uri s).1 := rfl
  rw [locate, result_bind, hask] at h
  obtain hget | ⟨found, -, h⟩ := bind_eq_error_iff.1 h
  · exact .inl hget
  refine .inr ?_
  cases found with
  | none => exact (Except.error.inj h).symm
  | some x =>
    simp only at h
    split_ifs at h
    · exact (Except.error.inj h).symm
    · cases h
    · cases hreason : x.hiddenReason? with
      | none =>
        rw [hreason] at h
        cases h
      | some reason =>
        rw [hreason] at h
        cases hpolicy : r.settings.hiddenPolicy
        · simp only [hpolicy] at h
          exact (Except.error.inj h).symm
        · simp only [hpolicy] at h
          cases h

theorem fetch_eq_error (h : ((r.fetch src uri m).run s).result = .error f) :
    (src.get uri s).1 = .error f ∨ f = .noRecord uri ∨ f.kind = .cannotDisseminateFormat := by
  rw [fetch, result_ofExcept_bind] at h
  obtain hformat | ⟨o, -, h⟩ := bind_eq_error_iff.1 h
  · unfold FormatRegistry.optionsFor at hformat
    cases ho : r.formats.options? m with
    | some o => simp [ho] at hformat
    | none =>
      rw [ho] at hformat
      cases hformat
      exact .inr (.inr rfl)
  · rw [result_bind] at h
    obtain hlocate | ⟨x, -, h⟩ := bind_eq_error_iff.1 h
    · exact (locate_eq_error hlocate).imp_right .inl
    · split_ifs at h
      · cases h
      · cases h
        exact .inr (.inr rfl)

end Repository

end Harvest
