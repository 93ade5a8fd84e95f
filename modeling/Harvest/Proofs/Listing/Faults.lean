import Harvest.Proofs.Listing.Contract
import Harvest.Proofs.Token.Acceptance

/-!
# What is wrong with a request

A request for a page is looked at in a fixed order, and the first thing that is wrong with it is
the fault it gets.  `Repository.complaints` lists what may be wrong, in that order: three things
about a token's text and place and the arguments beside it, then the set, then the window; without
a token the format comes first.

A request that is not complained about can be planned (`Repository.answers_planned`), and over a
store there is nothing else that can go wrong: the answer is a fault of the first complaint that is
justified, and a page if none is.  In particular the store never fails and never breaks the order of
its records, whatever cursor a token holds.
-/

namespace Harvest

/-! ### Complaints -/

/-- Something that may be wrong, and the kind of fault that it makes. -/
structure Complaint where
  kind : Fault.Kind
  justified : Prop

/-- The first justified complaint is of a kind. -/
def FirstIs (k : Fault.Kind) : List Complaint → Prop
  | [] => False
  | c :: cs => c.justified ∧ c.kind = k ∨ ¬ c.justified ∧ FirstIs k cs

/-- A result is a fault of the first justified complaint, or a value if there is none. -/
def Answers {α : Type} (cs : List Complaint) : Except Fault α → Prop
  | .ok _ => ∀ c ∈ cs, ¬ c.justified
  | .error f => FirstIs f.kind cs

section Complaints

variable {α β : Type} {c : Complaint} {cs : List Complaint} {k k' : Fault.Kind} {f : Fault}
  {x : Except Fault α}

theorem FirstIs.unique (h : FirstIs k cs) (h' : FirstIs k' cs) : k = k' := by
  induction cs with
  | nil => exact h.elim
  | cons c cs ih =>
    rcases h with ⟨hc, rfl⟩ | ⟨hc, h⟩ <;> rcases h' with ⟨hc', rfl⟩ | ⟨hc', h'⟩
    · rfl
    · exact absurd hc hc'
    · exact absurd hc' hc
    · exact ih h h'

theorem FirstIs.exists_justified (h : FirstIs k cs) : ∃ c ∈ cs, c.justified ∧ c.kind = k := by
  induction cs with
  | nil => exact h.elim
  | cons c cs ih =>
    rcases h with ⟨hc, hk⟩ | ⟨-, h⟩
    · exact ⟨c, List.mem_cons_self, hc, hk⟩
    · obtain ⟨c', hmem, hc'⟩ := ih h
      exact ⟨c', List.mem_cons_of_mem c hmem, hc'⟩

theorem Answers.cons (h : Answers cs x) (hc : ¬ c.justified) : Answers (c :: cs) x := by
  cases x with
  | ok a => exact List.forall_mem_cons.2 ⟨hc, h⟩
  | error f => exact .inr ⟨hc, h⟩

/-- The first complaint that is justified decides. -/
theorem answers_error (hc : c.justified) (hk : c.kind = f.kind) :
    Answers (c :: cs) (.error f : Except Fault α) := .inl ⟨hc, hk⟩

theorem answers_map {g : α → β} : Answers cs (x.map g) ↔ Answers cs x := by
  cases x <;> rfl

theorem Answers.error_iff (h : Answers cs x) : (∃ f, x = .error f ∧ f.kind = k) ↔ FirstIs k cs := by
  cases x with
  | ok a =>
    refine iff_of_false (by simp) fun hfirst => ?_
    obtain ⟨c, hmem, hc, -⟩ := hfirst.exists_justified
    exact h c hmem hc
  | error f =>
    constructor
    · rintro ⟨_, ⟨⟩, rfl⟩
      exact h
    · exact fun hfirst => ⟨f, rfl, h.unique hfirst⟩

theorem Answers.ok_iff (h : Answers cs x) : (∃ a, x = .ok a) ↔ ∀ c ∈ cs, ¬ c.justified := by
  cases x with
  | ok a => exact iff_of_true ⟨a, rfl⟩ h
  | error f =>
    refine iff_of_false (by simp) fun hnone => ?_
    obtain ⟨c, hmem, hc, -⟩ := FirstIs.exists_justified h
    exact hnone c hmem hc

end Complaints

/-! ### Complaints about requests -/

/-- An argument beside a token differs from what the token was issued for. -/
def ListRequest.Differs (q : ListRequest) (t : ResumptionToken) : Prop :=
  (∃ m, q.metadataPrefix = some m ∧ m ≠ t.metadataPrefix) ∨
    (∃ name, q.set = some name ∧ t.set ≠ some name) ∨
    (∃ i, q.since = some i ∧ t.since ≠ some i) ∨ ∃ i, q.upTo = some i ∧ t.upTo ≠ some i

/-- The lower bound is after the upper one. -/
def EmptyWindow (since upTo : Option Instant) : Prop :=
  ∃ i j, since = some i ∧ upTo = some j ∧ j < i

namespace Repository

variable {r : Repository} {q : ListRequest} {s : Store}

/-- A set is asked for that there is no rule for. -/
def Unresolved (r : Repository) (set : Option String) : Prop :=
  ∃ name, set = some name ∧ ∀ rule, r.settings.setDirectory.resolve name ≠ .ok rule

/-- What may be wrong with a request from the start. -/
def freshComplaints (r : Repository) (q : ListRequest) : List Complaint :=
  [⟨.badArgument, q.metadataPrefix = none⟩,
    ⟨.cannotDisseminateFormat, ∀ m, q.metadataPrefix = some m → r.formats.options? m = none⟩,
    ⟨.noSetHierarchy, r.Unresolved q.set⟩,
    ⟨.badArgument, EmptyWindow q.since q.upTo⟩]

/-- What may be wrong with a request that goes on with a token. -/
def resumedComplaints (r : Repository) (q : ListRequest) (t : ResumptionToken) : List Complaint :=
  [⟨.badResumptionToken, q.Differs t⟩,
    ⟨.badResumptionToken, r.formats.options? t.metadataPrefix = none⟩,
    ⟨.badResumptionToken, ∃ o, r.formats.options? t.metadataPrefix = some o ∧
      ¬ t.position.typeIndex.toNat < o.recordTypes.length⟩,
    ⟨.noSetHierarchy, r.Unresolved t.set⟩,
    ⟨.badArgument, EmptyWindow t.since t.upTo⟩]

/-- What may be wrong with a request, in the order in which it is looked at. -/
def complaints (r : Repository) (q : ListRequest) : List Complaint :=
  match q.token with
  | none => r.freshComplaints q
  | some raw =>
    match r.codec.deserialize raw with
    | .error _ => [⟨.badResumptionToken, True⟩]
    | .ok t => r.resumedComplaints q t

/-! ### Planning -/

theorem conflicts_iff {t : ResumptionToken} : conflicts q t = true ↔ q.Differs t := by
  simp only [conflicts, ListRequest.Differs, Bool.or_eq_true, Option.any_eq_true, or_assoc,
    decide_eq_true_eq, ne_eq, @eq_comm _ _ t.set, @eq_comm _ _ t.since, @eq_comm _ _ t.upTo]

theorem unresolved_iff {set : Option String} :
    r.Unresolved set ↔ ∃ f, r.resolveSet set = .error f := by
  cases set with
  | none => simp [Unresolved, resolveSet]
  | some name =>
    cases hrule : r.settings.setDirectory.resolve name <;>
      simp [Unresolved, resolveSet, hrule, Except.map]

theorem kind_of_resolveSet {set : Option String} {f : Fault} (h : r.resolveSet set = .error f) :
    f.kind = .noSetHierarchy := by
  cases set with
  | none => cases h
  | some name =>
    unfold resolveSet SetDirectory.resolve at h
    cases hnamed : r.settings.setDirectory.named.find? name with
    | some d => simp [hnamed, Except.map] at h
    | none =>
      simp only [hnamed] at h
      split_ifs at h
      · cases h
      · cases h
        rfl

theorem answers_checkWindow (p : Plan) :
    Answers [⟨.badArgument, EmptyWindow p.since p.upTo⟩] (checkWindow p) := by
  unfold checkWindow EmptyWindow
  split
  · rename_i i j hi hj
    split_ifs with hlt
    · exact answers_error ⟨i, j, hi, hj, hlt⟩ rfl
    · refine Answers.cons nofun ?_
      rintro ⟨i', j', hi', hj', hlt'⟩
      rw [hi] at hi'
      rw [hj] at hj'
      cases hi'
      cases hj'
      exact hlt hlt'
  · rename_i hnone
    refine Answers.cons nofun ?_
    rintro ⟨i, j, hi, hj, -⟩
    exact hnone i j hi hj

theorem answers_resolveSet {set : Option String} {plan : Option SetRule → Plan}
    {since upTo : Option Instant} (hsince : ∀ rule, (plan rule).since = since)
    (hupTo : ∀ rule, (plan rule).upTo = upTo) :
    Answers [⟨.noSetHierarchy, r.Unresolved set⟩, ⟨.badArgument, EmptyWindow since upTo⟩]
      ((r.resolveSet set >>= fun rule => .ok (plan rule)) >>= checkWindow) := by
  cases hset : r.resolveSet set with
  | error f => exact answers_error (unresolved_iff.2 ⟨f, hset⟩) (kind_of_resolveSet hset).symm
  | ok rule =>
    have hresolved : ¬ r.Unresolved set := fun h => by
      obtain ⟨f, hf⟩ := unresolved_iff.1 h
      rw [hset] at hf
      cases hf
    have hwindow := answers_checkWindow (plan rule)
    rw [hsince, hupTo] at hwindow
    exact hwindow.cons hresolved

theorem answers_planFresh (r : Repository) (q : ListRequest) :
    Answers (r.freshComplaints q) (r.planFresh q >>= checkWindow) := by
  unfold planFresh freshComplaints FormatRegistry.optionsFor
  cases hm : q.metadataPrefix with
  | none =>
    simp only [throw_eq, error_bind]
    exact answers_error trivial rfl
  | some m =>
    refine Answers.cons ?_ nofun
    cases ho : r.formats.options? m with
    | none =>
      simp only [error_bind, ho]
      refine answers_error ?_ rfl
      rintro _ ⟨⟩
      exact ho
    | some o =>
      have hregistered : ¬ ∀ m', some m = some m' → r.formats.options? m' = none := fun h => by
        rw [h m rfl] at ho
        cases ho
      refine Answers.cons ?_ hregistered
      simp only [ok_bind, ho]
      exact answers_resolveSet (fun _ => rfl) fun _ => rfl

theorem answers_planResumed (r : Repository) (q : ListRequest) (t : ResumptionToken) :
    Answers (r.resumedComplaints q t) (r.planResumed q t >>= checkWindow) := by
  unfold planResumed resumedComplaints
  by_cases hconflicts : conflicts q t = true
  · simp only [hconflicts, if_true, throw_eq, error_bind]
    exact answers_error (conflicts_iff.1 hconflicts) rfl
  simp only [hconflicts, Bool.false_eq_true, if_false]
  refine Answers.cons ?_ fun h => hconflicts (conflicts_iff.2 h)
  cases ho : r.formats.options? t.metadataPrefix with
  | none =>
    simp only [throw_eq, error_bind]
    exact answers_error trivial rfl
  | some o =>
    refine Answers.cons ?_ nofun
    by_cases hrange : t.position.typeIndex.toNat < o.recordTypes.length
    · have hin : ¬ ∃ o', some o = some o' ∧
          ¬ t.position.typeIndex.toNat < o'.recordTypes.length := by
        rintro ⟨_, ⟨⟩, hout⟩
        exact hout hrange
      refine Answers.cons ?_ hin
      simp only [if_neg (Nat.not_le.2 hrange)]
      exact answers_resolveSet (fun _ => rfl) fun _ => rfl
    · simp only [if_pos (Nat.le_of_not_lt hrange), throw_eq, error_bind]
      exact answers_error ⟨o, rfl, hrange⟩ rfl

theorem answers_planned (r : Repository) (q : ListRequest) :
    Answers (r.complaints q) (r.planned q) := by
  unfold planned complaints
  cases hq : q.token with
  | none => exact answers_planFresh r q
  | some raw =>
    simp only
    cases hraw : r.codec.deserialize raw with
    | error f => exact answers_error trivial (Codec.kind_of_deserializeWith hraw).symm
    | ok t => exact answers_planResumed r q t

/-! ### Answers -/

/-- What is given beside a token does not matter if it agrees with the token. -/
theorem planned_of_not_differs {raw : String} {t : ResumptionToken} (hq : q.token = some raw)
    (hraw : r.codec.deserialize raw = .ok t) (hsame : ¬ q.Differs t) :
    r.planned q = r.planned (.resume raw) := by
  have hnone : conflicts q t = false := Bool.eq_false_iff.2 fun h => hsame (conflicts_iff.1 h)
  have htoken : (ListRequest.resume raw).token = some raw := rfl
  have hbare : conflicts (.resume raw) t = false := rfl
  unfold planned
  simp only [hq, htoken, hraw, ok_bind, planResumed, hnone, hbare]

/-- The kinds of fault that a request for a page has of its own. -/
def requestKinds : List Fault.Kind :=
  [.badArgument, .badResumptionToken, .noSetHierarchy, .cannotDisseminateFormat]

theorem kind_of_complaint {c : Complaint} (h : c ∈ r.complaints q) : c.kind ∈ requestKinds := by
  unfold complaints at h
  split at h
  · simp only [freshComplaints, List.mem_cons, List.not_mem_nil, or_false] at h
    rcases h with rfl | rfl | rfl | rfl <;> simp [requestKinds]
  · split at h
    · rw [List.mem_singleton.1 h]
      simp [requestKinds]
    · simp only [resumedComplaints, List.mem_cons, List.not_mem_nil, or_false] at h
      rcases h with rfl | rfl | rfl | rfl | rfl <;> simp [requestKinds]

theorem kind_ne_store_of_complaint {c : Complaint} (h : c ∈ r.complaints q) : c.kind ≠ .store := by
  intro hkind
  have hmem := kind_of_complaint h
  rw [hkind] at hmem
  exact absurd hmem (by decide)

/-- **A request fails for the first thing that is wrong with it, and for nothing else.**  Over a
store in any state that it can get into, a request is answered with a fault of the first complaint
that is justified, and with a page if there is none.  What is given beside a token and agrees with
it does not change the answer.  The store itself never fails. -/
theorem answer_fails_in_order (hs : s.Reachable) (r : Repository) (q : ListRequest) :
    (∀ k, (∃ f, r.answer s q = .error f ∧ f.kind = k) ↔ FirstIs k (r.complaints q)) ∧
    ((∃ page, r.answer s q = .ok page) ↔ ∀ c ∈ r.complaints q, ¬ c.justified) ∧
    (∀ raw t, q.token = some raw → r.codec.deserialize raw = .ok t → ¬ q.Differs t →
      r.answer s q = r.answer s (.resume raw)) ∧
    ∀ f, r.answer s q = .error f → f.kind ≠ .store := by
  have hanswers : Answers (r.complaints q) (r.answer s q) := by
    rw [answer_eq hs.wellFormed]
    exact answers_map.2 (answers_planned r q)
  refine ⟨fun k => hanswers.error_iff, hanswers.ok_iff, fun raw t hq hraw hsame => ?_, ?_⟩
  · rw [answer_eq hs.wellFormed, answer_eq hs.wellFormed, planned_of_not_differs hq hraw hsame]
  · intro f hf
    rw [hf] at hanswers
    obtain ⟨c, hc, -, hkind⟩ := FirstIs.exists_justified hanswers
    exact hkind ▸ kind_ne_store_of_complaint hc

/-- A set that is not there is what is wrong with a listing of it, and the format of a token may be
given beside the token. -/
theorem answer_fails_in_order_attic : Store.sample.Reachable ∧
    (∃ f, sampleSingles.answer Store.sample
        { ListRequest.fresh "oai_dc" with set := some "attic" } = .error f ∧
      f.kind = .noSetHierarchy) ∧
    sampleSingles.answer Store.sample
        { ListRequest.fresh "oai_dc" with
          token := some (sampleSingles.codec.serialize betweenToken) } =
      sampleSingles.answer Store.sample
        (.resume (sampleSingles.codec.serialize betweenToken)) := by
  have hs := Store.sample_reachable
  have hread := Codec.deserialize_serialize_of_short sampleSingles.codec betweenToken (by decide)
    (by decide)
  have hattic : sampleSingles.settings.setDirectory.resolve "attic" =
      .error (.unknownSet "attic") := by decide
  refine ⟨hs, ((answer_fails_in_order hs sampleSingles _).1 _).2 ?_, ?_⟩
  · refine .inr ⟨nofun, .inr ⟨fun h => ?_, .inl ⟨⟨"attic", rfl, fun rule h => ?_⟩, rfl⟩⟩⟩
    · cases h "oai_dc" rfl
    · rw [hattic] at h
      cases h
  · refine (answer_fails_in_order hs sampleSingles _).2.2.1 _ _ rfl hread ?_
    rintro (⟨m, ⟨⟩, hm⟩ | ⟨name, ⟨⟩, -⟩ | ⟨i, ⟨⟩, -⟩ | ⟨i, ⟨⟩, -⟩)
    exact hm rfl

end Repository

end Harvest
