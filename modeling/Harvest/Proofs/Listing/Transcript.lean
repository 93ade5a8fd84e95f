import Harvest.Proofs.Listing.Page
import Harvest.Proofs.Recording

/-!
# Transcripts of walks

What a walk asks a source, and what it makes of the answers, is said once, as a relation between
the scans of the walk and its result: `Pass.TypeRun` for the walk through one type and
`Pass.WalkRun` for that through several.  Every walk over any source is such a run
(`Pass.records_walkType`, `Pass.records_walk`), so what holds of all runs holds of all walks, also
over a source that breaks its contract.

The scans of a listing (`Repository.scans`) are those of its walk (`Repository.run_of_find`).  Their
answers are those of the source, so what a source ensures of its answers holds of them
(`Repository.answers_of_scans`).
-/

namespace Harvest

namespace Pass

variable {p : Pass} {t : RecordType}

/-- The scans and the result of a walk through a type, with some room and after a cursor. -/
inductive TypeRun (p : Pass) (t : RecordType) :
    Nat → Option Cursor → List Exchange → Except Fault TypeWalk → Prop
  /-- The source has refused to answer. -/
  | refused {room after} (f : Fault) :
      TypeRun p t room after [⟨p.query t after, .error f⟩] (.error f)
  /-- The batch has been found to be out of order. -/
  | failed {room after batch f} (h : (p.sift room after batch).ending = .failed f) :
      TypeRun p t room after [⟨p.query t after, .ok batch⟩] (.error f)
  /-- The batch has filled the room. -/
  | full {room after batch} (h : (p.sift room after batch).ending = .full) :
      TypeRun p t room after [⟨p.query t after, .ok batch⟩]
        (.ok ⟨(p.sift room after batch).accepted, batch.length, true⟩)
  /-- The batch was the last one. -/
  | last {room after batch} (h : (p.sift room after batch).ending = .used)
      (hshort : batch.length < p.batchSize) :
      TypeRun p t room after [⟨p.query t after, .ok batch⟩]
        (.ok ⟨(p.sift room after batch).accepted, batch.length, false⟩)
  /-- The walk goes on behind the batch. -/
  | more {room after batch scans x} (h : (p.sift room after batch).ending = .used)
      (hlong : ¬ batch.length < p.batchSize)
      (hrest : TypeRun p t (room - (p.sift room after batch).accepted.length)
        (p.sift room after batch).after scans x) :
      TypeRun p t room after (⟨p.query t after, .ok batch⟩ :: scans)
        (x.map fun rest => ⟨(p.sift room after batch).accepted ++ rest.accepted,
          batch.length + rest.scanned, rest.full⟩)

/-- The scans and the result of a walk through types, the first of which has a place and starts
after a cursor. -/
inductive WalkRun (p : Pass) :
    Nat → List RecordType → Nat → Option Cursor → List Exchange → Except Fault Walk → Prop
  /-- There are no more types. -/
  | done {index room after} : WalkRun p index [] room after [] (.ok ⟨[], 0⟩)
  | failed {index t ts room after scans f} (h : TypeRun p t room after scans (.error f)) :
      WalkRun p index (t :: ts) room after scans (.error f)
  /-- The first type has filled the room. -/
  | full {index t ts room after scans here} (h : TypeRun p t room after scans (.ok here))
      (hfull : here.full = true) :
      WalkRun p index (t :: ts) room after scans
        (.ok ⟨here.accepted.map fun r => (index, r), here.scanned⟩)
  /-- The walk goes on with the other types. -/
  | next {index t ts room after scans here rest x} (h : TypeRun p t room after scans (.ok here))
      (hroom : here.full = false)
      (hrest : WalkRun p (index + 1) ts (room - here.accepted.length) none rest x) :
      WalkRun p index (t :: ts) room after (scans ++ rest)
        (x.map fun w => ⟨(here.accepted.map fun r => (index, r)) ++ w.accepted,
          here.scanned + w.scanned⟩)

open Engine

variable {σ : Type} (src : Source σ)

/-- **Every walk through a type is a run.** -/
theorem records_walkType (room : Nat) (after : Option Cursor) :
    Records (p.walkType src.recorded t room after) (p.walkType src t room after)
      (p.TypeRun t room after) := by
  generalize hn : Cursor.remaining after = n
  induction n using Nat.strongRecOn generalizing room after with
  | _ n ih =>
  subst hn
  rw [walkType, walkType]
  refine (records_scanBatch src _).bind ?_ ?_
  · rintro scans batch rfl
    refine Records.tell_bind ?_
    split
    · rename_i f hfailed
      exact records_fail (.failed hfailed)
    · rename_i hfull
      exact records_pure (.full hfull)
    · rename_i hused
      split_ifs with hshort
      · exact records_pure (.last hused hshort)
      · exact (ih _ (remaining_sift_lt hused hshort) _ _ rfl).map fun scans x hrest =>
          .more hused hshort hrest
  · rintro scans f rfl
    exact .refused f

/-- **Every walk through types is a run.** -/
theorem records_walk (index : Nat) (ts : List RecordType) (room : Nat) (after : Option Cursor) :
    Records (p.walk src.recorded index ts room after) (p.walk src index ts room after)
      (p.WalkRun index ts room after) := by
  induction ts generalizing index room after with
  | nil => exact records_pure .done
  | cons t ts ih =>
    rw [walk, walk]
    refine (records_walkType src room after).bind ?_ fun scans f h => .failed h
    intro scans here h
    cases hfull : here.full with
    | true =>
      simp only [if_true]
      refine records_pure ?_
      rw [List.append_nil]
      exact .full h hfull
    | false =>
      simp only [Bool.false_eq_true, if_false, List.length_map]
      exact (ih _ _ _).map fun rest x hrest => .next h hfull hrest

end Pass

namespace Plan

/-- The place of the type in which a plan starts. -/
def firstPlace (p : Plan) : Nat := (p.start.map fun t => t.typeIndex.toNat).getD 0

/-- The cursor after which a plan starts. -/
def firstAfter (p : Plan) : Option Cursor := p.start.map (·.last)

end Plan

namespace Repository

open Engine

variable {σ : Type} (r : Repository) (src : Source σ) (q : ListRequest)

/-- The scans of a listing, with their answers. -/
def scans (s : σ) : List Exchange := ((r.find src.recorded q).run (s, [])).state.2

/-- The walk that a plan asks for. -/
def Walks (p : Plan) : List Exchange → Except Fault Walk → Prop :=
  (r.pass p).WalkRun p.firstPlace (p.options.recordTypes.drop p.firstPlace)
    (p.options.pageSize + 1) p.firstAfter

theorem records_plan : Records (r.plan q : Engine (σ × List Exchange) Plan) (r.plan q)
    fun scans x => scans = [] ∧ x = r.planned q := by
  unfold plan planned
  cases q.token with
  | none => exact records_ofExcept ⟨rfl, rfl⟩
  | some raw =>
    cases hraw : r.codec.deserialize raw with
    | ok t =>
      simp only [hraw]
      exact records_ofExcept ⟨rfl, rfl⟩
    | error f =>
      simp only [hraw]
      exact Records.tell_bind (records_fail ⟨rfl, rfl⟩)

/-- **A listing asks what the walk of its plan asks**, and makes a page of what the walk gives. -/
theorem records_find : Records (r.find src.recorded q) (r.find src q) fun scans x =>
    (∃ f, r.planned q = .error f ∧ scans = [] ∧ x = .error f) ∨
      ∃ p w, r.planned q = .ok p ∧ r.Walks p scans w ∧ x = w.map (page p) := by
  unfold find
  refine (records_plan r q).bind ?_ ?_
  · rintro scans p ⟨rfl, hp⟩
    have hwalk : ∀ index ts after,
        (r.pass p).WalkRun index ts (p.options.pageSize + 1) after = r.Walks p →
        Records (do
          let w ← (r.pass p).walk src.recorded index ts (p.options.pageSize + 1) after
          Engine.tell [pageLine p w]
          return page p w) (do
          let w ← (r.pass p).walk src index ts (p.options.pageSize + 1) after
          Engine.tell [pageLine p w]
          return page p w) fun scans x => ∃ w, r.Walks p scans w ∧ x = w.map (page p) := by
      intro index ts after heq
      rw [← heq]
      refine ((r.pass p).records_walk src index ts _ after).bind ?_ ?_
      · intro scans w hw
        exact Records.tell_bind (records_pure ⟨.ok w, by rwa [List.append_nil], rfl⟩)
      · intro scans e he
        exact ⟨.error e, he, rfl⟩
    have hplan : ∀ scans x, (∃ w, r.Walks p scans w ∧ x = w.map (page p)) →
        (∃ f, r.planned q = .error f ∧ scans = [] ∧ x = .error f) ∨
          ∃ p w, r.planned q = .ok p ∧ r.Walks p scans w ∧ x = w.map (page p) :=
      fun scans x ⟨w, hw, hx⟩ => .inr ⟨p, w, hp.symm, hw, hx⟩
    cases hstart : p.start with
    | none =>
      refine (hwalk 0 _ none ?_).imp hplan
      rw [Walks, Plan.firstPlace, Plan.firstAfter, hstart]
      rfl
    | some t =>
      refine (hwalk t.typeIndex.toNat _ (some t.last) ?_).imp hplan
      rw [Walks, Plan.firstPlace, Plan.firstAfter, hstart]
      rfl
  · rintro scans f ⟨rfl, hf⟩
    exact .inl ⟨f, hf.symm, rfl, rfl⟩

variable {r src q}

/-- What is written down of a listing is a run of its plan, and what is found is its page. -/
theorem run_of_find {s : σ} {x : Except Fault Page} (h : ((r.find src q).run s).result = x) :
    (∃ f, r.planned q = .error f ∧ r.scans src q s = [] ∧ x = .error f) ∨
      ∃ p w, r.planned q = .ok p ∧ r.Walks p (r.scans src q s) w ∧ x = w.map (page p) := by
  obtain ⟨asked, -, hstate, hrun⟩ := records_find r src q s []
  have hscans : r.scans src q s = asked := by rw [scans, hstate, List.nil_append]
  rw [hscans, ← h]
  exact hrun

/-- To write down the scans of a listing does not change what is found. -/
theorem result_recorded (s : σ) :
    ((r.find src.recorded q).run (s, [])).result = ((r.find src q).run s).result := by
  obtain ⟨asked, hresult, -⟩ := records_find r src q s []
  exact hresult

end Repository

/-! ### The answers -/

section Answers

open Engine

variable {σ : Type} {src : Source σ} {I : σ → Prop} (hscan : ∀ q s, I s → I (src.scan q s).2)

include hscan

theorem ensures_scanBatch_kept (q : ScanQuery) : Ensures I (scanBatch src q) fun _ => True := by
  have hask : Ensures I (ask (src.scan q)) fun _ => True :=
    ensures_ask fun s hs => ⟨trivial, hscan q s hs⟩
  refine Ensures.bind hask.attempt (fun x _ => ?_) fun _ _ => trivial
  cases x with
  | ok batch => exact ensures_pure trivial
  | error f => exact Ensures.tell_bind (ensures_fail trivial)

namespace Pass

variable (p : Pass)

theorem ensures_walkType_kept (t : RecordType) (room : Nat) (after : Option Cursor) :
    Ensures I (p.walkType src t room after) fun _ => True := by
  generalize hn : Cursor.remaining after = n
  induction n using Nat.strongRecOn generalizing room after with
  | _ n ih =>
  subst hn
  rw [walkType]
  refine Ensures.bind (ensures_scanBatch_kept hscan _) (fun batch _ => ?_) fun _ _ => trivial
  refine Ensures.tell_bind ?_
  split
  · exact ensures_fail trivial
  · exact ensures_pure trivial
  · rename_i hused
    split_ifs with hshort
    · exact ensures_pure trivial
    · exact Ensures.bind (ih _ (remaining_sift_lt hused hshort) _ _ rfl)
        (fun rest _ => ensures_pure trivial) fun _ _ => trivial

theorem ensures_walk_kept (index : Nat) (ts : List RecordType) (room : Nat)
    (after : Option Cursor) : Ensures I (p.walk src index ts room after) fun _ => True := by
  induction ts generalizing index room after with
  | nil => exact ensures_pure trivial
  | cons t ts ih =>
    rw [walk]
    refine Ensures.bind (p.ensures_walkType_kept hscan t room after) (fun here _ => ?_)
      fun _ _ => trivial
    split_ifs
    · exact ensures_pure trivial
    · exact Ensures.bind (ih _ _ _) (fun rest _ => ensures_pure trivial) fun _ _ => trivial

end Pass

namespace Repository

variable (r : Repository)

/-- **A listing changes the state of a source by scans only.**  What all scans keep, it keeps. -/
theorem ensures_find_kept (q : ListRequest) : Ensures I (r.find src q) fun _ => True := by
  unfold find
  refine Ensures.bind (ensures_plan r q) (fun p _ => ?_) fun _ _ => trivial
  have hwalk : ∀ index after, Ensures I (do
      let w ← (r.pass p).walk src index (p.options.recordTypes.drop index)
        (p.options.pageSize + 1) after
      Engine.tell [pageLine p w]
      return page p w) fun _ => True := fun index after =>
    Ensures.bind ((r.pass p).ensures_walk_kept hscan index _ _ after)
      (fun w _ => Ensures.tell_bind (ensures_pure trivial)) fun _ _ => trivial
  cases p.start with
  | none => exact hwalk 0 none
  | some position => exact hwalk position.typeIndex.toNat (some position.last)

omit hscan in
/-- **The answers that are written down are those of the source.**  What the source ensures of its
answers holds of them. -/
theorem answers_of_scans {A : ScanQuery → Except Fault (List Record) → Prop} {q : ListRequest}
    {s : σ} (hanswers : ∀ q s, I s → A q (src.scan q s).1 ∧ I (src.scan q s).2) (hs : I s) :
    ∀ e ∈ r.scans src q s, A e.query e.answer := by
  have hkept : Ensures (fun x : σ × List Exchange => I x.1 ∧ ∀ e ∈ x.2, A e.query e.answer)
      (r.find src.recorded q) fun _ => True := by
    refine ensures_find_kept (fun q ⟨s, past⟩ ⟨hs, hpast⟩ => ?_) r q
    obtain ⟨hanswer, hI⟩ := hanswers q s hs
    refine ⟨hI, fun e he => ?_⟩
    rcases List.mem_append.1 he with he | he
    · exact hpast e he
    · obtain rfl := List.mem_singleton.1 he
      exact hanswer
  exact (hkept (s, []) ⟨hs, by simp⟩).2.2

end Repository

end Answers

end Harvest
