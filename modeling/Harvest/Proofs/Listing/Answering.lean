import Harvest.Proofs.Listing.Walk

/-!
# Sources that answer by the query

If the answers of a source depend on nothing but the query (`Source.AnswersBy`), a listing gives the
same page in every state that the source may get into, and over every other source with the same
answers (`Repository.agree_find_answersBy`).  Answers need not be in order, or right in any other
way; they may be faults.
-/

namespace Harvest

open Engine

/-- In every state with `I`, the answer to a query is fixed, and the source stays in such a
state. -/
def Source.AnswersBy {σ : Type} (src : Source σ) (I : σ → Prop)
    (answer : ScanQuery → Except Fault (List Record)) : Prop :=
  ∀ q s, I s → (src.scan q s).1 = answer q ∧ I (src.scan q s).2

theorem Store.answersBy (s : Store) :
    Store.source.AnswersBy (· = s) fun q => (Store.source.scan q s).1 := by
  rintro q _ rfl
  exact ⟨rfl, rfl⟩

variable {σ τ : Type} {src : Source σ} {src' : Source τ} {I : σ → Prop} {J : τ → Prop}
  {answer : ScanQuery → Except Fault (List Record)}

theorem Engine.agree_scanBatch (h : src.AnswersBy I answer) (h' : src'.AnswersBy J answer)
    (q : ScanQuery) : Agree I J (scanBatch src q) (scanBatch src' q) := by
  have hask : Agree I J (ask (src.scan q)) (ask (src'.scan q)) := by
    intro s t hs ht
    obtain ⟨hanswer, hI⟩ := h q s hs
    obtain ⟨hanswer', hJ⟩ := h' q t ht
    exact ⟨hanswer.trans hanswer'.symm, hI, hJ⟩
  unfold scanBatch
  refine hask.attempt.bind fun x => ?_
  cases x with
  | ok batch => exact agree_pure batch
  | error f => exact Agree.tell_bind (agree_fail f)

namespace Pass

variable (p : Pass)

theorem agree_walkType (h : src.AnswersBy I answer) (h' : src'.AnswersBy J answer)
    (t : RecordType) (room : Nat) (after : Option Cursor) :
    Agree I J (p.walkType src t room after) (p.walkType src' t room after) := by
  generalize hn : Cursor.remaining after = n
  induction n using Nat.strongRecOn generalizing room after with
  | _ n ih =>
  subst hn
  rw [walkType, walkType]
  refine (agree_scanBatch h h' _).bind fun batch => Agree.tell_bind ?_
  split
  · exact agree_fail _
  · exact agree_pure _
  · rename_i hused
    split_ifs with hshort
    · exact agree_pure _
    · exact (ih _ (remaining_sift_lt hused hshort) _ _ rfl).bind fun rest => agree_pure _

theorem agree_walk (h : src.AnswersBy I answer) (h' : src'.AnswersBy J answer) (index : Nat)
    (ts : List RecordType) (room : Nat) (after : Option Cursor) :
    Agree I J (p.walk src index ts room after) (p.walk src' index ts room after) := by
  induction ts generalizing index room after with
  | nil => exact agree_pure _
  | cons t ts ih =>
    rw [walk, walk]
    refine (p.agree_walkType h h' t room after).bind fun here => ?_
    split_ifs
    · exact agree_pure _
    · exact (ih _ _ _).bind fun rest => agree_pure _

end Pass

namespace Repository

variable (r : Repository)

theorem agree_plan (q : ListRequest) : Agree I J (r.plan q) (r.plan q) := by
  unfold plan
  cases q.token with
  | none => exact agree_ofExcept _
  | some raw =>
    simp only
    cases r.codec.deserialize raw with
    | ok t => exact agree_ofExcept _
    | error f => exact Agree.tell_bind (agree_fail f)

/-- **Pages depend on the answers and on nothing else.** -/
theorem agree_find_answersBy (h : src.AnswersBy I answer) (h' : src'.AnswersBy J answer)
    (q : ListRequest) : Agree I J (r.find src q) (r.find src' q) := by
  unfold find
  refine (r.agree_plan q).bind fun p => ?_
  have hwalk : ∀ index after, Agree I J (do
      let w ← (r.pass p).walk src index (p.options.recordTypes.drop index)
        (p.options.pageSize + 1) after
      Engine.tell [pageLine p w]
      return page p w) (do
      let w ← (r.pass p).walk src' index (p.options.recordTypes.drop index)
        (p.options.pageSize + 1) after
      Engine.tell [pageLine p w]
      return page p w) := fun index after =>
    ((r.pass p).agree_walk h h' index _ _ after).bind fun w => Agree.tell_bind (agree_pure _)
  cases p.start with
  | none => exact hwalk 0 none
  | some position => exact hwalk position.typeIndex.toNat (some position.last)

end Repository

end Harvest
