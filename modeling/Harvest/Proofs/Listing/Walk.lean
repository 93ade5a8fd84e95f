import Harvest.Proofs.Engine
import Harvest.Proofs.Listing.Reference

/-!
# Walks over a source that keeps its contract

A source *serves* some records (`Source.Serves`) when every scan gives the first of them that the
query admits, in order.  A store serves its records (`Store.serves`).

Over such a source a walk accepts the first records of the reference listing, as many as there is
room for, whatever the size of a batch (`Pass.ensures_walk`).  The invariant of the walk through a
type is that what is still to be read are the records admitted after the last cursor.
-/

namespace Harvest

/-- In every state with `I`, scans give what the queries admit of some ordered records. -/
structure Source.Serves {σ : Type} (src : Source σ) (I : σ → Prop) (rs : List Record) : Prop where
  shelved : Shelved rs
  scan : ∀ q s, I s →
    (src.scan q s).1 = .ok ((rs.filter q.admits).take q.limit) ∧ I (src.scan q s).2

/-- A well-formed store serves its records, and stays as it is. -/
theorem Store.serves {s : Store} (h : s.WellFormed) : Store.source.Serves (· = s) s.records where
  shelved := shelved_records h
  scan q _ hs := by
    subst hs
    exact ⟨congrArg Except.ok (scan_eq h q), rfl⟩

namespace Pass

open Engine

variable {σ : Type} {src : Source σ} {I : σ → Prop} {rs : List Record} {p : Pass}

/-! ### Sifting -/

/-- The records of a batch are in order, and come after a cursor. -/
def InOrder (after : Option Cursor) (batch : List Record) : Prop :=
  batch.Pairwise (fun a b => a.cursor < b.cursor) ∧ ∀ a, after = some a → ∀ r ∈ batch, a < r.cursor

theorem InOrder.tail {after : Option Cursor} {r : Record} {batch : List Record}
    (h : InOrder after (r :: batch)) : InOrder (some r.cursor) batch := by
  obtain ⟨hr, hbatch⟩ := List.pairwise_cons.1 h.1
  refine ⟨hbatch, fun a ha => ?_⟩
  cases ha
  exact hr

/-- **What sifting a batch comes to, whatever the batch holds.**  It is found to be out of order, or
the room is filled with its first listed records, or all that is listed of it is accepted. -/
theorem sift_cases (p : Pass) {room : Nat} (hroom : 0 < room) (after : Option Cursor)
    (batch : List Record) :
    let x := p.sift room after batch
    let listed := batch.filterMap p.listed?
    (∃ f, x.ending = .failed f ∧ ¬ InOrder after batch) ∨
      (x.ending = .full ∧ room ≤ listed.length ∧ x.accepted = listed.take room) ∨
      x.ending = .used ∧ listed.length < room ∧ x.accepted = listed ∧
        x.after = (batch.getLast?.map Record.cursor).or after := by
  induction batch generalizing room after with
  | nil => exact .inr (.inr ⟨rfl, hroom, rfl, rfl⟩)
  | cons r batch ih =>
    have hlast : ((r :: batch).getLast?.map Record.cursor).or after =
        (batch.getLast?.map Record.cursor).or (some r.cursor) := by
      rw [List.getLast?_cons]
      cases batch.getLast? <;> rfl
    simp only [hlast]
    by_cases hafter : after.all (· < r.cursor) = true
    · cases hl : p.listed? r with
      | none =>
        simp only [sift, hafter, if_true, hl, Sift.cons, List.nil_append,
          List.filterMap_cons_none hl]
        exact (ih hroom _).imp_left fun ⟨f, hf, hno⟩ => ⟨f, hf, fun h => hno h.tail⟩
      | some shown =>
        rw [List.filterMap_cons_some hl]
        by_cases hone : room ≤ 1
        · obtain rfl : room = 1 := by omega
          exact .inr (.inl (by simp [sift, hafter, hl]))
        · -- there is room for more, so the rest of the batch is sifted with one place less
          obtain ⟨n, rfl⟩ : ∃ n, room = n + 1 := ⟨room - 1, by omega⟩
          simp only [sift, hafter, if_true, hl, if_neg hone, Sift.cons, Nat.add_sub_cancel,
            List.singleton_append, List.length_cons, List.take_succ_cons, List.cons.injEq,
            true_and, Nat.add_le_add_iff_right, Nat.add_lt_add_iff_right]
          exact (ih (by omega : 0 < n) _).imp_left fun ⟨f, hf, hno⟩ => ⟨f, hf, fun h => hno h.tail⟩
    · refine .inl ⟨_, by rw [sift, if_neg hafter], fun h => hafter ?_⟩
      exact (Option.all_eq_true _ _).2 fun a ha =>
        decide_eq_true (h.2 a ha r List.mem_cons_self)

/-! ### Batches -/

/-- The batch that comes after a cursor. -/
def batch (p : Pass) (rs : List Record) (t : RecordType) (after : Option Cursor) : List Record :=
  (rs.filter (p.query t after).admits).take p.batchSize

/-- What the batch leaves of its type. -/
def beyond (p : Pass) (rs : List Record) (t : RecordType) (after : Option Cursor) : List Record :=
  (rs.filter (p.query t after).admits).drop p.batchSize

theorem ofType_eq (t : RecordType) (after : Option Cursor) : p.ofType rs t after =
    (p.batch rs t after).filterMap p.listed? ++ (p.beyond rs t after).filterMap p.listed? := by
  rw [← List.filterMap_append, batch, beyond, List.take_append_drop, ofType]

theorem lt_of_mem_batch {t : RecordType} {after : Option Cursor} {r : Record}
    (hr : r ∈ p.batch rs t after) : ∀ a, after = some a → a < r.cursor :=
  (ScanQuery.admits_iff.1 (List.mem_filter.1 (List.mem_of_mem_take hr)).2).2.1

theorem beyond_eq_nil {t : RecordType} {after : Option Cursor}
    (h : (p.batch rs t after).length < p.batchSize) : p.beyond rs t after = [] := by
  rw [batch, List.length_take] at h
  exact List.drop_eq_nil_of_le (by omega)

theorem exists_last {t : RecordType} {after : Option Cursor}
    (h : ¬ (p.batch rs t after).length < p.batchSize) :
    ∃ r, (p.batch rs t after).getLast? = some r := by
  refine Option.isSome_iff_exists.1 (List.getLast?_isSome.2 fun hnil => ?_)
  rw [hnil] at h
  exact h p.batchSize_pos

/-- After the last record of a batch comes what the batch leaves. -/
theorem filter_last (h : Shelved rs) {t : RecordType} {after : Option Cursor} {r : Record}
    (hr : (p.batch rs t after).getLast? = some r) :
    rs.filter (p.query t (some r.cursor)).admits = p.beyond rs t after := by
  rw [filter_query (lt_of_mem_batch (List.mem_of_getLast? hr)), beyond,
    filter_eq_drop (r := fun a b : Record => a.cursor < b.cursor)
      (fun a b => lt_asymm)
      (pairwise_admitted h t after) hr]

theorem ofType_last (h : Shelved rs) {t : RecordType} {after : Option Cursor} {r : Record}
    (hr : (p.batch rs t after).getLast? = some r) :
    p.ofType rs t (some r.cursor) = (p.beyond rs t after).filterMap p.listed? := by
  rw [ofType, filter_last h hr]

/-- Sifting a batch either fills the room with the first listed records of the type, or accepts
all that is listed of the batch and leaves the rest of the type to the next one. -/
theorem sift_batch (h : Shelved rs) (t : RecordType) {room : Nat} (hroom : 0 < room)
    (after : Option Cursor) :
    let x := p.sift room after (p.batch rs t after)
    x.ending = .full ∧ room ≤ (p.ofType rs t after).length ∧
        x.accepted = (p.ofType rs t after).take room ∨
      x.ending = .used ∧ x.accepted.length < room ∧
        p.ofType rs t after = x.accepted ++ (p.beyond rs t after).filterMap p.listed? ∧
        x.after = ((p.batch rs t after).getLast?.map Record.cursor).or after := by
  intro x
  have hof : p.ofType rs t after = _ := ofType_eq t after
  have hordered : InOrder after (p.batch rs t after) :=
    ⟨(pairwise_admitted h t after).take, fun a ha r hr => lt_of_mem_batch hr a ha⟩
  obtain ⟨f, -, hno⟩ | ⟨hending, hle, haccepted⟩ | ⟨hending, hlt, haccepted, hcursor⟩ :=
    sift_cases p hroom after (p.batch rs t after)
  · exact absurd hordered hno
  · refine .inl ⟨hending, ?_, ?_⟩
    · rw [hof, List.length_append]
      exact Nat.le_add_right_of_le hle
    · rw [hof, List.take_append_of_le_length hle]
      exact haccepted
  · refine .inr ⟨hending, ?_, ?_, hcursor⟩
    · exact haccepted ▸ hlt
    · rw [hof, ← haccepted]

/-! ### One type -/

theorem ensures_scanBatch (hs : src.Serves I rs) (q : ScanQuery) :
    Ensures I (scanBatch src q) (· = .ok ((rs.filter q.admits).take q.limit)) := by
  refine Ensures.bind (Ensures.attempt (ensures_ask (P := (· = .ok _)) fun s => hs.scan q s)) ?_ ?_
  · rintro x ⟨y, hx, rfl⟩
    cases hx
    exact ensures_pure rfl
  · rintro e ⟨y, hy, -⟩
    cases hy

/-- **A walk through a type accepts the first records that are listed of it**, and says whether
they fill the room. -/
theorem ensures_walkType (hs : src.Serves I rs) (t : RecordType) {room : Nat} (hroom : 0 < room)
    (after : Option Cursor) :
    Ensures I (p.walkType src t room after) fun x =>
      ∃ w, x = .ok w ∧ w.accepted = (p.ofType rs t after).take room ∧
        w.full = decide (room ≤ (p.ofType rs t after).length) := by
  -- every further batch starts at a later cursor
  generalize hn : Cursor.remaining after = n
  induction n using Nat.strongRecOn generalizing room after with
  | _ n ih =>
  subst hn
  rw [walkType]
  refine Ensures.bind (ensures_scanBatch hs (p.query t after)) ?_ (by rintro e ⟨⟩)
  rintro b hb
  obtain rfl : b = p.batch rs t after := Except.ok.inj hb
  refine Ensures.tell_bind ?_
  have hsift := sift_batch (p := p) hs.shelved t hroom after
  split
  · rename_i f hfailed
    simp [hfailed] at hsift
  · rename_i hfull
    obtain ⟨-, hle, haccepted⟩ | ⟨hused, -⟩ := hsift
    · exact ensures_pure ⟨_, rfl, haccepted, (decide_eq_true hle).symm⟩
    · rw [hfull] at hused
      cases hused
  · rename_i hused
    obtain ⟨hfull, -⟩ | ⟨-, hlt, hof, hcursor⟩ := hsift
    · rw [hused] at hfull
      cases hfull
    rw [hof, List.length_append, List.take_append, List.take_of_length_le (Nat.le_of_lt hlt)]
    split_ifs with hshort
    · -- a batch that is not full holds all that is left
      refine ensures_pure ⟨_, rfl, ?_⟩
      simp only [beyond_eq_nil hshort, List.filterMap_nil, List.take_nil, List.append_nil,
        List.length_nil, Nat.add_zero, true_and]
      exact (decide_eq_false (Nat.not_le.2 hlt)).symm
    · obtain ⟨r, hr⟩ := exists_last hshort
      rw [hr] at hcursor
      have hlater := remaining_sift_lt hused hshort
      refine Ensures.bind (ih _ hlater (by omega) _ rfl) ?_ (by rintro e ⟨w, ⟨⟩, -⟩)
      rintro rest ⟨w, hw, haccepted, hfull⟩
      cases hw
      simp only [hcursor, Option.map_some, Option.some_or, ofType_last hs.shelved hr]
        at haccepted hfull
      refine ensures_pure ⟨_, rfl, by rw [haccepted], ?_⟩
      rw [hfull]
      exact decide_eq_decide.2 (by omega)

/-! ### Several types -/

/-- **A walk accepts the first records of the listing, as many as there is room for.** -/
theorem ensures_walk (hs : src.Serves I rs) (index : Nat) (ts : List RecordType) {room : Nat}
    (hroom : 0 < room) (after : Option Cursor) :
    Ensures I (p.walk src index ts room after) fun x =>
      ∃ w, x = .ok w ∧ w.accepted = (p.listing rs index ts after).take room := by
  induction ts generalizing index room after with
  | nil => exact ensures_pure ⟨_, rfl, by simp [listing]⟩
  | cons t ts ih =>
    rw [walk]
    refine Ensures.bind (ensures_walkType hs t hroom after) ?_ (by rintro e ⟨w, ⟨⟩, -⟩)
    rintro here ⟨w, hw, haccepted, hfull⟩
    cases hw
    split_ifs with hf
    · have hle : room ≤ (p.ofType rs t after).length := by simpa [hfull] using hf
      refine ensures_pure ⟨_, rfl, ?_⟩
      rw [haccepted, listing, List.take_append_of_le_length (by simpa using hle), List.map_take]
    · have hlt : (p.ofType rs t after).length < room := by
        simpa [hfull] using hf
      simp only [haccepted, List.take_of_length_le (Nat.le_of_lt hlt), List.length_map]
      refine Ensures.bind (ih (index + 1) (by omega) none) ?_ (by rintro e ⟨w, ⟨⟩, -⟩)
      rintro rest ⟨w, hw, hrest⟩
      cases hw
      have hle : ((p.ofType rs t after).map fun r => (index, r)).length ≤ room := by
        rw [List.length_map]
        exact Nat.le_of_lt hlt
      refine ensures_pure ⟨_, rfl, ?_⟩
      rw [hrest, listing, List.take_append, List.take_of_length_le hle, List.length_map]

end Pass

end Harvest
