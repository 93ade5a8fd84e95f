import Harvest.Proofs.Listing.Progress

/-!
# Listings end

The walk of a listing is a loop that only the answers of the source can stop: a full batch is
followed by another scan of the same type, a short one by a scan of the next type (`Pass.turn`).
Whatever the answers are, **the loop cannot go on for ever** (`Pass.not_endless`).  The cursor of a
scan that repeats a type is later than the one before, as every record of a full batch was found to
be (`Pass.goesOn_of_turn`), and there are only so many cursors behind it (`Stand.left`).

Every listing runs this loop, for any source, any settings and any options
(`Repository.find_ends`), so that its scans can be counted beforehand.
-/

namespace Harvest

/-- Where a walk is before a scan: the types that are left, the first of which is scanned next, the
cursor behind which it is scanned, and the room that is left. -/
structure Stand where
  types : List RecordType
  after : Option Cursor
  room : Nat

namespace Stand

/-- From one place to the next: to a later cursor of the same type, or to the start of the next
type. -/
def GoesOn (x y : Stand) : Prop :=
  (y.types = x.types ∧ ∃ c, y.after = some c ∧ c.Follows x.after) ∨
    y.types = x.types.tail ∧ y.after = none

/-- How many scans are left at most. -/
def left (x : Stand) : Nat :=
  match x.types with
  | [] => 0
  | _ :: ts => ts.length * (Cursor.ranks + 1) + (Cursor.remaining x.after + 1)

theorem left_cons (t : RecordType) (ts : List RecordType) (after : Option Cursor) (room : Nat) :
    left ⟨t :: ts, after, room⟩ =
      ts.length * (Cursor.ranks + 1) + (Cursor.remaining after + 1) := rfl

theorem left_le (x : Stand) : x.left ≤ x.types.length * (Cursor.ranks + 1) := by
  obtain ⟨_ | ⟨t, ts⟩, after, room⟩ := x
  · exact Nat.zero_le _
  · have hle : Cursor.remaining after ≤ Cursor.ranks := by
      cases after with
      | none => exact Nat.le_refl _
      | some c =>
        rw [Cursor.remaining]
        omega
    rw [left_cons, List.length_cons, Nat.succ_mul]
    omega

/-- **Every scan uses up one that was left.** -/
theorem GoesOn.left_lt {x y : Stand} (h : x.GoesOn y) (hx : x.types ≠ []) : y.left < x.left := by
  obtain ⟨_ | ⟨t, ts⟩, after, room⟩ := x
  · exact absurd rfl hx
  obtain ⟨types, after', room'⟩ := y
  rw [left_cons]
  obtain ⟨rfl, c, rfl, hfollows⟩ | ⟨rfl, rfl⟩ := h
  · have hlt : Cursor.remaining (some c) < Cursor.remaining after := Cursor.remaining_lt hfollows
    rw [left_cons]
    omega
  · exact Nat.lt_of_le_of_lt (left_le _) (Nat.lt_add_of_pos_right (Nat.succ_pos _))

end Stand

namespace Pass

variable {p : Pass} {x y : Stand} {answer : Except Fault (List Record)} {scans : List Exchange}

/-! ### The loop -/

/-- Where an answer takes a walk, if it goes on.  It ends with a fault, with records that are out of
order, and when there is no more room. -/
def turn (p : Pass) (x : Stand) (answer : Except Fault (List Record)) : Option Stand :=
  match x.types, answer with
  | t :: ts, .ok batch =>
    let sift := p.sift x.room x.after batch
    let room := x.room - sift.accepted.length
    match sift.ending with
    | .used => some (if batch.length < p.batchSize then ⟨ts, none, room⟩
        else ⟨t :: ts, sift.after, room⟩)
    | .full | .failed _ => none
  | _, _ => none

/-- The loop, from a place on: while there are types, the first one is scanned, and the answer says
where to go on, or that it is the last one. -/
inductive Loop (p : Pass) : Stand → List Exchange → Prop
  /-- No types are left. -/
  | finished {after room} : Loop p ⟨[], after, room⟩ []
  /-- The answer ends the loop. -/
  | ends {t ts after room answer} (h : p.turn ⟨t :: ts, after, room⟩ answer = none) :
      Loop p ⟨t :: ts, after, room⟩ [⟨p.query t after, answer⟩]
  /-- The answer takes the loop on. -/
  | further {t ts after room answer y scans} (h : p.turn ⟨t :: ts, after, room⟩ answer = some y)
      (hrest : Loop p y scans) :
      Loop p ⟨t :: ts, after, room⟩ (⟨p.query t after, answer⟩ :: scans)

/-- What an answer that takes a walk on is. -/
theorem of_turn (h : p.turn x answer = some y) : ∃ t ts batch, x.types = t :: ts ∧
    answer = .ok batch ∧ (p.sift x.room x.after batch).ending = .used ∧
    y = if batch.length < p.batchSize then
      ⟨ts, none, x.room - (p.sift x.room x.after batch).accepted.length⟩ else
      ⟨t :: ts, (p.sift x.room x.after batch).after,
        x.room - (p.sift x.room x.after batch).accepted.length⟩ := by
  unfold turn at h
  split at h
  · rename_i t ts batch htypes
    simp only at h
    split at h
    · rename_i hused
      exact ⟨t, ts, batch, htypes, rfl, hused, (Option.some.inj h).symm⟩
    · cases h
    · cases h
  · cases h

/-- **A walk goes on to a later cursor or to the next type**, whatever the answer is. -/
theorem goesOn_of_turn (h : p.turn x answer = some y) : x.types ≠ [] ∧ x.GoesOn y := by
  obtain ⟨t, ts, batch, htypes, -, hused, rfl⟩ := of_turn h
  refine ⟨by rw [htypes]; exact List.cons_ne_nil _ _, ?_⟩
  split_ifs with hshort
  · exact .inr ⟨by rw [htypes, List.tail_cons], rfl⟩
  · -- a full batch is not empty
    have hne : batch ≠ [] := by
      rintro rfl
      exact hshort p.batchSize_pos
    exact .inl ⟨htypes.symm, Cursor.remaining_lt_iff.1 (remaining_sift_lt_of_ne_nil hused hne)⟩

/-- **There is no endless loop**, for any sequence of answers. -/
theorem not_endless (p : Pass) (answers : Nat → Except Fault (List Record)) (stands : Nat → Stand) :
    ¬ ∀ n, p.turn (stands n) (answers n) = some (stands (n + 1)) := by
  intro h
  have hfewer : ∀ n, (stands n).left + n ≤ (stands 0).left := by
    intro n
    induction n with
    | zero => exact Nat.le_refl _
    | succ n ih =>
      obtain ⟨hne, hgoes⟩ := goesOn_of_turn (h n)
      have hlt := hgoes.left_lt hne
      omega
  have hall := hfewer ((stands 0).left + 1)
  omega

/-- A loop is over after the scans that are left at most. -/
theorem Loop.length_le (h : p.Loop x scans) : scans.length ≤ x.left := by
  induction h with
  | finished => exact Nat.zero_le _
  | ends _ =>
    rw [List.length_singleton, Stand.left_cons]
    omega
  | further h _ ih =>
    obtain ⟨hne, hgoes⟩ := goesOn_of_turn h
    have hlt := hgoes.left_lt hne
    rw [List.length_cons]
    omega

theorem Loop.query_eq {e : Exchange} (h : p.Loop x (e :: scans)) :
    ∃ t, x.types.head? = some t ∧ e.query = p.query t x.after := by
  cases h with
  | ends _ | further _ _ => exact ⟨_, rfl, rfl⟩

end Pass

/-- A scan repeats the one before: it is for the same type and behind a later cursor. -/
def Exchange.Repeats (e e' : Exchange) : Prop :=
  e'.query.recordType = e.query.recordType ∧
    ∃ c, e'.query.after = some c ∧ c.Follows e.query.after

namespace Pass

variable {p : Pass} {x : Stand} {t : RecordType} {ts : List RecordType} {room index : Nat}
  {after : Option Cursor} {scans : List Exchange}

/-- A scan repeats the one before, or is the first one of its type. -/
theorem Loop.isChain (h : p.Loop x scans) :
    scans.IsChain fun e e' => e.Repeats e' ∨ e'.query.after = none := by
  induction h with
  | finished => exact .nil
  | ends _ => exact .singleton _
  | @further t ts after room answer y scans h hrest ih =>
    cases scans with
    | nil => exact .singleton _
    | cons e scans =>
      refine List.isChain_cons_cons.2 ⟨?_, ih⟩
      obtain ⟨t', ht', hquery⟩ := hrest.query_eq
      obtain ⟨-, ⟨htypes, c, hc, hfollows⟩ | ⟨-, hnone⟩⟩ := goesOn_of_turn h
      · obtain rfl : t = t' := by simpa [htypes] using ht'
        exact .inl ⟨by rw [hquery]; rfl, c, by rw [hquery, ← hc]; rfl, hfollows⟩
      · exact .inr (by rw [hquery, ← hnone]; rfl)

/-! ### Walks are loops -/

/-- A walk through a type is the loop up to its end, or up to the next type. -/
theorem TypeRun.loop {w : Except Fault TypeWalk} (h : p.TypeRun t room after scans w)
    {rest : List Exchange} (hrest : ∀ here, w = .ok here → here.full = false →
      p.Loop ⟨ts, none, room - here.accepted.length⟩ rest)
    (hends : (∀ here, w = .ok here → here.full = true) → rest = []) :
    p.Loop ⟨t :: ts, after, room⟩ (scans ++ rest) := by
  induction h with
  | refused f =>
    rw [hends nofun]
    exact .ends rfl
  | failed h =>
    rw [hends nofun]
    exact .ends (by simp [turn, h])
  | full h =>
    rw [hends fun here hhere => by cases hhere; rfl]
    exact .ends (by simp [turn, h])
  | last h hshort => exact .further (by simp [turn, h, hshort]) (hrest _ rfl rfl)
  | @more room after batch scans w h hlong _ ih =>
    refine .further (by simp [turn, h, hlong]) (ih (fun here hhere hopen => ?_) fun hfull => ?_)
    · have hthere := hrest ⟨(p.sift room after batch).accepted ++ here.accepted,
        batch.length + here.scanned, here.full⟩ (by rw [hhere]; rfl) hopen
      rwa [List.length_append, ← Nat.sub_sub] at hthere
    · refine hends fun here hhere => ?_
      obtain ⟨there, hthere, rfl⟩ := map_eq_ok_iff.1 hhere
      exact hfull there hthere

/-- **A walk is the loop from its start.** -/
theorem WalkRun.loop {w : Except Fault Walk} (h : p.WalkRun index ts room after scans w) :
    p.Loop ⟨ts, after, room⟩ scans := by
  induction h with
  | done => exact .finished
  | @failed index t ts room after scans f h =>
    rw [← List.append_nil scans]
    exact h.loop nofun fun _ => rfl
  | @full index t ts room after scans here h hfull =>
    rw [← List.append_nil scans]
    refine h.loop (fun there hthere hopen => ?_) fun _ => rfl
    cases hthere
    rw [hfull] at hopen
    cases hopen
  | next h hopen _ ih =>
    refine h.loop (fun here hhere _ => ?_) fun hfull => ?_
    · cases hhere
      exact ih
    · rw [hfull _ rfl] at hopen
      cases hopen

end Pass

/-- Where the walk of a plan starts. -/
def Plan.firstStand (p : Plan) : Stand :=
  ⟨p.options.recordTypes.drop p.firstPlace, p.firstAfter, p.options.pageSize + 1⟩

namespace Repository

variable {σ : Type}

/-- **Listings end over any source.**  A batch has room for a record, whatever the size of a page.
So an answer takes the loop on to a later cursor of the same type or to the next type, and no
sequence of answers takes it on for ever.  The scans of a listing are those of the loop, with
answers of the source, from the start of its plan on: a scan that does not start a type repeats the
one before behind a later cursor, and there are at most as many as there are cursors and types.
What cannot be planned takes no scans. -/
theorem find_ends (r : Repository) (src : Source σ) :
    (∀ pageSize, 1 ≤ r.settings.batchSizeFor pageSize) ∧
    (∀ (p : Pass) x answer y, p.turn x answer = some y → x.GoesOn y) ∧
    (∀ (p : Pass) (answers : Nat → Except Fault (List Record)) (stands : Nat → Stand),
      ¬ ∀ n, p.turn (stands n) (answers n) = some (stands (n + 1))) ∧
    ∀ q s, (∀ f, r.planned q = .error f → r.scans src q s = []) ∧
      ∀ p, r.planned q = .ok p →
        (r.pass p).Loop p.firstStand (r.scans src q s) ∧
        (∀ e ∈ r.scans src q s, ∃ s', e.answer = (src.scan e.query s').1) ∧
        (r.scans src q s).IsChain (fun e e' => e.Repeats e' ∨ e'.query.after = none) ∧
        (r.scans src q s).length ≤
          (p.options.recordTypes.length - p.firstPlace) * (Cursor.ranks + 1) := by
  refine ⟨r.settings.batchSizeFor_pos, fun p x answer y h => (Pass.goesOn_of_turn h).2,
    Pass.not_endless, fun q s => ⟨fun f hf => ?_, fun p hp => ?_⟩⟩
  · obtain ⟨-, -, hnone, -⟩ | ⟨p, -, hp, -⟩ :=
      run_of_find (rfl : ((r.find src q).run s).result = _)
    · exact hnone
    · rw [hf] at hp
      cases hp
  · obtain ⟨f, hf, -⟩ | ⟨p', w, hp', hrun, -⟩ :=
      run_of_find (rfl : ((r.find src q).run s).result = _)
    · rw [hp] at hf
      cases hf
    · obtain rfl : p = p' := Except.ok.inj (hp.symm.trans hp')
      have hloop : (r.pass p).Loop p.firstStand (r.scans src q s) := hrun.loop
      refine ⟨hloop, ?_, hloop.isChain, ?_⟩
      · exact r.answers_of_scans (I := fun _ => True)
          (A := fun q answer => ∃ s', answer = (src.scan q s').1)
          (fun q s _ => ⟨⟨s, rfl⟩, trivial⟩) trivial
      · have hle := hloop.length_le.trans (Stand.left_le _)
        rwa [Plan.firstStand, List.length_drop] at hle

/-! ### A source that repeats itself -/

/-- A record that is not published. -/
def unpublishedLeaf : Record :=
  { Record.plain .resource 1 2 "HOU" (Store.sampleTime 10) with publish := false }

/-- A source that answers every scan with this record. -/
def stubborn : Source Unit where
  scan _ _ := (.ok [unpublishedLeaf], ())
  get _ _ := (.ok none, ())
  earliest _ := (.ok none, ())

/-- A repository that leaves out hidden records, and whose pages have no room. -/
def roomless : Repository :=
  (Repository.mk {} .standard plainWords).sized "oai_dc" ⟨0, 0⟩

/-- Batches of one record are full and nothing of them is accepted, so the type is scanned again,
behind the record; the same answer then ends the listing. -/
theorem find_ends_stubborn :
    roomless.planned (.fresh "oai_dc") = .ok (singlesPlan.sized ⟨0, 0⟩) ∧
    ∃ e e', roomless.scans stubborn (.fresh "oai_dc") () = [e, e'] ∧ e.Repeats e' := by
  have hplan : roomless.planned (.fresh "oai_dc") = .ok (singlesPlan.sized ⟨0, 0⟩) := rfl
  obtain ⟨-, -, -, hfind⟩ := find_ends roomless stubborn
  obtain ⟨hstart, hanswers, -, -⟩ := (hfind (.fresh "oai_dc") ()).2 _ hplan
  generalize roomless.scans stubborn (.fresh "oai_dc") () = scans at hstart hanswers
  have hsame : ∀ e ∈ scans, e.answer = .ok [unpublishedLeaf] := fun e he =>
    (hanswers e he).choose_spec
  have hloop : (roomless.pass (singlesPlan.sized ⟨0, 0⟩)).Loop
      ⟨[.resource, .archivalObject], none, 1⟩ scans := hstart
  refine ⟨hplan, ?_⟩
  cases hloop with
  | ends h =>
    obtain rfl := hsame _ List.mem_cons_self
    cases h
  | further h hrest =>
    obtain rfl := hsame _ List.mem_cons_self
    cases h
    cases hrest with
    | ends _ => exact ⟨_, _, rfl, rfl, _, rfl, by rintro a ⟨⟩⟩
    | further h _ =>
      obtain rfl := hsame _ (List.mem_cons_of_mem _ List.mem_cons_self)
      cases h

end Repository

end Harvest
