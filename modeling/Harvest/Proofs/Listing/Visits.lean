import Harvest.Proofs.Listing.Contract

/-!
# What a listing scans

The scans of a listing are *visits*: scans of one type after another, from the type where the
listing starts.  Over a source that keeps its contract, what a visit fetches is **the beginning of
what there is to fetch of its type**, behind the cursor of the start if the type is the first one
and from the beginning else (`Pass.Visited`).  Only the last visit may leave something, and only for
want of room.

So a listing skips nothing and fetches nothing twice.  It takes one scan for each visit and one for
each full batch, at most, and none behind a full page (`Repository.scans_leave_no_gap`).
-/

namespace Harvest

/-- The records of an answer. -/
def Exchange.fetched (e : Exchange) : List Record :=
  match e.answer with
  | .ok batch => batch
  | .error _ => []

/-- Scans of one type, behind a cursor. -/
structure Visit where
  recordType : RecordType
  after : Option Cursor
  scans : List Exchange

/-- The records that a visit fetches. -/
def Visit.fetched (v : Visit) : List Record := v.scans.flatMap Exchange.fetched

namespace Pass

variable {p : Pass} {t : RecordType} {ts : List RecordType} {room index : Nat}
  {after : Option Cursor} {scans : List Exchange} {rs : List Record}

/-! ### One type -/

theorem batch_begins (p : Pass) (rs : List Record) (t : RecordType) (after : Option Cursor) :
    p.batch rs t after <+: rs.filter (p.query t after).admits :=
  List.take_prefix _ _

section TypeRun

variable {x : Except Fault TypeWalk} (h : p.TypeRun t room after scans x)

include h

theorem TypeRun.ne_nil : scans ≠ [] := by
  cases h <;> exact List.cons_ne_nil _ _

theorem TypeRun.exists_query {e : Exchange} (he : e ∈ scans) : ∃ c, e.query = p.query t c := by
  induction h with
  | refused _ | failed _ | full _ | last _ _ =>
    cases List.mem_singleton.1 he
    exact ⟨_, rfl⟩
  | more _ _ _ ih =>
    rcases List.mem_cons.1 he with rfl | he
    · exact ⟨_, rfl⟩
    · exact ih he

/-- All batches of a walk through a type but the last one are full. -/
theorem TypeRun.length_mul_le :
    scans.length * p.batchSize ≤ (scans.flatMap Exchange.fetched).length + p.batchSize := by
  induction h with
  | refused _ | failed _ | full _ | last _ _ => simp
  | @more room after batch scans x _ hlong _ ih =>
    have hfetched : Exchange.fetched ⟨p.query t after, .ok batch⟩ = batch := rfl
    rw [List.length_cons, Nat.succ_mul, List.flatMap_cons, hfetched, List.length_append]
    omega

theorem TypeRun.length_listed_lt (hroom : 0 < room) :
    (scans.dropLast.flatMap (Exchange.listed p)).length < room := by
  induction h with
  | refused _ | failed _ | full _ | last _ _ => simpa using hroom
  | @more room after batch scans x h _ hrest ih =>
    obtain ⟨hlt, haccepted⟩ := accepted_of_used hroom h
    rw [haccepted] at ih
    have hlisted : Exchange.listed p ⟨p.query t after, .ok batch⟩ = batch.filterMap p.listed? := rfl
    have hlater := ih (by omega)
    rw [List.dropLast_cons_of_ne_nil hrest.ne_nil, List.flatMap_cons, hlisted, List.length_append]
    omega

/-- **A walk through a type fetches the beginning of what there is**, and all of it if there is room
left in the end. -/
theorem TypeRun.fetched_begins (hrs : Shelved rs) (hroom : 0 < room)
    (hanswers : ∀ e ∈ scans, e.answer = .ok ((rs.filter e.query.admits).take e.query.limit)) :
    scans.flatMap Exchange.fetched <+: rs.filter (p.query t after).admits ∧
      ∀ w, x = .ok w → w.full = false →
        scans.flatMap Exchange.fetched = rs.filter (p.query t after).admits := by
  induction h with
  | refused f => cases hanswers _ (List.mem_singleton_self _)
  | @failed room after batch f _ =>
    obtain rfl : batch = p.batch rs t after :=
      Except.ok.inj (hanswers _ (List.mem_singleton_self _))
    rw [List.flatMap_singleton]
    exact ⟨p.batch_begins rs t after, nofun⟩
  | @full room after batch _ =>
    obtain rfl : batch = p.batch rs t after :=
      Except.ok.inj (hanswers _ (List.mem_singleton_self _))
    rw [List.flatMap_singleton]
    refine ⟨p.batch_begins rs t after, fun w hw hopen => ?_⟩
    cases hw
    cases hopen
  | @last room after batch _ hshort =>
    obtain rfl : batch = p.batch rs t after :=
      Except.ok.inj (hanswers _ (List.mem_singleton_self _))
    have hall : p.batch rs t after = rs.filter (p.query t after).admits := by
      conv_rhs => rw [← List.take_append_drop p.batchSize (rs.filter _)]
      exact (List.append_nil _).symm.trans (congrArg _ (beyond_eq_nil hshort).symm)
    rw [List.flatMap_singleton]
    exact ⟨p.batch_begins rs t after, fun _ _ _ => hall⟩
  | @more room after batch scans x h hlong _ ih =>
    obtain ⟨hbatch, hothers⟩ := List.forall_mem_cons.1 hanswers
    obtain rfl : batch = p.batch rs t after := Except.ok.inj hbatch
    obtain ⟨hlt, haccepted⟩ := accepted_of_used hroom h
    -- the next batch is asked for behind the last record of this one
    obtain ⟨r, hr⟩ := exists_last hlong
    have hafter : (p.sift room after (p.batch rs t after)).after = some r.cursor := by
      obtain ⟨f, hf, -⟩ | ⟨hfull, -⟩ | ⟨-, -, -, hcursor⟩ :=
        sift_cases p hroom after (p.batch rs t after)
      · cases h.symm.trans hf
      · cases h.symm.trans hfull
      · rw [hcursor, hr]
        rfl
    obtain ⟨hbegins, hall⟩ := ih (by rw [haccepted]; omega) hothers
    rw [hafter, filter_last hrs hr] at hbegins hall
    have hwhole : rs.filter (p.query t after).admits = p.batch rs t after ++ p.beyond rs t after :=
      (List.take_append_drop _ _).symm
    have hfetched : Exchange.fetched ⟨p.query t after, .ok (p.batch rs t after)⟩ =
      p.batch rs t after := rfl
    rw [List.flatMap_cons, hfetched, hwhole]
    refine ⟨(List.prefix_append_right_inj _).2 hbegins, fun w hw hopen => ?_⟩
    obtain ⟨rest, hrest, rfl⟩ := map_eq_ok_iff.1 hw
    rw [hall rest hrest hopen]

end TypeRun

/-! ### Several types -/

theorem WalkRun.length_listed_lt {x : Except Fault Walk}
    (h : p.WalkRun index ts room after scans x) (hroom : 0 < room) :
    (scans.dropLast.flatMap (Exchange.listed p)).length < room := by
  induction h with
  | done => exact hroom
  | failed h | full h _ => exact h.length_listed_lt hroom
  | @next index t ts room after scans here rest x h hopen _ ih =>
    have hlast := h.length_listed_lt hroom
    obtain ⟨haccepted, hfull⟩ := h.accepted_eq hroom rfl
    rw [hopen] at hfull
    have hlt := Nat.lt_of_not_le fun hle => Bool.false_ne_true (hfull.2 hle)
    rw [List.take_of_length_le (Nat.le_of_lt hlt)] at haccepted
    rw [haccepted] at ih
    by_cases hrest : rest = []
    · rw [hrest, List.append_nil]
      exact hlast
    · rw [List.dropLast_append_of_ne_nil hrest, List.flatMap_append, List.length_append]
      have hlater := ih (by omega)
      omega

theorem WalkRun.records_eq {x : Except Fault Walk} (h : p.WalkRun index ts room after scans x)
    (hroom : 0 < room) {w : Walk} (hw : x = .ok w) :
    w.accepted.map Prod.snd = (scans.flatMap (Exchange.listed p)).take room := by
  induction h generalizing w with
  | done =>
    cases hw
    exact List.take_nil.symm
  | failed _ => cases hw
  | full h _ =>
    cases hw
    rw [List.map_map, ← (h.accepted_eq hroom rfl).1]
    exact List.map_id _
  | @next index t ts room after scans here rest x h hopen _ ih =>
    obtain ⟨w, rfl, rfl⟩ := map_eq_ok_iff.1 hw
    obtain ⟨haccepted, hfull⟩ := h.accepted_eq hroom rfl
    rw [hopen] at hfull
    have hlt := Nat.lt_of_not_le fun hle => Bool.false_ne_true (hfull.2 hle)
    rw [List.take_of_length_le (Nat.le_of_lt hlt)] at haccepted
    rw [haccepted] at ih
    rw [List.flatMap_append, List.take_append, List.take_of_length_le (Nat.le_of_lt hlt),
      ← ih (by omega) rfl, ← haccepted, List.map_append, List.map_map]
    exact congrArg (· ++ _) (List.map_id _)

/-- The scans of a walk are visits of types, one after another. -/
structure Visited (p : Pass) (matching : RecordType → Option Cursor → List Record)
    (ts : List RecordType) (after : Option Cursor) (scans : List Exchange) (visits : List Visit) :
    Prop where
  /-- There are no other scans. -/
  scans_eq : visits.flatMap Visit.scans = scans
  /-- The types are visited in order. -/
  types : visits.map Visit.recordType <+: ts
  /-- The first visit starts behind the cursor of the walk. -/
  first : ∀ v, visits.head? = some v → v.after = after
  /-- The others start from the beginning. -/
  others : ∀ v ∈ visits.tail, v.after = none
  /-- A visit begins behind its cursor. -/
  begins : ∀ v ∈ visits, v.scans.head?.map Exchange.query = some (p.query v.recordType v.after)
  /-- All scans of a visit are for its type, and are answered. -/
  asked : ∀ v ∈ visits, ∀ e ∈ v.scans,
    (∃ c, e.query = p.query v.recordType c) ∧ ∃ batch, e.answer = .ok batch
  /-- What is fetched is the beginning of what there is to fetch. -/
  segment : ∀ v ∈ visits, v.fetched <+: matching v.recordType v.after
  /-- A visit that is followed by another one leaves nothing. -/
  exhausted : ∀ v ∈ visits.dropLast, v.fetched = matching v.recordType v.after
  /-- All scans of a visit but the last one fetch full batches. -/
  few : ∀ v ∈ visits, v.scans.length * p.batchSize ≤ v.fetched.length + p.batchSize

section Visited

variable {matching : RecordType → Option Cursor → List Record} {visits : List Visit}

theorem visited_nil : p.Visited matching ts after [] [] where
  scans_eq := rfl
  types := List.nil_prefix
  first := by simp
  others := by simp
  begins := by simp
  asked := by simp
  segment := by simp
  exhausted := by simp
  few := by simp

theorem Visited.cons {rest : List Exchange} {x : Except Fault TypeWalk}
    (h : p.Visited matching ts none rest visits) (hrun : p.TypeRun t room after scans x)
    (hanswers : ∀ e ∈ scans, ∃ batch, e.answer = .ok batch)
    (hbegins : scans.flatMap Exchange.fetched <+: matching t after)
    (hall : visits ≠ [] → scans.flatMap Exchange.fetched = matching t after) :
    p.Visited matching (t :: ts) after (scans ++ rest) (⟨t, after, scans⟩ :: visits) where
  scans_eq := by rw [List.flatMap_cons, h.scans_eq]
  types := List.cons_prefix_cons.2 ⟨rfl, h.types⟩
  first := by
    rintro v ⟨⟩
    rfl
  others := by
    cases visits with
    | nil => simp
    | cons v visits => exact List.forall_mem_cons.2 ⟨h.first v rfl, h.others⟩
  begins := by
    refine List.forall_mem_cons.2 ⟨?_, h.begins⟩
    cases hrun <;> rfl
  asked := List.forall_mem_cons.2
    ⟨fun e he => ⟨hrun.exists_query he, hanswers e he⟩, h.asked⟩
  segment := List.forall_mem_cons.2 ⟨hbegins, h.segment⟩
  exhausted := by
    cases visits with
    | nil => simp
    | cons v visits => exact List.forall_mem_cons.2 ⟨hall (List.cons_ne_nil _ _), h.exhausted⟩
  few := List.forall_mem_cons.2 ⟨hrun.length_mul_le, h.few⟩

theorem Visited.single {x : Except Fault TypeWalk} (hrun : p.TypeRun t room after scans x)
    (hanswers : ∀ e ∈ scans, ∃ batch, e.answer = .ok batch)
    (hbegins : scans.flatMap Exchange.fetched <+: matching t after) :
    p.Visited matching (t :: ts) after scans [⟨t, after, scans⟩] := by
  have hnone : p.Visited matching ts none [] [] := visited_nil
  have hvisit := hnone.cons hrun hanswers hbegins (absurd rfl)
  rwa [List.append_nil] at hvisit

/-- There is at most one scan for each visit and one for each full batch. -/
theorem Visited.length_le (h : p.Visited matching ts after scans visits) :
    scans.length ≤ visits.length + (visits.flatMap Visit.fetched).length / p.batchSize := by
  have hmul : ∀ vs : List Visit,
      (∀ v ∈ vs, v.scans.length * p.batchSize ≤ v.fetched.length + p.batchSize) →
      (vs.flatMap Visit.scans).length * p.batchSize ≤
        (vs.flatMap Visit.fetched).length + vs.length * p.batchSize := by
    intro vs hvs
    induction vs with
    | nil => simp
    | cons v vs ih =>
      obtain ⟨hv, hvs⟩ := List.forall_mem_cons.1 hvs
      have hrest := ih hvs
      simp only [List.flatMap_cons, List.length_append, List.length_cons, Nat.add_mul,
        Nat.one_mul]
      omega
  have hle := hmul visits h.few
  rw [h.scans_eq, ← Nat.le_div_iff_mul_le p.batchSize_pos,
    Nat.add_mul_div_right _ _ p.batchSize_pos] at hle
  omega

end Visited

/-- **A walk visits its types in order**, and all of them to their ends if there is room left. -/
theorem WalkRun.visited {x : Except Fault Walk} (h : p.WalkRun index ts room after scans x)
    (hrs : Shelved rs) (hroom : 0 < room)
    (hanswers : ∀ e ∈ scans, e.answer = .ok ((rs.filter e.query.admits).take e.query.limit)) :
    ∃ visits, p.Visited (fun t c => rs.filter (p.query t c).admits) ts after scans visits ∧
      ∀ w, x = .ok w → w.accepted.length < room → visits.map Visit.recordType = ts ∧
        ∀ v ∈ visits, v.fetched = rs.filter (p.query v.recordType v.after).admits := by
  induction h with
  | done => exact ⟨[], visited_nil, fun w _ _ => ⟨rfl, by simp⟩⟩
  | @failed index t ts room after scans f h =>
    obtain ⟨hbegins, -⟩ := h.fetched_begins hrs hroom hanswers
    exact ⟨_, .single h (fun e he => ⟨_, hanswers e he⟩) hbegins, nofun⟩
  | @full index t ts room after scans here h hfull =>
    obtain ⟨hbegins, -⟩ := h.fetched_begins hrs hroom hanswers
    refine ⟨_, .single h (fun e he => ⟨_, hanswers e he⟩) hbegins, fun w hw hlt => ?_⟩
    -- there is no room left
    obtain ⟨haccepted, hiff⟩ := h.accepted_eq hroom rfl
    have hle := hiff.1 hfull
    cases hw
    rw [List.length_map, haccepted, List.length_take] at hlt
    omega
  | @next index t ts room after scans here rest x h hopen _ ih =>
    obtain ⟨hbegins, hall⟩ := h.fetched_begins hrs hroom fun e he =>
      hanswers e (List.mem_append_left _ he)
    obtain ⟨haccepted, hiff⟩ := h.accepted_eq hroom rfl
    rw [hopen] at hiff
    have hlt := Nat.lt_of_not_le fun hle => Bool.false_ne_true (hiff.2 hle)
    have hlen : here.accepted.length < room := by
      rw [haccepted, List.length_take]
      omega
    obtain ⟨visits, hvisits, hends⟩ := ih (by omega) fun e he =>
      hanswers e (List.mem_append_right _ he)
    refine ⟨_, hvisits.cons h (fun e he => ⟨_, hanswers e (List.mem_append_left _ he)⟩) hbegins
      fun _ => hall here rfl hopen, fun w hw hw' => ?_⟩
    obtain ⟨w, hrest, rfl⟩ := map_eq_ok_iff.1 hw
    rw [List.length_append, List.length_map] at hw'
    obtain ⟨htypes, hothers⟩ := hends w hrest (by omega)
    exact ⟨congrArg (t :: ·) htypes, List.forall_mem_cons.2 ⟨hall here rfl hopen, hothers⟩⟩

end Pass

/-! ### Listings -/

namespace Repository

variable {σ : Type} {src : Source σ} {I : σ → Prop} {r : Repository} {q : ListRequest} {p : Plan}
  {s : σ} {rs : List Record}

/-- What there is to fetch of a type behind a cursor: its records in order, as far as the plan
covers them. -/
def matching (r : Repository) (p : Plan) (rs : List Record) (t : RecordType)
    (after : Option Cursor) : List Record :=
  ((Scope.sorted rs t).filter (r.scope p).covers).filter fun x => after.all (· < x.cursor)

theorem mem_matching {t : RecordType} {after : Option Cursor} {x : Record}
    (hx : x ∈ r.matching p rs t after) : x ∈ rs ∧ x.recordType = t := by
  have hsorted := (List.mem_filter.1 (List.mem_filter.1 hx).1).1
  simpa [Scope.sorted] using hsorted

theorem filter_shelf_eq_matching (h : rs.Pairwise fun a b => a.place ≠ b.place) (t : RecordType)
    (after : Option Cursor) :
    (shelf rs).filter ((r.pass p).query t after).admits = r.matching p rs t after := by
  rw [matching, ← Scope.sorted_shelf h, Scope.sorted_eq (shelved_shelf h), List.filter_filter,
    List.filter_filter]
  refine List.filter_congr fun x _ => ?_
  have hafter : ((r.pass p).query t after).admits x =
      (after.all (· < x.cursor) && ((r.pass p).query t none).admits x) := by
    simp only [ScanQuery.admits, Pass.query, Option.all_none, Bool.and_true]
    ac_rfl
  rw [hafter, admits_query_eq, Bool.and_comm (decide _), ← Bool.and_assoc]

theorem pairwise_matching (h : rs.Pairwise fun a b => a.place ≠ b.place) (t : RecordType)
    (after : Option Cursor) :
    (r.matching p rs t after).Pairwise fun a b => a.cursor < b.cursor := by
  rw [← filter_shelf_eq_matching h]
  exact Pass.pairwise_admitted (shelved_shelf h) t after

theorem pairwise_fetched {ts : List RecordType} {after : Option Cursor} {scans : List Exchange}
    {visits : List Visit} (h : rs.Pairwise fun a b => a.place ≠ b.place)
    (hvisits : (r.pass p).Visited (r.matching p rs) ts after scans visits) (hts : ts.Nodup) :
    (visits.flatMap Visit.fetched).Pairwise fun a b => a.place ≠ b.place := by
  have htype : ∀ v ∈ visits, ∀ x ∈ v.fetched, x.recordType = v.recordType := fun v hv x hx =>
    (mem_matching ((hvisits.segment v hv).subset hx)).2
  have hnodup : visits.Pairwise fun v w => v.recordType ≠ w.recordType :=
    List.pairwise_map.1 (hts.sublist hvisits.types.sublist)
  refine List.pairwise_flatMap.2 ⟨fun v hv => ?_, hnodup.imp_of_mem fun {v w} hv hw hne => ?_⟩
  · refine ((pairwise_matching h _ _).sublist (hvisits.segment v hv).sublist).imp ?_
    intro a b hab hplace
    have hcursor : a.cursor = b.cursor := congrArg Place.cursor hplace
    exact lt_irrefl _ (hcursor ▸ hab)
  · intro a ha b hb hplace
    refine hne ?_
    rw [← htype v hv a ha, ← htype w hw b hb]
    exact congrArg Place.recordType hplace

/-- **The scans of a listing leave no gap and do not overlap**, over any source that keeps its
contract.  They visit the types of the plan in order, from where the request starts on; each asks
for the window of the plan, without the repositories that take no part, and for a batch of the size
that the settings give.  What a visit fetches is the beginning of what there is to fetch, and all of
it unless the visit is the last one; if the types are different, nothing is fetched twice.  There is
at most one scan for each visit and one for each full batch.  No scan follows one that has made the
accepted records more than a page; and if they are no more than a page, every type has been visited
to its end.  The page holds the first records that were accepted. -/
theorem scans_leave_no_gap (hsrc : src.Keeps I rs) (hs : I s) (hp : r.planned q = .ok p) :
    r.start? q = p.start ∧ ∃ visits : List Visit,
      (r.pass p).Visited (r.matching p rs) (p.options.recordTypes.drop p.firstPlace) p.firstAfter
        (r.scans src q s) visits ∧
      (∀ e ∈ r.scans src q s, e.query.since = p.since ∧ e.query.upTo = p.upTo ∧
        e.query.excluded = excludedRepositories r.settings.repositories p.set ∧
        e.query.limit = r.settings.batchSizeFor p.options.pageSize) ∧
      (p.options.recordTypes.Nodup →
        (visits.flatMap Visit.fetched).Pairwise fun a b => a.place ≠ b.place) ∧
      (r.scans src q s).length ≤ visits.length +
        (visits.flatMap Visit.fetched).length / r.settings.batchSizeFor p.options.pageSize ∧
      (∀ before e rest, r.scans src q s = before ++ e :: rest →
        p.options.pageSize < ((before ++ [e]).flatMap (Exchange.listed (r.pass p))).length →
        rest = []) ∧
      (((r.scans src q s).flatMap (Exchange.listed (r.pass p))).length ≤ p.options.pageSize →
        visits.map Visit.recordType = p.options.recordTypes.drop p.firstPlace ∧
        ∀ v ∈ visits, v.fetched = r.matching p rs v.recordType v.after) ∧
      ∃ page, ((r.find src q).run s).result = .ok page ∧ page.records =
        ((r.scans src q s).flatMap (Exchange.listed (r.pass p))).take p.options.pageSize := by
  have hserves := hsrc.serves
  obtain ⟨f, hf, -⟩ | ⟨p', w, hp', hrun, hresult⟩ :=
    run_of_find (rfl : ((r.find src q).run s).result = _)
  · rw [hp] at hf
    cases hf
  obtain rfl : p = p' := Except.ok.inj (hp.symm.trans hp')
  have hfound : ((r.find src q).run s).result = .ok (r.pageOver (shelf rs) p) := by
    rw [(ensures_find hserves q s hs).1, hp]
    rfl
  obtain ⟨w, rfl, -⟩ := map_eq_ok_iff.1 (hresult.symm.trans hfound)
  have hanswers : ∀ e ∈ r.scans src q s,
      e.answer = .ok (((shelf rs).filter e.query.admits).take e.query.limit) :=
    r.answers_of_scans (A := fun q answer =>
      answer = .ok (((shelf rs).filter q.admits).take q.limit)) hserves.scan hs
  have hrecords := hrun.records_eq (Nat.succ_pos _) rfl
  have hmatching : (fun t c => (shelf rs).filter ((r.pass p).query t c).admits) =
      r.matching p rs := by
    funext t c
    exact filter_shelf_eq_matching hsrc.distinct t c
  obtain ⟨visits, hvisits, hends⟩ := hrun.visited hserves.shelved (Nat.succ_pos _) hanswers
  rw [hmatching] at hvisits
  refine ⟨(of_planned hp).1, visits, hvisits, fun e he => ?_, fun hnodup => ?_, hvisits.length_le,
    fun before e rest heq hlt => ?_, fun hle => ?_, _, hresult, ?_⟩
  · rw [← hvisits.scans_eq] at he
    obtain ⟨v, hv, he⟩ := List.mem_flatMap.1 he
    obtain ⟨⟨c, hc⟩, -⟩ := hvisits.asked v hv e he
    rw [hc]
    exact ⟨rfl, rfl, rfl, rfl⟩
  · exact pairwise_fetched hsrc.distinct hvisits (hnodup.sublist (List.drop_sublist _ _))
  · -- scans before the last one leave room
    by_contra hrest
    have hroom := hrun.length_listed_lt (Nat.succ_pos _)
    rw [heq, List.append_cons, List.dropLast_append_of_ne_nil hrest, List.flatMap_append,
      List.length_append] at hroom
    omega
  · have hlength := congrArg List.length hrecords
    rw [List.length_map, List.length_take] at hlength
    obtain ⟨htypes, hall⟩ := hends w rfl (by omega)
    exact ⟨htypes, fun v hv => (hall v hv).trans (filter_shelf_eq_matching hsrc.distinct _ _)⟩
  · rw [page_eq_take]
    simp only [List.map_take, hrecords, List.take_take, Nat.min_eq_left (Nat.le_succ _)]

/-! ### A listing by single records -/

/-- The small repository with pages of ten records and batches of one. -/
def singleBatches : Repository := sample.sized "oai_dc" ⟨10, 1⟩

/-- The small archive is scanned type by type and record by record, up to an empty batch of each
type. -/
theorem scans_leave_no_gap_sample : ∃ visits : List Visit,
    visits.flatMap Visit.scans =
      singleBatches.scans Store.source (.fresh "oai_dc") Store.sample ∧
    visits.map Visit.recordType = [.resource, .archivalObject] ∧
    (visits.flatMap Visit.fetched).map Record.uri =
      [Store.sampleCollection.uri, Store.sampleDrawer.uri, Store.sampleLetter.uri] ∧
    (singleBatches.scans Store.source (.fresh "oai_dc") Store.sample).length ≤ 5 := by
  have hplan : singleBatches.planned (.fresh "oai_dc") = .ok (singlesPlan.sized ⟨10, 1⟩) := rfl
  have hkeeps := (Store.serves Store.sample_reachable.wellFormed).keeps
  obtain ⟨-, visits, hvisits, -, -, hfew, -, hends, page, hpage, hrecords⟩ :=
    scans_leave_no_gap hkeeps rfl hplan
  -- the page has room for the three records that are listed
  have hfound := answer_of_planned Store.sample_reachable.wellFormed hplan
  obtain rfl : singleBatches.pageOver Store.sample.records (singlesPlan.sized ⟨10, 1⟩) = page :=
    Except.ok.inj (hfound.symm.trans hpage)
  have hlength := congrArg List.length hrecords
  rw [show (singleBatches.pageOver Store.sample.records _).records.length = 3 from rfl,
    List.length_take] at hlength
  have hsize : (singlesPlan.sized ⟨10, 1⟩).options.pageSize = 10 := rfl
  obtain ⟨htypes, hall⟩ := hends (by omega)
  have hdrop : (singlesPlan.sized ⟨10, 1⟩).options.recordTypes.drop
      (singlesPlan.sized ⟨10, 1⟩).firstPlace = [.resource, .archivalObject] := rfl
  rw [hdrop] at htypes
  obtain ⟨v, w, rfl⟩ : ∃ v w, visits = [v, w] := List.length_eq_two.1 (by
    simpa using congrArg List.length htypes)
  simp only [List.map_cons, List.map_nil, List.cons.injEq, and_true] at htypes
  obtain ⟨hv, hw⟩ := htypes
  have hfetched : (v.fetched ++ w.fetched).map Record.uri =
      [Store.sampleCollection.uri, Store.sampleDrawer.uri, Store.sampleLetter.uri] := by
    rw [hall v (by simp), hall w (by simp), hv, hw, hvisits.first v rfl,
      hvisits.others w (by simp), matching, matching,
      Scope.sorted_eq (Store.shelved_records Store.sample_reachable.wellFormed),
      Scope.sorted_eq (Store.shelved_records Store.sample_reachable.wellFormed)]
    decide +kernel
  have hthree : ([v, w].flatMap Visit.fetched).length = 3 := by
    simpa using congrArg List.length hfetched
  refine ⟨[v, w], hvisits.scans_eq, by rw [← hv, ← hw]; rfl, by simpa using hfetched, ?_⟩
  rw [hthree] at hfew
  exact hfew

end Repository

end Harvest
