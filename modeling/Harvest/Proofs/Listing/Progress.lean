import Harvest.Proofs.Listing.Harvest
import Harvest.Proofs.Listing.Transcript
import Mathlib.Data.List.Chain

/-!
# Progress over any source

Nothing is assumed of the source here: it may answer with any records in any order, change its
mind between two questions, or refuse.

* A walk accepts what is listed of the answers, as far as there is room
  (`Pass.WalkRun.accepted_eq`), in the strict order of the spots (`Pass.WalkRun.order`).  This rests
  on the one check of a sifted batch, that every record comes after the one before
  (`Pass.order_sift`).
* A call that finds a page makes progress: the page holds records behind the start of the request,
  and its token goes on from the last of them (`Repository.advances_of_find`).
* So a chain of calls never hands out a spot twice (`Repository.pairwise_handedAlong`).

`Repository.progress` says all of this, and that a scan that fails is what a call comes to.
-/

namespace Harvest

/-- A cursor comes after another one, if there is one. -/
def Cursor.Follows (c : Cursor) (after : Option Cursor) : Prop := ∀ a, after = some a → a < c

namespace Cursor

variable {c d : Cursor} {after : Option Cursor}

theorem all_lt_iff : after.all (· < c) = true ↔ c.Follows after := by
  simp [Follows, Option.all_eq_true]

theorem follows_some : c.Follows (some d) ↔ d < c := by simp [Follows]

theorem Follows.trans (h : d < c) (hd : d.Follows after) : c.Follows after :=
  fun a ha => lt_trans (hd a ha) h

end Cursor

namespace Pass

variable {p : Pass} {t : RecordType} {room : Nat} {after : Option Cursor} {batch : List Record}
  {scans : List Exchange}

/-! ### Sifting any batch -/

theorem accepted_of_full (hroom : 0 < room) (h : (p.sift room after batch).ending = .full) :
    room ≤ (batch.filterMap p.listed?).length ∧
      (p.sift room after batch).accepted = (batch.filterMap p.listed?).take room := by
  obtain ⟨f, hf, -⟩ | ⟨-, hfull⟩ | ⟨hused, -⟩ := sift_cases p hroom after batch
  · cases h.symm.trans hf
  · exact hfull
  · cases h.symm.trans hused

theorem accepted_of_used (hroom : 0 < room) (h : (p.sift room after batch).ending = .used) :
    (batch.filterMap p.listed?).length < room ∧
      (p.sift room after batch).accepted = batch.filterMap p.listed? := by
  obtain ⟨f, hf, -⟩ | ⟨hfull, -⟩ | ⟨-, hlt, haccepted, -⟩ := sift_cases p hroom after batch
  · cases h.symm.trans hf
  · cases h.symm.trans hfull
  · exact ⟨hlt, haccepted⟩

/-- What is accepted of a batch is in order and comes after the cursor, and whatever comes after
the cursor that is left comes after all of it. -/
theorem order_sift (p : Pass) (room : Nat) (after : Option Cursor) (batch : List Record) :
    (p.sift room after batch).accepted.Pairwise (fun x y => x.cursor < y.cursor) ∧
      (∀ x ∈ (p.sift room after batch).accepted, x.cursor.Follows after) ∧
      ∀ c : Cursor, c.Follows (p.sift room after batch).after →
        c.Follows after ∧ ∀ x ∈ (p.sift room after batch).accepted, x.cursor < c := by
  induction batch generalizing room after with
  | nil => simp [sift]
  | cons r batch ih =>
    by_cases hafter : after.all (· < r.cursor) = true
    · have hr : r.cursor.Follows after := Cursor.all_lt_iff.1 hafter
      -- what follows the record follows the cursor before it
      have hlater : ∀ {c : Cursor}, c.Follows (some r.cursor) → c.Follows after :=
        fun hc => Cursor.Follows.trans (Cursor.follows_some.1 hc) hr
      cases hl : p.listed? r with
      | none =>
        simp only [sift, hafter, if_true, hl, Sift.cons, List.nil_append]
        obtain ⟨hpairwise, hfollows, hbeyond⟩ := ih room (some r.cursor)
        refine ⟨hpairwise, fun x hx => hlater (hfollows x hx), fun c hc => ?_⟩
        obtain ⟨hc', hall⟩ := hbeyond c hc
        exact ⟨hlater hc', hall⟩
      | some shown =>
        have hshown : shown.cursor = r.cursor := (of_listed? hl).2.2
        by_cases hone : room ≤ 1
        · simp only [sift, hafter, if_true, hl, if_pos hone, List.pairwise_singleton,
            List.forall_mem_singleton, hshown, true_and]
          exact ⟨hr, fun c hc => ⟨hlater hc, Cursor.follows_some.1 hc⟩⟩
        · simp only [sift, hafter, if_true, hl, if_neg hone, Sift.cons, List.singleton_append,
            List.pairwise_cons, List.forall_mem_cons, hshown]
          obtain ⟨hpairwise, hfollows, hbeyond⟩ := ih (room - 1) (some r.cursor)
          refine ⟨⟨fun x hx => Cursor.follows_some.1 (hfollows x hx), hpairwise⟩,
            ⟨hr, fun x hx => hlater (hfollows x hx)⟩, fun c hc => ?_⟩
          obtain ⟨hc', hall⟩ := hbeyond c hc
          exact ⟨hlater hc', Cursor.follows_some.1 hc', hall⟩
    · rw [sift, if_neg hafter]
      exact ⟨List.Pairwise.nil, by simp, fun c hc => ⟨hc, by simp⟩⟩

end Pass

/-! ### Walks -/

namespace Exchange

/-- What is listed of an answer. -/
def listed (p : Pass) (x : Exchange) : List Record :=
  match x.answer with
  | .ok batch => batch.filterMap p.listed?
  | .error _ => []

/-- What is listed of an answer, with the place of the type that was asked for. -/
def entries (p : Pass) (place : RecordType → Nat) (x : Exchange) : List Entry :=
  (x.listed p).map fun r => (place x.query.recordType, r)

end Exchange

namespace Pass

variable {p : Pass} {t : RecordType} {room index : Nat} {after : Option Cursor}
  {ts : List RecordType} {scans : List Exchange}

theorem TypeRun.error_of_refused {x : Except Fault TypeWalk} (h : p.TypeRun t room after scans x)
    {e : Exchange} (he : e ∈ scans) {f : Fault} (hf : e.answer = .error f) : x = .error f := by
  induction h with
  | refused g =>
    cases List.mem_singleton.1 he
    cases hf
    rfl
  | failed _ | full _ | last _ _ =>
    cases List.mem_singleton.1 he
    cases hf
  | more _ _ _ ih =>
    rcases List.mem_cons.1 he with rfl | he
    · cases hf
    · rw [ih he]
      rfl

/-- A walk through a type accepts what is listed of the answers, as far as there is room. -/
theorem TypeRun.accepted_eq {x : Except Fault TypeWalk} (h : p.TypeRun t room after scans x)
    (hroom : 0 < room) {w : TypeWalk} (hw : x = .ok w) :
    w.accepted = (scans.flatMap (Exchange.listed p)).take room ∧
      (w.full = true ↔ room ≤ (scans.flatMap (Exchange.listed p)).length) := by
  induction h generalizing w with
  | refused _ | failed _ => cases hw
  | full h =>
    cases hw
    obtain ⟨hle, haccepted⟩ := accepted_of_full hroom h
    simp [Exchange.listed, haccepted, hle]
  | last h hshort =>
    cases hw
    obtain ⟨hlt, haccepted⟩ := accepted_of_used hroom h
    simp [Exchange.listed, haccepted, hlt, List.take_of_length_le (Nat.le_of_lt hlt)]
  | @more room after batch scans x h hlong hrest ih =>
    obtain ⟨rest, rfl, rfl⟩ := map_eq_ok_iff.1 hw
    obtain ⟨hlt, haccepted⟩ := accepted_of_used hroom h
    rw [haccepted] at ih ⊢
    obtain ⟨hrest, hfull⟩ := ih (by omega) rfl
    have hlisted : Exchange.listed p ⟨p.query t after, .ok batch⟩ = batch.filterMap p.listed? := rfl
    rw [List.flatMap_cons, hlisted, List.take_append, List.length_append,
      List.take_of_length_le (Nat.le_of_lt hlt), hrest, hfull]
    exact ⟨rfl, by omega⟩

/-- A walk through a type accepts records in order, all after the cursor it starts from. -/
theorem TypeRun.order {x : Except Fault TypeWalk} (h : p.TypeRun t room after scans x)
    {w : TypeWalk} (hw : x = .ok w) : w.accepted.Pairwise (fun a b => a.cursor < b.cursor) ∧
      ∀ a ∈ w.accepted, a.cursor.Follows after := by
  induction h generalizing w with
  | refused _ | failed _ => cases hw
  | full _ | last _ _ =>
    cases hw
    obtain ⟨hpairwise, hfollows, -⟩ := order_sift p _ _ _
    exact ⟨hpairwise, hfollows⟩
  | @more room after batch scans x h hlong hrest ih =>
    obtain ⟨rest, rfl, rfl⟩ := map_eq_ok_iff.1 hw
    obtain ⟨hpairwise, hfollows, hbeyond⟩ := order_sift p room after batch
    obtain ⟨hpairwise', hfollows'⟩ := ih rfl
    refine ⟨List.pairwise_append.2 ⟨hpairwise, hpairwise', fun a ha b hb => ?_⟩, ?_⟩
    · exact (hbeyond _ (hfollows' b hb)).2 a ha
    · intro a ha
      rcases List.mem_append.1 ha with ha | ha
      · exact hfollows a ha
      · exact (hbeyond _ (hfollows' a ha)).1

theorem TypeRun.asked {x : Except Fault TypeWalk} (h : p.TypeRun t room after scans x)
    {e : Exchange} (he : e ∈ scans) : e.query.recordType = t := by
  induction h with
  | refused _ | failed _ | full _ | last _ _ =>
    cases List.mem_singleton.1 he
    rfl
  | more _ _ _ ih =>
    rcases List.mem_cons.1 he with rfl | he
    · rfl
    · exact ih he

theorem TypeRun.entries_eq {x : Except Fault TypeWalk} (h : p.TypeRun t room after scans x)
    (place : RecordType → Nat) : scans.flatMap (Exchange.entries p place) =
      (scans.flatMap (Exchange.listed p)).map fun r => (place t, r) := by
  rw [List.map_flatMap]
  refine List.flatMap_congr fun e he => ?_
  rw [Exchange.entries, h.asked he]

theorem WalkRun.error_of_refused {x : Except Fault Walk} (h : p.WalkRun index ts room after scans x)
    {e : Exchange} (he : e ∈ scans) {f : Fault} (hf : e.answer = .error f) : x = .error f := by
  induction h with
  | done => cases he
  | failed h =>
    cases h.error_of_refused he hf
    rfl
  | full h _ => cases h.error_of_refused he hf
  | next h _ _ ih =>
    rcases List.mem_append.1 he with he | he
    · cases h.error_of_refused he hf
    · rw [ih he]
      rfl

/-- **A walk accepts what is listed of the answers, as far as there is room**, every record with
the place of the type that was asked for. -/
theorem WalkRun.accepted_eq {x : Except Fault Walk} (h : p.WalkRun index ts room after scans x)
    (hroom : 0 < room) {place : RecordType → Nat}
    (hplace : ∀ i t, ts[i]? = some t → place t = index + i) {w : Walk} (hw : x = .ok w) :
    w.accepted = (scans.flatMap (Exchange.entries p place)).take room := by
  induction h generalizing w with
  | done =>
    cases hw
    exact List.take_nil.symm
  | failed _ => cases hw
  | @full index t ts room after scans here h hfull =>
    cases hw
    obtain ⟨haccepted, -⟩ := h.accepted_eq hroom rfl
    rw [h.entries_eq, hplace 0 t rfl, ← List.map_take, ← haccepted]
    rfl
  | @next index t ts room after scans here rest x h hopen hrest ih =>
    obtain ⟨w, rfl, rfl⟩ := map_eq_ok_iff.1 hw
    obtain ⟨haccepted, hfull⟩ := h.accepted_eq hroom rfl
    -- the type has left room, so all that is listed of it is accepted
    have hlt : (scans.flatMap (Exchange.listed p)).length < room := by
      rw [hopen] at hfull
      exact Nat.lt_of_not_le fun hle => Bool.false_ne_true (hfull.2 hle)
    rw [List.take_of_length_le (Nat.le_of_lt hlt)] at haccepted
    rw [haccepted] at ih
    have hrest' := ih (by omega) (fun i u hu => by rw [hplace (i + 1) u hu]; omega) rfl
    have hlen : (scans.flatMap (Exchange.entries p place)).length =
        (scans.flatMap (Exchange.listed p)).length := by rw [h.entries_eq, List.length_map]
    rw [List.flatMap_append, List.take_append, hlen,
      List.take_of_length_le (hlen.le.trans (Nat.le_of_lt hlt)), ← hrest', h.entries_eq,
      hplace 0 t rfl, ← haccepted]
    rfl

/-- **A walk accepts records in the strict order of their spots**, from its first place on and
after the cursor it starts from. -/
theorem WalkRun.order {x : Except Fault Walk} (h : p.WalkRun index ts room after scans x)
    {w : Walk} (hw : x = .ok w) : w.accepted.Pairwise (fun a b => spotOf a < spotOf b) ∧
      ∀ e ∈ w.accepted, index ≤ e.1 ∧ e.1 < index + ts.length ∧
        (e.1 = index → e.2.cursor.Follows after) := by
  have hhere : ∀ index (ts : List RecordType) {t room after scans here},
      p.TypeRun t room after scans (.ok here) →
      (here.accepted.map fun r => (index, r)).Pairwise (fun a b => spotOf a < spotOf b) ∧
        ∀ e ∈ here.accepted.map fun r => (index, r), index ≤ e.1 ∧
          e.1 < index + (t :: ts).length ∧ (e.1 = index → e.2.cursor.Follows after) := by
    intro index ts t room after scans here h
    obtain ⟨hpairwise, hfollows⟩ := h.order rfl
    refine ⟨List.pairwise_map.2 (hpairwise.imp fun hab => ?_), fun e he => ?_⟩
    · exact Spot.lt_def.2 (.inr ⟨rfl, hab⟩)
    · obtain ⟨r, hr, rfl⟩ := List.mem_map.1 he
      exact ⟨Nat.le_refl _, by simp, fun _ => hfollows r hr⟩
  induction h generalizing w with
  | done =>
    cases hw
    exact ⟨List.Pairwise.nil, by simp⟩
  | failed _ => cases hw
  | full h _ =>
    cases hw
    exact hhere _ _ h
  | @next index t ts room after scans here rest x h hopen hrest ih =>
    obtain ⟨w, rfl, rfl⟩ := map_eq_ok_iff.1 hw
    obtain ⟨hpairwise, hwithin⟩ := hhere index ts h
    obtain ⟨hpairwise', hwithin'⟩ := ih rfl
    refine ⟨List.pairwise_append.2 ⟨hpairwise, hpairwise', fun a ha b hb => ?_⟩, fun e he => ?_⟩
    · obtain ⟨r, -, rfl⟩ := List.mem_map.1 ha
      exact Spot.lt_def.2 (.inl (hwithin' b hb).1)
    · rcases List.mem_append.1 he with he | he
      · exact hwithin e he
      · obtain ⟨hle, hlt, -⟩ := hwithin' e he
        rw [List.length_cons]
        exact ⟨by omega, by omega, by omega⟩

end Pass

/-! ### Pages -/

theorem TokenPosition.lt_iff_spot_lt {t u : TokenPosition} : t < u ↔ t.spot < u.spot := by
  rw [TokenPosition.lt_def, Spot.lt_def, spot, spot, UInt64.lt_iff_toNat_lt, ← UInt64.toNat_inj]

namespace Repository

variable {σ : Type} {r : Repository} {src : Source σ} {q : ListRequest} {s : σ} {page : Page}
  {p : Plan} {scans : List Exchange}

/-- What one call hands out: the first records that are listed of the answers to its scans, as many
as a page has room for, with the places of the types that were asked for. -/
def handed (r : Repository) (src : Source σ) (q : ListRequest) (s : σ) : List Entry :=
  match r.planned q with
  | .ok p => ((r.scans src q s).flatMap
      (Exchange.entries (r.pass p) fun t => p.options.recordTypes.idxOf t)).take p.options.pageSize
  | .error _ => []

/-- Where a request starts: behind the position of its token, if it has one. -/
def start? (r : Repository) (q : ListRequest) : Option TokenPosition :=
  q.token.bind fun raw => (r.codec.deserialize raw).toOption.map (·.position)

/-- The format that a request comes down to has valid options. -/
def HasValidFormat (r : Repository) (q : ListRequest) : Prop :=
  ∀ p, r.planned q = .ok p → p.options.validate = .ok ()

/-- A token is for what a request asks for: the format, the set and the bounds that are given, or
those of the token that the request goes on from. -/
def Continues (r : Repository) (q : ListRequest) (t : ResumptionToken) : Prop :=
  match q.token with
  | none => q.metadataPrefix = some t.metadataPrefix ∧ t.set = q.set ∧ t.since = q.since ∧
      t.upTo = q.upTo
  | some raw => ∃ u, r.codec.deserialize raw = .ok u ∧ t.sameRequest u = true

/-- One call makes progress from where its request starts. -/
structure Advances (r : Repository) (src : Source σ) (q : ListRequest) (s : σ) (page : Page) :
    Prop where
  /-- The page holds what is handed out. -/
  records : page.records = (r.handed src q s).map Prod.snd
  /-- No more than a page has room for is handed out. -/
  fits : ∀ p, r.planned q = .ok p → page.records.length ≤ p.options.pageSize
  /-- The spots of what is handed out are in strict order. -/
  increasing : (r.handed src q s).Pairwise fun a b => spotOf a < spotOf b
  /-- They come after the start. -/
  later : ∀ t, r.start? q = some t → ∀ e ∈ r.handed src q s, t.spot < spotOf e
  /-- A token is for the same request, and holds the spot of the last record. -/
  resumes : ∀ t, page.next = some t → r.Continues q t ∧
    ∃ e, (r.handed src q s).getLast? = some e ∧ t.position.spot = spotOf e
  /-- Hence its position comes after the start. -/
  moves : ∀ t, page.next = some t → ∀ u, r.start? q = some u → u < t.position

theorem of_planned (h : r.planned q = .ok p) :
    r.start? q = p.start ∧ ∀ e, r.Continues q (p.tokenAt e) := by
  unfold start? Continues
  cases hq : q.token with
  | none =>
    obtain ⟨hfresh, -⟩ := (planned_fresh_eq_ok_iff hq).1 h
    obtain ⟨m, o, rule, hm, -, -, rfl⟩ := planFresh_eq_ok_iff.1 hfresh
    exact ⟨rfl, fun e => ⟨hm, rfl, rfl, rfl⟩⟩
  | some raw =>
    obtain ⟨t, hread, hresumed, -⟩ := (planned_resumed_eq_ok_iff hq).1 h
    obtain ⟨-, o, rule, -, -, -, rfl⟩ := planResumed_eq_ok_iff.1 hresumed
    refine ⟨by simp [hread, Except.toOption], fun e => ⟨t, hread, ?_⟩⟩
    simp [ResumptionToken.sameRequest, Plan.tokenAt]

/-- The types of a format, from the first place of a plan on, have the places that they have in the
format. -/
theorem idxOf_eq (hnodup : p.options.recordTypes.Nodup) {i : Nat} {t : RecordType}
    (h : (p.options.recordTypes.drop p.firstPlace)[i]? = some t) :
    p.options.recordTypes.idxOf t = p.firstPlace + i := by
  rw [List.getElem?_drop] at h
  obtain ⟨hlt, rfl⟩ := List.getElem?_eq_some_iff.1 h
  exact hnodup.idxOf_getElem _ hlt

/-- **A call that finds a page makes progress, whatever the source answers.** -/
theorem advances_of_find (hvalid : r.HasValidFormat q)
    (h : ((r.find src q).run s).result = .ok page) : r.Advances src q s page := by
  obtain ⟨f, -, -, hpage⟩ | ⟨p, w, hp, hrun, hpage⟩ := run_of_find h
  · cases hpage
  obtain ⟨w, rfl, rfl⟩ := map_eq_ok_iff.1 hpage.symm
  obtain ⟨hstart, hcontinues⟩ := of_planned hp
  obtain ⟨-, -, hnodup⟩ := FormatOptions.validate_eq_ok_iff.1 (hvalid p hp)
  have haccepted := hrun.accepted_eq (Nat.succ_pos _) (fun i t ht => idxOf_eq hnodup ht) rfl
  have hhanded : r.handed src q s = w.accepted.take p.options.pageSize := by
    rw [handed, hp, haccepted, List.take_take, Nat.min_eq_left (Nat.le_succ _)]
  obtain ⟨hpairwise, hwithin⟩ := hrun.order rfl
  have hlater : ∀ t, r.start? q = some t → ∀ e ∈ r.handed src q s, t.spot < spotOf e := by
    intro t ht e he
    rw [hstart] at ht
    rw [hhanded] at he
    obtain ⟨hle, -, hfollows⟩ := hwithin e (List.mem_of_mem_take he)
    have hplace : p.firstPlace = t.typeIndex.toNat := by rw [Plan.firstPlace, ht]; rfl
    have hafter : p.firstAfter = some t.last := by rw [Plan.firstAfter, ht]; rfl
    rw [hplace] at hle hfollows
    rw [hafter] at hfollows
    obtain hlt | heq := Nat.lt_or_eq_of_le hle
    · exact Spot.lt_def.2 (.inl hlt)
    · exact Spot.lt_def.2 (.inr ⟨heq, Cursor.follows_some.1 (hfollows heq.symm)⟩)
  have hresumes : ∀ t, (page p w).next = some t → r.Continues q t ∧
      ∃ e, (r.handed src q s).getLast? = some e ∧ t.position.spot = spotOf e := by
    intro t ht
    rw [page_eq_take] at ht
    simp only at ht
    split_ifs at ht with hle
    obtain ⟨e, he, rfl⟩ := Option.map_eq_some_iff.1 ht
    refine ⟨hcontinues e, e, by rw [hhanded, he], Plan.spot_tokenAt ?_⟩
    -- there are at most six types
    have hsix := FormatOptions.length_le_six hnodup
    obtain ⟨hge, hlt, -⟩ := hwithin e (List.mem_of_mem_take (List.mem_of_getLast? he))
    rw [List.length_drop] at hlt
    omega
  refine ⟨by rw [page_eq_take, hhanded], ?_, ?_, hlater, hresumes, ?_⟩
  · intro p' hp'
    obtain rfl : p = p' := Except.ok.inj (hp.symm.trans hp')
    rw [page_eq_take, List.length_map, List.length_take]
    exact Nat.min_le_left _ _
  · rw [hhanded]
    exact hpairwise.sublist (List.take_sublist _ _)
  · intro t ht u hu
    obtain ⟨-, e, hlast, hspot⟩ := hresumes t ht
    rw [TokenPosition.lt_iff_spot_lt, hspot]
    exact hlater u hu e (List.mem_of_getLast? hlast)

/-! ### Chains of calls -/

/-- A call: what was asked, in which state of the source, and the page that was found. -/
structure Call (σ : Type) where
  request : ListRequest
  state : σ
  page : Page

/-- Calls that go on from one another: each one but the first sends the token of the page before. -/
def Chain (r : Repository) (src : Source σ) (calls : List (Call σ)) : Prop :=
  (∀ c ∈ calls, ((r.find src c.request).run c.state).result = .ok c.page) ∧
    calls.IsChain fun c d => ∃ t, c.page.next = some t ∧
      d.request.token = some (r.codec.serialize t)

/-- A request with the token of a page starts where that is read back. -/
theorem start?_of_token {t : ResumptionToken} (hq : q.token = some (r.codec.serialize t))
    (hp : r.planned q = .ok p) : r.start? q = some t.carry.position := by
  obtain ⟨u, hread, -⟩ := (planned_resumed_eq_ok_iff hq).1 hp
  obtain rfl := Codec.eq_of_deserialize_serialize hread
  rw [start?, hq, Option.bind_some, hread]
  rfl

/-- What a chain of calls hands out. -/
def handedAlong (r : Repository) (src : Source σ) (calls : List (Call σ)) : List Entry :=
  calls.flatMap fun c => r.handed src c.request c.state

/-- **A chain of calls never hands out a spot twice**: its spots are in strict order, and come
after the start of the first call. -/
theorem pairwise_handedAlong {calls : List (Call σ)} (h : r.Chain src calls)
    (hvalid : ∀ c ∈ calls, r.HasValidFormat c.request) :
    (r.handedAlong src calls).Pairwise (fun a b => spotOf a < spotOf b) ∧
      ∀ c t, calls.head? = some c → r.start? c.request = some t →
        ∀ e ∈ r.handedAlong src calls, t.spot < spotOf e := by
  induction calls with
  | nil => exact ⟨List.Pairwise.nil, by simp⟩
  | cons c calls ih =>
    obtain ⟨hfound, hchain⟩ := h
    obtain ⟨hfirst, hothers⟩ := List.forall_mem_cons.1 hfound
    obtain ⟨hformat, hformats⟩ := List.forall_mem_cons.1 hvalid
    have hadvances := advances_of_find hformat hfirst
    obtain ⟨hpairwise, hlater⟩ := ih ⟨hothers, hchain.tail⟩ hformats
    -- the calls that follow start at the last spot of the first one, or behind it
    have hbehind : ∀ e ∈ r.handedAlong src calls, ∃ l,
        (r.handed src c.request c.state).getLast? = some l ∧ spotOf l < spotOf e := by
      intro e he
      cases calls with
      | nil => cases he
      | cons d calls =>
        obtain ⟨t, hnext, htoken⟩ := hchain.rel_head? (y := d) rfl
        obtain ⟨-, l, hlast, hspot⟩ := hadvances.resumes t hnext
        obtain ⟨f, -, -, hd⟩ | ⟨p, -, hp, -⟩ := run_of_find (hothers d List.mem_cons_self)
        · cases hd
        · have hstart := hlater d _ rfl (start?_of_token htoken hp) e he
          rw [ResumptionToken.spot_carry, hspot] at hstart
          exact ⟨l, hlast, lt_of_le_of_lt (spotOf l).le_carry hstart⟩
    rw [handedAlong, List.flatMap_cons]
    refine ⟨List.pairwise_append.2 ⟨hadvances.increasing, hpairwise, fun a ha b hb => ?_⟩, ?_⟩
    · obtain ⟨l, hlast, hlt⟩ := hbehind b hb
      obtain rfl | hal := eq_or_rel_of_getLast? hadvances.increasing hlast ha
      · exact hlt
      · exact lt_trans hal hlt
    · intro c' t hc' ht e he
      cases hc'
      rcases List.mem_append.1 he with he | he
      · exact hadvances.later t ht e he
      · obtain ⟨l, hlast, hlt⟩ := hbehind e he
        exact lt_trans (hadvances.later t ht l (List.mem_of_getLast? hlast)) hlt

/-- **Listings make progress over any source.**  A scan that fails is what a call comes to.  A page
holds records at spots in strict order behind the start of its request, and its token goes on from
the last of them; so a chain of calls never hands out a spot twice, however the source changes in
between. -/
theorem progress (r : Repository) (src : Source σ) :
    (∀ q s, ((r.find src.recorded q).run (s, [])).result = ((r.find src q).run s).result) ∧
    (∀ q s, ∀ x ∈ r.scans src q s, ∀ f, x.answer = .error f →
      ((r.find src q).run s).result = .error f) ∧
    (∀ q s page, r.HasValidFormat q → ((r.find src q).run s).result = .ok page →
      r.Advances src q s page) ∧
    ∀ calls, r.Chain src calls → (∀ c ∈ calls, r.HasValidFormat c.request) →
      (r.handedAlong src calls).Pairwise fun a b => spotOf a < spotOf b := by
  refine ⟨fun q s => result_recorded s, fun q s x hx f hf => ?_, fun q s page => advances_of_find,
    fun calls h hvalid => (pairwise_handedAlong h hvalid).1⟩
  obtain ⟨g, -, hnone, -⟩ | ⟨p, w, -, hrun, hresult⟩ :=
    run_of_find (rfl : ((r.find src q).run s).result = _)
  · rw [hnone] at hx
    cases hx
  · rw [hresult, hrun.error_of_refused hx hf]
    rfl

/-! ### A chain over an archive that changes -/

/-- The archive after its first record has been deleted. -/
def changedSample : Store :=
  Store.sample.writes [.delete Store.sampleCollection.uri (Store.sampleTime 50)]

/-- The token behind the collection. -/
def collectionToken : ResumptionToken := singlesPlan.tokenAt (0, Store.sampleCollection)

/-- A first call, and one after the collection has been deleted. -/
def sampleCalls : List (Call Store) :=
  [⟨singlesPlan.request, Store.sample, sampleSingles.pageOver Store.sample.records singlesPlan⟩,
    ⟨.resume (sampleSingles.codec.serialize collectionToken), changedSample,
      sampleSingles.pageOver changedSample.records
        (singlesPlan.after (0, Store.sampleCollection))⟩]

theorem planned_sampleCalls :
    sampleSingles.planned singlesPlan.request = .ok singlesPlan ∧
      sampleSingles.planned (.resume (sampleSingles.codec.serialize collectionToken)) =
        .ok (singlesPlan.after (0, Store.sampleCollection)) := by
  refine ⟨planned_request supports_singlesPlan, ?_⟩
  have hmem : (0, Store.sampleCollection) ∈
      sampleSingles.whole Store.sample.records singlesPlan := List.mem_of_mem_head? rfl
  refine planned_resume supports_singlesPlan hmem ?_
  exact Nat.le_trans (Codec.utf8ByteSize_serialize_le _ _) (by decide)

theorem chain_sampleCalls : sampleSingles.Chain Store.source sampleCalls := by
  have hfound : ∀ {s q p}, s.WellFormed → sampleSingles.planned q = .ok p →
      ((sampleSingles.find Store.source q).run s).result =
        .ok (sampleSingles.pageOver s.records p) := fun hs hq => answer_of_planned hs hq
  have hnext : (sampleSingles.pageOver Store.sample.records singlesPlan).next =
      some collectionToken := rfl
  obtain ⟨hfirst, hsecond⟩ := planned_sampleCalls
  rw [Chain, sampleCalls, List.forall_mem_cons, List.forall_mem_singleton, List.isChain_pair]
  exact ⟨⟨hfound Store.sample_reachable.wellFormed hfirst,
    hfound (Store.sample_reachable.writes _).wellFormed hsecond⟩, collectionToken, hnext, rfl⟩

/-- The collection is handed out and then deleted, which moves it to a later spot.  The drawer comes
next, and the chain goes on in order. -/
theorem progress_sampleCalls :
    sampleSingles.Chain Store.source sampleCalls ∧
    (∀ c ∈ sampleCalls, sampleSingles.Advances Store.source c.request c.state c.page) ∧
    (sampleCalls.flatMap fun c => c.page.records.map Record.uri) =
      [Store.sampleCollection.uri, Store.sampleDrawer.uri] ∧
    (sampleSingles.handedAlong Store.source sampleCalls).Pairwise
      fun a b => spotOf a < spotOf b := by
  obtain ⟨-, -, hadvances, hchains⟩ := progress sampleSingles Store.source
  have hvalid : ∀ c ∈ sampleCalls, sampleSingles.HasValidFormat c.request := by
    obtain ⟨hfirst, hsecond⟩ := planned_sampleCalls
    rw [sampleCalls, List.forall_mem_cons, List.forall_mem_singleton]
    constructor
    · intro p hp
      cases hfirst.symm.trans hp
      rfl
    · intro p hp
      cases hsecond.symm.trans hp
      rfl
  have hchain := chain_sampleCalls
  exact ⟨hchain, fun c hc => hadvances _ _ _ (hvalid c hc) (hchain.1 c hc), rfl,
    hchains _ hchain hvalid⟩

end Repository

end Harvest
