import Harvest.Proofs.Listing.Scope
import Harvest.Proofs.Token.Length
import Harvest.Proofs.Token.RoundTrip
import Harvest.Proofs.Validation

/-!
# Harvests

A harvest asks for a listing and goes on with the token of every page, as it is sent, until a page
has none (`harvest`).

A token leads to the same plan, started where the token is read back
(`Repository.planned_resume`): behind the last record of its page, and further behind if that was
modified in a leap second inside a minute.  What is then due is what the page has left behind, or
the end of it (`Repository.due_after`).  So over a store that stays as it is the pages list nothing
but the reference listing, in its order (`Repository.harvest_eq_reference`), however large each page
and each batch is.

The pages leave out nothing but what lies between the end of a page and where its token is read back
(`Skippable`), which is nothing if their tokens are aligned (`TokensAligned.not_skippable`).  In an
archive with a leap second inside a minute a record is left out (`Repository.harvest_skips`).
-/

namespace Harvest

/-! ### Asking for page after page -/

/-- Ask for page after page, at most `n` of them; `ask i` answers the `i`-th request. -/
def harvest (c : Codec) (ask : Nat → ListRequest → Except Fault Page) :
    Nat → Nat → ListRequest → Except Fault (List Page)
  | 0, _, _ => .ok []
  | n + 1, i, q => do
    let page ← ask i q
    match page.next with
    | none => return [page]
    | some t =>
      let pages ← harvest c ask n (i + 1) (.resume (c.serialize t))
      return page :: pages

/-- Whether the last of some pages has no token. -/
def IsComplete (pages : List Page) : Prop := ∃ page, pages.getLast? = some page ∧ page.isTerminal

/-- Whether the tokens of some pages are short enough to be read. -/
def TokensFit (c : Codec) (pages : List Page) : Prop :=
  ∀ page ∈ pages, ∀ t, page.next = some t → (c.serialize t).utf8ByteSize ≤ Codec.maxLength

/-- Whether the times in the tokens of some pages are aligned, so that the tokens are read back as
they were. -/
def TokensAligned (pages : List Page) : Prop :=
  ∀ page ∈ pages, ∀ t, page.next = some t → t.IsAligned

/-- A record may be skipped between some pages: it comes after the last record of a page, but not
after the cursor that is read back from the page's token. -/
def Skippable (pages : List Page) (x : Record) : Prop :=
  ∃ page ∈ pages, ∃ t, page.next = some t ∧
    t.position.last < x.cursor ∧ x.cursor ≤ t.position.last.carry

section Pages

variable {c : Codec} {ask : Nat → ListRequest → Except Fault Page} {n i : Nat} {q : ListRequest}
  {page : Page} {pages : List Page}

theorem harvest_terminal (h : ask i q = .ok page) (hnext : page.next = none) :
    harvest c ask (n + 1) i q = .ok [page] := by
  rw [harvest, h, ok_bind, hnext]
  rfl

theorem harvest_partial (h : ask i q = .ok page) {t : ResumptionToken}
    (hnext : page.next = some t) : harvest c ask (n + 1) i q =
      (harvest c ask n (i + 1) (.resume (c.serialize t))).map (page :: ·) := by
  rw [harvest, h, ok_bind, hnext]
  simp only
  cases harvest c ask n (i + 1) (.resume (c.serialize t)) <;> rfl

theorem harvest_succ_eq_ok_iff : harvest c ask (n + 1) i q = .ok pages ↔
    ∃ page, ask i q = .ok page ∧
      (page.next = none ∧ pages = [page] ∨
        ∃ t rest, page.next = some t ∧
          harvest c ask n (i + 1) (.resume (c.serialize t)) = .ok rest ∧ pages = page :: rest) := by
  cases h : ask i q with
  | error f => simp [harvest, h]
  | ok page =>
    cases hnext : page.next with
    | none => simp [harvest_terminal h hnext, hnext, eq_comm]
    | some t =>
      rw [harvest_partial h hnext]
      cases hrest : harvest c ask n (i + 1) (.resume (c.serialize t)) with
      | error f => simp [hnext, Except.map, hrest]
      | ok rest => simp [hnext, Except.map, hrest, eq_comm]

theorem exists_answer_of_harvest (h : harvest c ask n i q = .ok pages) (hne : pages ≠ []) :
    ∃ page, ask i q = .ok page := by
  cases n with
  | zero =>
    cases h
    exact absurd rfl hne
  | succ n =>
    obtain ⟨page, hpage, -⟩ := harvest_succ_eq_ok_iff.1 h
    exact ⟨page, hpage⟩

theorem IsComplete.ne_nil (h : IsComplete pages) : pages ≠ [] := by
  rintro rfl
  obtain ⟨page, hpage, -⟩ := h
  cases hpage

theorem isComplete_cons (h : IsComplete pages) : IsComplete (page :: pages) := by
  obtain ⟨last, hlast, hterminal⟩ := h
  exact ⟨last, by rw [List.getLast?_cons, hlast]; rfl, hterminal⟩

theorem IsComplete.tail (h : IsComplete (page :: pages)) {t : ResumptionToken}
    (hnext : page.next = some t) : pages ≠ [] ∧ IsComplete pages := by
  obtain ⟨last, hlast, hterminal⟩ := h
  cases pages with
  | nil =>
    cases hlast
    have hnone : page.next = none := Option.isNone_iff_eq_none.1 hterminal
    rw [hnext] at hnone
    cases hnone
  | cons page' pages =>
    rw [List.getLast?_cons_cons] at hlast
    exact ⟨List.cons_ne_nil _ _, last, hlast, hterminal⟩

theorem Skippable.cons {x : Record} (h : Skippable pages x) (page : Page) :
    Skippable (page :: pages) x := by
  obtain ⟨page', hpage', hskips⟩ := h
  exact ⟨page', List.mem_cons_of_mem _ hpage', hskips⟩

/-- Aligned tokens skip nothing. -/
theorem TokensAligned.not_skippable (h : TokensAligned pages) (x : Record) :
    ¬ Skippable pages x := by
  rintro ⟨page, hpage, t, ht, hlt, hle⟩
  rw [Cursor.carry_eq_self_iff.2 (h page hpage t ht).2] at hle
  exact not_le_of_gt hlt hle

end Pages

/-! ### Going on with a token -/

/-- The spot that is read back from a token. -/
def Spot.carry (a : Spot) : Spot := ⟨a.index, a.cursor.carry⟩

theorem Spot.le_carry (a : Spot) : a ≤ a.carry := by
  obtain hlt | heq := lt_or_eq_of_le a.cursor.le_carry
  · exact le_of_lt (Spot.lt_def.2 (.inr ⟨rfl, hlt⟩))
  · exact le_of_eq (Spot.ext rfl heq)

/-- What lies between a spot and the one that is read back is of one type. -/
theorem Spot.between_carry {a b : Spot} (hlt : a < b) (hle : b ≤ a.carry) :
    a.cursor < b.cursor ∧ b.cursor ≤ a.cursor.carry := by
  obtain hindex | ⟨hindex, hcursor⟩ := Spot.lt_def.1 hlt
  · have hbehind : a.carry < b := Spot.lt_def.2 (.inl hindex)
    exact absurd hbehind (not_lt_of_ge hle)
  · exact ⟨hcursor, not_lt.1 fun hgt => not_lt_of_ge hle (Spot.lt_def.2 (.inr ⟨hindex, hgt⟩))⟩

theorem ResumptionToken.spot_carry (t : ResumptionToken) :
    t.carry.position.spot = t.position.spot.carry := rfl

theorem Spot.carry_eq_self {a : Spot} (h : a.cursor.modified.IsAligned) : a.carry = a :=
  Spot.ext rfl (Cursor.carry_eq_self_iff.2 h)

namespace Plan

variable {p : Plan} {e : Entry}

/-- The request of a plan, from the start. -/
def request (p : Plan) : ListRequest :=
  { metadataPrefix := some p.metadataPrefix, set := p.set, since := p.since, upTo := p.upTo }

/-- A plan that goes on where the token of a listed record is read back. -/
def after (p : Plan) (e : Entry) : Plan := { p with start := some (p.tokenAt e).carry.position }

/-- A token keeps the place of a type, of which there are few. -/
theorem spot_tokenAt (h : e.1 ≤ 6) : (p.tokenAt e).position.spot = spotOf e := by
  have hindex : (UInt64.ofNat e.1).toNat = e.1 := by
    rw [UInt64.toNat_ofNat']
    omega
  rw [tokenAt, TokenPosition.spot, spotOf, hindex]

theorem reaches_after (h : e.1 ≤ 6) :
    (p.after e).reaches = fun x => decide ((spotOf e).carry < spotOf x) := by
  funext x
  rw [reaches, after, Option.all_some, ResumptionToken.spot_carry, spot_tokenAt h]

end Plan

namespace Repository

/-- A repository supports a plan whose parts are what it makes of the plan's request. -/
structure Supports (r : Repository) (p : Plan) : Prop where
  named : p.metadataPrefix ≠ ""
  registered : r.formats.options? p.metadataPrefix = some p.options
  valid : p.options.validate = .ok ()
  resolved : r.resolveSet p.set = .ok p.rule
  window : ∀ s u, p.since = some s → p.upTo = some u → s ≤ u
  bounds : AlignedBounds p.since p.upTo

variable {r r' : Repository} {p p' : Plan} {rs : List Record} {e : Entry} {s : Store}

theorem Supports.after (h : r.Supports p) (e : Entry) : r.Supports (p.after e) :=
  ⟨h.named, h.registered, h.valid, h.resolved, h.window, h.bounds⟩

theorem Supports.nodup (h : r.Supports p) : p.options.recordTypes.Nodup :=
  (FormatOptions.validate_eq_ok_iff.1 h.valid).2.2

theorem Supports.pageSize_pos (h : r.Supports p) : 0 < p.options.pageSize :=
  (FormatOptions.validate_eq_ok_iff.1 h.valid).2.1

theorem Supports.index_le (h : r.Supports p) (he : e ∈ r.whole rs p) : e.1 ≤ 6 :=
  Nat.le_of_lt (Nat.lt_of_lt_of_le (index_lt_of_mem_whole he)
    (FormatOptions.length_le_six h.nodup))

theorem planned_request (h : r.Supports p) : r.planned p.request = .ok { p with start := none } :=
  (planned_fresh_eq_ok_iff rfl).2
    ⟨planFresh_eq_ok_iff.2 ⟨_, _, _, rfl, h.registered, h.resolved, rfl⟩, h.window⟩

/-- **A token that is short enough leads to the plan it was made from, started where it is read
back.** -/
theorem planned_resume (h : r.Supports p) (he : e ∈ r.whole rs p)
    (hfit : (r.codec.serialize (p.tokenAt e)).utf8ByteSize ≤ Codec.maxLength) :
    r.planned (.resume (r.codec.serialize (p.tokenAt e))) = .ok (p.after e) := by
  have hread : r.codec.deserialize (r.codec.serialize (p.tokenAt e)) = .ok (p.tokenAt e).carry :=
    Codec.deserialize_serialize _ _ h.named hfit
  have htype : (p.tokenAt e).carry.position.typeIndex.toNat = e.1 :=
    congrArg Spot.index (Plan.spot_tokenAt (p := p) (h.index_le he))
  have hsince : (p.tokenAt e).carry.since = p.since :=
    ResumptionToken.map_carry_eq_self_iff.2 h.bounds.1
  have hupTo : (p.tokenAt e).carry.upTo = p.upTo :=
    ResumptionToken.map_carry_eq_self_iff.2 h.bounds.2
  refine (planned_resumed_eq_ok_iff rfl).2 ⟨_, hread, ?_, h.window⟩
  refine planResumed_eq_ok_iff.2 ⟨rfl, p.options, p.rule, h.registered, ?_, h.resolved, ?_⟩
  · rw [htype]
    exact index_lt_of_mem_whole he
  · rw [hsince, hupTo]
    rfl

/-! ### What is left -/

/-- The answer to a listing request over a store. -/
def answer (r : Repository) (s : Store) (q : ListRequest) : Except Fault Page :=
  ((r.find Store.source q).run s).result

theorem answer_eq (h : s.WellFormed) (q : ListRequest) :
    r.answer s q = (r.planned q).map (r.pageOver s.records) :=
  (ensures_find (Store.serves h) q s rfl).1

theorem answer_of_planned (h : s.WellFormed) {q : ListRequest} (hq : r.planned q = .ok p) :
    r.answer s q = .ok (r.pageOver s.records p) := by
  rw [answer_eq h, hq]
  rfl

/-- The whole listing depends on the scope alone. -/
theorem whole_congr (h : Shelved rs) (hscope : r.scope p = r'.scope p') :
    r.whole rs p = r'.whole rs p' := by
  have htypes : p.options.recordTypes = p'.options.recordTypes :=
    congrArg Scope.recordTypes hscope
  refine eq_of_pairwise_of_mem (r := fun a b => spotOf a < spotOf b)
    (fun a b => lt_asymm) (pairwise_whole h) (pairwise_whole h) fun e => ?_
  rw [mem_whole, mem_whole, htypes, hscope]

theorem mem_whole_of_last (hp : p.InRange) {n : Nat}
    (he : ((r.due rs p).take n).getLast? = some e) : e ∈ r.whole rs p ∧ p.reaches e = true := by
  have hmem := List.mem_of_mem_take (List.mem_of_getLast? he)
  rw [due_eq hp] at hmem
  exact List.mem_filter.1 hmem

/-- What a page leaves lies behind its last record. -/
theorem last_lt_of_mem_drop (h : Shelved rs) (hp : p.InRange) {n : Nat}
    (he : ((r.due rs p).take n).getLast? = some e) {x : Entry} (hx : x ∈ (r.due rs p).drop n) :
    spotOf e < spotOf x := by
  have hordered := pairwise_due (r := r) h hp
  rw [← List.take_append_drop n (r.due rs p)] at hordered
  exact (List.pairwise_append.1 hordered).2.2 e (List.mem_of_getLast? he) x hx

/-- What a page leaves may be skipped if it does not lie behind the page's token. -/
theorem skippable_of_not_lt (h : Shelved rs) (hp : p.InRange) {n : Nat}
    (he : ((r.due rs p).take n).getLast? = some e) {x : Entry} (hx : x ∈ (r.due rs p).drop n)
    (hnot : ¬ (spotOf e).carry < spotOf x) {page : Page} (hnext : page.next = some (p.tokenAt e))
    (pages : List Page) : Skippable (page :: pages) x.2 :=
  ⟨page, List.mem_cons_self, _, hnext,
    Spot.between_carry (last_lt_of_mem_drop h hp he hx) (not_lt.1 hnot)⟩

section After

variable (h : Shelved rs) (hp : p.InRange) (hp' : (p.after e).InRange) {n : Nat}
  (he : ((r.due rs p).take n).getLast? = some e) (hindex : e.1 ≤ 6)
include h hp hp' he hindex

/-- Behind the token of a page is due what the page leaves, less what may be skipped. -/
theorem due_after : r.due rs (p.after e) =
    ((r.due rs p).drop n).filter fun x => decide ((spotOf e).carry < spotOf x) := by
  obtain ⟨-, hreached⟩ := mem_whole_of_last hp he
  have hdrop : (r.due rs p).filter (fun x => decide (spotOf e < spotOf x)) = (r.due rs p).drop n :=
    filter_eq_drop (r := fun a b => spotOf a < spotOf b) (fun a b => lt_asymm)
      (pairwise_due h hp) he
  have hwhole : r.whole rs (p.after e) = r.whole rs p := whole_congr h rfl
  rw [← hdrop, due_eq hp', hwhole, due_eq hp, List.filter_filter, List.filter_filter,
    Plan.reaches_after hindex]
  refine List.filter_congr fun x _ => ?_
  rw [Bool.eq_iff_iff, Bool.and_eq_true, Bool.and_eq_true, decide_eq_true_iff,
    decide_eq_true_iff, and_assoc, iff_self_and]
  intro hlt
  -- what is behind the last record is behind the start as well
  have hbehind : spotOf e < spotOf x := lt_of_le_of_lt (spotOf e).le_carry hlt
  simp only [Plan.reaches, Option.all_eq_true, decide_eq_true_eq] at hreached ⊢
  exact ⟨hbehind, fun t ht => lt_trans (hreached t ht) hbehind⟩

/-- Behind an aligned token is due what the page leaves. -/
theorem due_after_of_isAligned (haligned : e.2.modified.IsAligned) :
    r.due rs (p.after e) = (r.due rs p).drop n := by
  rw [due_after h hp hp' he hindex, Spot.carry_eq_self haligned]
  exact List.filter_eq_self.2 fun x hx => decide_eq_true (last_lt_of_mem_drop h hp he hx)

/-- Behind the token of a page is due less than before. -/
theorem length_due_after_lt : (r.due rs (p.after e)).length < (r.due rs p).length := by
  have hpage : 0 < ((r.due rs p).take n).length :=
    List.length_pos_of_mem (List.mem_of_getLast? he)
  have hleft := List.length_filter_le (fun x => decide ((spotOf e).carry < spotOf x))
    ((r.due rs p).drop n)
  rw [List.length_take] at hpage
  rw [List.length_drop] at hleft
  rw [due_after h hp hp' he hindex]
  omega

end After

/-- A page either holds all that is due, or it is full and its token names its last record. -/
theorem pageOver_cases (r : Repository) (rs : List Record) (hsize : 0 < p.options.pageSize) :
    (r.pageOver rs p).next = none ∧ (r.pageOver rs p).records = (r.due rs p).map Prod.snd ∨
      ∃ e, ((r.due rs p).take p.options.pageSize).getLast? = some e ∧
        (r.pageOver rs p).next = some (p.tokenAt e) ∧
        p.options.pageSize < (r.due rs p).length := by
  by_cases hle : (r.due rs p).length ≤ p.options.pageSize
  · refine .inl ⟨by rw [pageOver, if_pos hle], ?_⟩
    rw [pageOver, List.take_of_length_le hle]
  · have hne : (r.due rs p).take p.options.pageSize ≠ [] := by
      rw [← List.length_pos_iff, List.length_take]
      omega
    have hlast := List.getLast?_eq_some_getLast hne
    refine .inr ⟨_, hlast, ?_, Nat.lt_of_not_le hle⟩
    rw [pageOver, if_neg hle, hlast]
    rfl

end Repository

/-! ### Tokens that fit -/

theorem Repository.names_of_answer {r : Repository} {s : Store} (hs : s.WellFormed)
    {q : ListRequest} {page : Page} (h : r.answer s q = .ok page) {t : ResumptionToken}
    (ht : page.next = some t) :
    ∃ p, r.planned q = .ok p ∧ t.metadataPrefix = p.metadataPrefix ∧ t.set = p.set := by
  rw [answer_eq hs] at h
  obtain ⟨p, hp, rfl⟩ := map_eq_ok_iff.1 h
  refine ⟨p, hp, ?_⟩
  unfold pageOver at ht
  simp only at ht
  split_ifs at ht
  obtain ⟨e, -, rfl⟩ := Option.map_eq_some_iff.1 ht
  exact ⟨rfl, rfl⟩

/-- **All tokens of a harvest fit if the names of its format and its set are short**, whichever
repositories with one secret answer its calls, over whatever stores. -/
theorem tokensFit_of_short {c : Codec} {ask : Nat → ListRequest → Except Fault Page}
    (hask : ∀ i q page, ask i q = .ok page →
      ∃ (r : Repository) (s : Store), r.codec = c ∧ s.WellFormed ∧ r.answer s q = .ok page)
    {m : String} (hm : m ≠ "") {set : Option String}
    (hshort : 1000 + 8 * (m.utf8ByteSize + Codec.optionSize set) ≤ Codec.maxLength) {n i : Nat}
    {since upTo : Option Instant} {pages : List Page}
    (h : harvest c ask n i
      { metadataPrefix := some m, set := set, since := since, upTo := upTo } = .ok pages) :
    TokensFit c pages := by
  have hfits : ∀ t : ResumptionToken, t.metadataPrefix = m → t.set = set →
      (c.serialize t).utf8ByteSize ≤ Codec.maxLength := by
    rintro t rfl rfl
    exact Nat.le_trans (Codec.utf8ByteSize_serialize_le c t) hshort
  -- the invariant: every token names the format and the set of the request
  have hrun : ∀ n i q pages, (∀ r : Repository, r.codec = c → ∀ p, r.planned q = .ok p →
      p.metadataPrefix = m ∧ p.set = set) → harvest c ask n i q = .ok pages →
        TokensFit c pages := by
    intro n
    induction n with
    | zero =>
      rintro i q pages - h page hpage
      cases h
      cases hpage
    | succ n ih =>
      intro i q pages hq h
      obtain ⟨page, hpage, hrest⟩ := harvest_succ_eq_ok_iff.1 h
      have hnames : ∀ t, page.next = some t → t.metadataPrefix = m ∧ t.set = set := by
        intro t ht
        obtain ⟨r, s, hc, hs, hanswer⟩ := hask i q page hpage
        obtain ⟨p, hp, hname, hset⟩ := Repository.names_of_answer hs hanswer ht
        rw [hname, hset]
        exact hq r hc p hp
      obtain ⟨hnext, rfl⟩ | ⟨t, rest, hnext, hrest, rfl⟩ := hrest
      · intro p hp t ht
        cases List.mem_singleton.1 hp
        rw [hnext] at ht
        cases ht
      · obtain ⟨hname, hset⟩ := hnames t hnext
        have hread := Codec.deserialize_serialize c t (by rwa [hname]) (hfits t hname hset)
        have htail := ih (i + 1) _ rest (fun r hc p hp => by
          obtain ⟨u, hu, hresumed, -⟩ := (Repository.planned_resumed_eq_ok_iff rfl).1 hp
          rw [hc, hread] at hu
          cases hu
          obtain ⟨-, o, rule, -, -, -, rfl⟩ := Repository.planResumed_eq_ok_iff.1 hresumed
          exact ⟨hname, hset⟩) hrest
        intro p hp u hu
        rcases List.mem_cons.1 hp with rfl | hp
        · obtain ⟨hname, hset⟩ := hnames u hu
          exact hfits u hname hset
        · exact htail p hp u hu
  refine hrun n i _ pages (fun r _ p hp => ?_) h
  obtain ⟨hfresh, -⟩ := (Repository.planned_fresh_eq_ok_iff rfl).1 hp
  obtain ⟨m', o, rule, hm', -, -, rfl⟩ := Repository.planFresh_eq_ok_iff.1 hfresh
  cases hm'
  exact ⟨rfl, rfl⟩

/-! ### Tokens that are aligned -/

/-- Whether the times of all records are aligned. -/
def Store.IsAligned (s : Store) : Prop := ∀ x ∈ s.records, x.modified.IsAligned

instance (s : Store) : Decidable s.IsAligned :=
  inferInstanceAs (Decidable (∀ x ∈ s.records, x.modified.IsAligned))

namespace Repository

variable {r : Repository} {p : Plan} {s : Store} {q : ListRequest}

theorem alignedBounds_of_planned (h : r.planned q = .ok p) (hq : AlignedBounds q.since q.upTo) :
    AlignedBounds p.since p.upTo := by
  cases htoken : q.token with
  | none =>
    obtain ⟨hfresh, -⟩ := (planned_fresh_eq_ok_iff htoken).1 h
    obtain ⟨m, o, rule, -, -, -, rfl⟩ := planFresh_eq_ok_iff.1 hfresh
    exact hq
  | some raw =>
    obtain ⟨t, hread, hresumed, -⟩ := (planned_resumed_eq_ok_iff htoken).1 h
    obtain ⟨-, o, rule, -, -, -, rfl⟩ := planResumed_eq_ok_iff.1 hresumed
    exact (Codec.named_of_deserialize hread).2.1

theorem isAligned_of_mem_whole (hs : s.IsAligned) {e : Entry} (he : e ∈ r.whole s.records p) :
    e.2.modified.IsAligned := by
  obtain ⟨x, hx, -, -, hshows⟩ := mem_whole.1 he
  have hcursor := (Scope.of_shows? hshows).2.2
  rw [show e.2.modified = x.modified from congrArg Cursor.modified hcursor]
  exact hs x hx

theorem isAligned_of_answer (hs : s.WellFormed) (haligned : s.IsAligned)
    (hq : AlignedBounds q.since q.upTo) {page : Page} (h : r.answer s q = .ok page)
    {t : ResumptionToken} (ht : page.next = some t) : t.IsAligned := by
  rw [answer_eq hs] at h
  obtain ⟨p, hp, rfl⟩ := map_eq_ok_iff.1 h
  unfold pageOver at ht
  simp only at ht
  split_ifs at ht
  obtain ⟨e, he, rfl⟩ := Option.map_eq_some_iff.1 ht
  obtain ⟨hmem, -⟩ := mem_whole_of_last (inRange_of_planned hp) he
  exact ⟨alignedBounds_of_planned hp hq, isAligned_of_mem_whole haligned hmem⟩

end Repository

/-- The sizes that one call goes by. -/
structure Sizes where
  page : Nat
  batch : Nat

/-- Give the pages of a format another size. -/
def FormatRegistry.resize (g : FormatRegistry) (m : String) (n : Nat) : FormatRegistry :=
  match g.entries.find? m with
  | none => g
  | some e => ⟨g.entries.insert m { e with options := { e.options with pageSize := n } }⟩

theorem FormatRegistry.options?_resize (g : FormatRegistry) (m : String) (n : Nat) :
    (g.resize m n).options? m = (g.options? m).map ({ · with pageSize := n }) := by
  unfold resize options?
  cases h : g.entries.find? m with
  | none => simp [h]
  | some e => simp [OrderedMap.find?_insert]

/-- A plan with pages of another size. -/
def Plan.sized (p : Plan) (z : Sizes) : Plan :=
  { p with options := { p.options with pageSize := z.page } }

namespace Repository

/-- The repository with other sizes for the listings of a format. -/
def sized (r : Repository) (m : String) (z : Sizes) : Repository where
  settings := { r.settings with scanBatchSize := z.batch }
  formats := r.formats.resize m z.page
  explain := r.explain

variable {r : Repository} {p : Plan} {rs : List Record} {s : Store}

theorem sized_self {m : String} {o : FormatOptions} (ho : r.formats.options? m = some o) :
    r.sized m ⟨o.pageSize, r.settings.scanBatchSize⟩ = r := by
  obtain ⟨e, he, rfl⟩ := Option.map_eq_some_iff.1 ho
  have hresize : r.formats.resize m e.options.pageSize = r.formats := by
    simp only [FormatRegistry.resize, he]
    rw [OrderedMap.insert_of_find? he]
  rw [sized, hresize]

theorem Supports.sized (h : r.Supports p) {z : Sizes} (hz : 0 < z.page) :
    (r.sized p.metadataPrefix z).Supports (p.sized z) where
  named := h.named
  registered := (FormatRegistry.options?_resize _ _ _).trans
    (congrArg (Option.map _) h.registered)
  valid := by
    obtain ⟨htypes, -, hnodup⟩ := FormatOptions.validate_eq_ok_iff.1 h.valid
    exact FormatOptions.validate_eq_ok_iff.2 ⟨htypes, hz, hnodup⟩
  resolved := h.resolved
  window := h.window
  bounds := h.bounds

theorem due_sized (hs : Shelved rs) (hp : p.InRange) (m : String) (z : Sizes) :
    (r.sized m z).due rs (p.sized z) = r.due rs p := by
  rw [due_eq hp, due_eq (p := p.sized z) hp]
  exact congrArg _ (whole_congr hs rfl)

/-- The answers to the calls of a harvest, each of which goes by sizes of its own. -/
def answerSized (r : Repository) (m : String) (sizes : Nat → Sizes) (s : Store) (i : Nat) :
    ListRequest → Except Fault Page :=
  (r.sized m (sizes i)).answer s

/-- Some pages exhaust a plan from a call on: they list what is due, in order, but for what may be
skipped between them, and every page but the last has the size of its call. -/
structure Exhausts (r : Repository) (rs : List Record) (p : Plan) (sizes : Nat → Sizes) (i : Nat)
    (pages : List Page) : Prop where
  complete : IsComplete pages
  sublist : (pages.flatMap Page.records).Sublist ((r.due rs p).map Prod.snd)
  listed : ∀ e ∈ r.due rs p, e.2 ∈ pages.flatMap Page.records ∨ Skippable pages e.2
  aligned : (∀ e ∈ r.due rs p, e.2.modified.IsAligned) → TokensAligned pages
  full : ∀ j page, pages[j]? = some page → page.isTerminal = false →
    page.records.length = (sizes (i + j)).page

section Exhausts

variable {sizes : Nat → Sizes} {i : Nat} {page : Page} {pages : List Page}

theorem exhausts_last (hnext : page.next = none)
    (hrecords : page.records = (r.due rs p).map Prod.snd) : r.Exhausts rs p sizes i [page] where
  complete := ⟨page, rfl, congrArg Option.isNone hnext⟩
  sublist := by rw [List.flatMap_singleton, hrecords]
  listed e he := by
    rw [List.flatMap_singleton, hrecords]
    exact .inl (List.mem_map_of_mem he)
  aligned _ page' hpage t ht := by
    rw [List.mem_singleton.1 hpage, hnext] at ht
    cases ht
  full j page' hj hpartial := by
    obtain ⟨rfl, rfl⟩ : j = 0 ∧ page = page' := by simpa [List.getElem?_singleton] using hj
    rw [Page.isTerminal, hnext] at hpartial
    cases hpartial

/-- A full page in front of pages that exhaust the plan behind its token. -/
theorem Exhausts.cons (h : r.Exhausts rs (p.after e) sizes (i + 1) pages) (hrs : Shelved rs)
    (hrange : p.InRange) (hrange' : (p.after e).InRange) (hbounds : AlignedBounds p.since p.upTo)
    (hindex : e.1 ≤ 6) (hnext : page.next = some (p.tokenAt e))
    (hrecords : page.records = ((r.due rs p).take (sizes i).page).map Prod.snd)
    (hlast : ((r.due rs p).take (sizes i).page).getLast? = some e)
    (hlt : (sizes i).page < (r.due rs p).length) : r.Exhausts rs p sizes i (page :: pages) := by
  have hleft := due_after hrs hrange hrange' hlast hindex
  have hcut : (r.due rs p).map Prod.snd = page.records ++
      ((r.due rs p).drop (sizes i).page).map Prod.snd := by
    rw [hrecords, ← List.map_append, List.take_append_drop]
  have hdue : ∀ x ∈ r.due rs (p.after e), x ∈ r.due rs p := by
    intro x hx
    rw [hleft] at hx
    exact List.mem_of_mem_drop (List.mem_of_mem_filter hx)
  refine ⟨isComplete_cons h.complete, ?_, fun x hx => ?_, fun haligned => ?_, ?_⟩
  · rw [List.flatMap_cons, hcut]
    refine (List.Sublist.refl _).append (h.sublist.trans ?_)
    rw [hleft]
    exact List.filter_sublist.map _
  · rw [List.flatMap_cons, List.mem_append, hrecords]
    rw [← List.take_append_drop (sizes i).page (r.due rs p), List.mem_append] at hx
    obtain hx | hx := hx
    · exact .inl (.inl (List.mem_map_of_mem hx))
    by_cases hbehind : (spotOf e).carry < spotOf x
    · have hin : x ∈ r.due rs (p.after e) := by
        rw [hleft]
        exact List.mem_filter.2 ⟨hx, decide_eq_true hbehind⟩
      exact (h.listed x hin).imp .inr fun hskippable => hskippable.cons page
    · exact .inr (skippable_of_not_lt hrs hrange hlast hx hbehind hnext pages)
  · refine List.forall_mem_cons.2 ⟨fun t ht => ?_, h.aligned fun x hx => haligned x (hdue x hx)⟩
    obtain rfl : p.tokenAt e = t := Option.some.inj (hnext.symm.trans ht)
    exact ⟨hbounds, haligned e (List.mem_of_mem_take (List.mem_of_getLast? hlast))⟩
  · intro j page' hj hpartial
    cases j with
    | zero =>
      cases hj
      rw [hrecords, List.length_map, List.length_take]
      exact Nat.min_eq_left (Nat.le_of_lt hlt)
    | succ j =>
      rw [show i + (j + 1) = i + 1 + j by omega]
      exact h.full j page' hj hpartial

/-- If nothing is skipped, the pages list all that is due. -/
theorem Exhausts.records_eq (h : r.Exhausts s.records p sizes i pages) (hs : s.WellFormed)
    (hrange : p.InRange) (htypes : p.options.recordTypes.Nodup)
    (hkeeps : ∀ e ∈ r.due s.records p, ¬ Skippable pages e.2) :
    pages.flatMap Page.records = (r.due s.records p).map Prod.snd := by
  have hnodup : ((r.due s.records p).map Prod.snd).Nodup := by
    rw [due_eq hrange]
    refine List.pairwise_map.2 (((pairwise_uri_whole hs htypes).imp fun hne heq => ?_).filter _)
    exact hne (congrArg Record.uri heq)
  refine h.sublist.eq_of_length_le (List.subperm_of_subset hnodup fun x hx => ?_).length_le
  obtain ⟨e, he, rfl⟩ := List.mem_map.1 hx
  exact (h.listed e he).resolve_right (hkeeps e he)

end Exhausts

/-- **From any start on, a harvest comes to an end**, and its pages exhaust what is due there,
however they are cut. -/
theorem harvest_from (hs : s.WellFormed) (h : r.Supports p) (sizes : Nat → Sizes)
    (hsizes : ∀ i, 0 < (sizes i).page) (i : Nat) (q : ListRequest)
    (hq : (r.sized p.metadataPrefix (sizes i)).planned q = .ok (p.sized (sizes i)))
    (hfit : ∀ n pages, harvest r.codec (r.answerSized p.metadataPrefix sizes s) n i q = .ok pages →
      TokensFit r.codec pages) :
    ∃ n pages, harvest r.codec (r.answerSized p.metadataPrefix sizes s) n i q = .ok pages ∧
      r.Exhausts s.records p sizes i pages := by
  -- every page that is not the last leaves less than was due
  generalize hk : (r.due s.records p).length = k
  induction k using Nat.strongRecOn generalizing p i q with
  | _ k ih =>
  subst hk
  have hshelved : Shelved s.records := Store.shelved_records hs
  have hrange : p.InRange := inRange_of_planned (p := p.sized (sizes i)) hq
  have hdue := due_sized (r := r) hshelved hrange p.metadataPrefix (sizes i)
  have hanswer : r.answerSized p.metadataPrefix sizes s i q =
      .ok ((r.sized p.metadataPrefix (sizes i)).pageOver s.records (p.sized (sizes i))) :=
    answer_of_planned hs hq
  have hwhole : ∀ j, (r.sized p.metadataPrefix (sizes j)).whole s.records (p.sized (sizes j)) =
      r.whole s.records p := fun j => whole_congr hshelved rfl
  obtain ⟨hnext, hrecords⟩ | ⟨e, hlast, hnext, hlt⟩ := pageOver_cases (p := p.sized (sizes i))
    (r.sized p.metadataPrefix (sizes i)) s.records (hsizes i)
  · -- the last page holds all that is due
    rw [hdue] at hrecords
    exact ⟨1, _, harvest_terminal hanswer hnext, exhausts_last hnext hrecords⟩
  · -- a full page leaves less, and its token leads behind its last record
    rw [hdue] at hlast hlt
    obtain ⟨hmem, -⟩ := mem_whole_of_last hrange hlast
    have hwire : (r.codec.serialize (p.tokenAt e)).utf8ByteSize ≤ Codec.maxLength := by
      have hone := hfit 1 _ (harvest_partial hanswer hnext)
      exact hone _ List.mem_cons_self _ hnext
    have hplan := planned_resume (h.sized (hsizes (i + 1))) ((hwhole (i + 1)).symm ▸ hmem) hwire
    have hrange' : (p.after e).InRange :=
      inRange_of_planned (p := (p.after e).sized (sizes (i + 1))) hplan
    have hless : (r.due s.records (p.after e)).length < (r.due s.records p).length :=
      length_due_after_lt hshelved hrange hrange' hlast (h.index_le hmem)
    -- the tokens that follow fit, as they are those of a run of this harvest that is longer by one
    have hfit' : ∀ n pages, harvest r.codec (r.answerSized p.metadataPrefix sizes s) n (i + 1)
        (.resume (r.codec.serialize (p.tokenAt e))) = .ok pages → TokensFit r.codec pages := by
      intro n pages hpages page hpage
      have hmore := hfit (n + 1) _ ((harvest_partial hanswer hnext).trans (congrArg _ hpages))
      exact hmore page (List.mem_cons_of_mem _ hpage)
    obtain ⟨n, pages, hpages, hexhausts⟩ := ih _ hless (h.after e) (i + 1) _ hplan hfit' rfl
    have hrecords : ((r.sized p.metadataPrefix (sizes i)).pageOver s.records
        (p.sized (sizes i))).records = ((r.due s.records p).take (sizes i).page).map Prod.snd := by
      rw [pageOver, hdue]
      rfl
    exact ⟨n + 1, _, (harvest_partial hanswer hnext).trans (congrArg _ hpages),
      hexhausts.cons hshelved hrange hrange' h.bounds (h.index_le hmem) hnext hrecords hlast hlt⟩

/-- A repository whose hidden records are listed as deleted. -/
def sample : Repository where
  settings :=
    { tokenSecret := "secret"
      hiddenPolicy := .tombstone
      repositories := [{ id := 9, code := "ELS", disabled := true }] }
  formats := .standard
  explain := plainWords

/-- The small repository with pages of one record. -/
def sampleSingles : Repository := sample.sized "oai_dc" ⟨1, 0⟩

/-- The plan of a listing by single records. -/
def singlesPlan : Plan where
  metadataPrefix := "oai_dc"
  set := none
  rule := none
  since := none
  upTo := none
  options := { recordTypes := [.resource, .archivalObject], pageSize := 1 }
  start := none

theorem supports_singlesPlan : sampleSingles.Supports singlesPlan :=
  ⟨by decide, rfl, rfl, rfl, by rintro s u ⟨⟩, alignedBounds_none⟩

/-- Modified in a leap second at the start of 1970. -/
def leapRecord : Record :=
  .plain .resource 1 2 "HOU" { Instant.epoch with nanos := 1500000000, nanos_lt := by decide }

/-- Modified in the second behind that one. -/
def nextRecord : Record := .plain .resource 2 2 "HOU" { seconds := 1, nanos := 200000000 }

/-- An archive with a record in a leap second inside a minute. -/
def leapStore : Store := Store.empty.writes [.upsert leapRecord, .upsert nextRecord]

/-- A page ends with a record in a leap second inside a minute, and the record behind it is
skipped. -/
theorem harvest_skips : ∃ pages,
    harvest sample.codec (sample.answerSized "oai_dc" (fun _ => ⟨1, 0⟩) leapStore) 2 0
      { metadataPrefix := some "oai_dc" } = .ok pages ∧
    IsComplete pages ∧
    (pages.flatMap Page.records).map Record.uri = [leapRecord.uri] ∧
    ((sample.scope singlesPlan).reference leapStore.records).map Record.uri =
      [leapRecord.uri, nextRecord.uri] := by
  have hwell : leapStore.WellFormed := Store.Reachable.wellFormed ⟨_, rfl⟩
  have hplan := planned_request supports_singlesPlan
  have hlast : ((sampleSingles.due leapStore.records singlesPlan).take 1).getLast? =
      some (0, leapRecord) := rfl
  have hresumed := planned_resume supports_singlesPlan
    (mem_whole_of_last (inRange_of_planned hplan) hlast).1
    (Nat.le_trans (Codec.utf8ByteSize_serialize_le _ _) (by decide))
  have hfirst : sample.answerSized "oai_dc" (fun _ => ⟨1, 0⟩) leapStore 0 singlesPlan.request =
      .ok (sampleSingles.pageOver leapStore.records singlesPlan) := answer_of_planned hwell hplan
  have hnext : (sampleSingles.pageOver leapStore.records singlesPlan).next =
      some (singlesPlan.tokenAt (0, leapRecord)) := rfl
  have hsecond : sample.answerSized "oai_dc" (fun _ => ⟨1, 0⟩) leapStore 1
      (.resume (sample.codec.serialize (singlesPlan.tokenAt (0, leapRecord)))) =
        .ok (sampleSingles.pageOver leapStore.records (singlesPlan.after (0, leapRecord))) :=
    answer_of_planned hwell hresumed
  have hend : (sampleSingles.pageOver leapStore.records
      (singlesPlan.after (0, leapRecord))).next = none := by decide +kernel
  refine ⟨[sampleSingles.pageOver leapStore.records singlesPlan,
    sampleSingles.pageOver leapStore.records (singlesPlan.after (0, leapRecord))], ?_,
    ⟨_, rfl, congrArg Option.isNone hend⟩, by decide +kernel, ?_⟩
  · have hrun := harvest_partial (c := sample.codec) (n := 1) hfirst hnext
    rw [harvest_terminal hsecond hend] at hrun
    exact hrun
  · rw [Scope.reference]
    simp only [Scope.sorted_eq (Store.shelved_records hwell)]
    decide +kernel

end Repository

end Harvest
