import Harvest.Proofs.Provider.ListFaults

/-!
# Fallbacks that are never taken

At seven places the library has something to do in case another part has not kept its word: a format
has no mapper, a page is cut down to nothing, a listing names no format, and so on.  `Fallbacks`
holds what is done at each of these places, and `Fallbacks.respond` is the response of a provider
that does this instead of what the library does.

* `Fallbacks.respond_standard` : with the fallbacks of the library this is the response of the
  library, for any provider.  So they do stand at the places in question.
* `Provider.fallbacks_never_taken` : **for a provider that was made, it makes no difference what the
  fallbacks are**: over any source, for any request and at any time, the result, the state of the
  source and the log are the same.

What shuts a place off is established elsewhere.  A provider that was made has mappers for its
formats (`Provider.contains_of_make`) and room on its pages (`Provider.pageSize_pos`).  A request
that fits its verb has the arguments that the verb needs (`Request.exists_of_getRecord`,
`Provider.listing_cases`), so that a listing has a token or a format
(`Provider.named_of_listRequest`).  And the token of a page that was found can be read
(`Provider.exists_formatOfPage`).

This is about what the library does itself: a source or a mapper may still raise a fault with the
words of one of the library's.
-/

namespace Harvest

open Engine

/-- What is done at the places that should not be reached. -/
structure Fallbacks where
  /-- The metadata of a record in a format without a mapper. -/
  unmapped : String → Record → Except Fault String
  /-- The page of a walk that is cut down to nothing. -/
  cutAway : Page
  /-- The plan of a listing from the start that names no format. -/
  unplanned : Except Fault Plan
  /-- The format that is asked for where a request names none. -/
  assumed : String
  /-- The format of a page that neither a token nor the request names. -/
  unnamed : Except Fault String
  /-- The format of a page if the token of the request cannot be read again. -/
  unread : Fault → Except Fault String
  /-- The answer to a request for one record that lacks its identifier or its format. -/
  incomplete : Except Fault Xml

namespace Fallbacks

/-- The fallbacks of the library. -/
def standard : Fallbacks where
  unmapped m _ := .error (.noMapper m)
  cutAway := ⟨[], none⟩
  unplanned := .error .missingPrefix
  assumed := ""
  unnamed := .error .missingPrefix
  unread := .error
  incomplete := .error .incompleteGetRecord

variable {σ : Type} (fb : Fallbacks) (r : Repository) (p : Provider) (src : Source σ)

/-! ### Responses with other fallbacks -/

/-- The plan of a request, which may name neither a token nor a format. -/
def plan (l : ListRequest) : Engine σ Plan :=
  match l.token, l.metadataPrefix with
  | none, none => ofExcept fb.unplanned
  | _, _ => r.plan l

/-- The page that a walk has filled, which may be cut down to nothing. -/
def page (plan : Plan) (w : Walk) : Page :=
  if plan.options.pageSize < w.accepted.length ∧
      (w.accepted.take plan.options.pageSize).isEmpty then fb.cutAway
  else Repository.page plan w

/-- The next page of a listing. -/
def find (l : ListRequest) : Engine σ Page := do
  let plan ← fb.plan r l
  let (index, after) : Nat × Option Cursor := match plan.start with
    | some position => (position.typeIndex.toNat, some position.last)
    | none => (0, none)
  let w ← (r.pass plan).walk src index (plan.options.recordTypes.drop index)
    (plan.options.pageSize + 1) after
  tell [Repository.pageLine plan w]
  return fb.page plan w

/-- The provider with a mapper for a format, even if it has none of its own. -/
def equip (m : String) : Provider :=
  if p.mappers.contains m then p
  else { p with mappers := p.mappers.register m (fb.unmapped m) }

/-- The answer to `GetRecord`. -/
def getRecord (q : Request) : Engine σ Xml :=
  match q.identifier, q.metadataPrefix with
  | some _, some m => (fb.equip p m).getRecord src q
  | _, _ => ofExcept fb.incomplete

/-- What a listing asks for, in a format that may be assumed. -/
def listRequest (q : Request) : Except Fault ListRequest :=
  -- a request with a token is for that alone, so that filling in a format changes nothing there
  Provider.listRequest { q with metadataPrefix := some (q.metadataPrefix.getD fb.assumed) }

/-- The format of a page. -/
def formatOfPage (q : Request) (page : Page) : Except Fault String :=
  match page.next, q.metadataPrefix, q.resumptionToken with
  | some t, _, _ => .ok t.metadataPrefix
  | none, some m, _ => .ok m
  | none, none, some raw =>
    match p.repository.codec.deserialize raw with
    | .ok t => .ok t.metadataPrefix
    | .error f => fb.unread f
  | none, none, none => fb.unnamed

/-- The answer to `ListIdentifiers` and `ListRecords`. -/
def list (verb : Verb) (q : Request) : Engine σ Xml := do
  let l ← ofExcept (fb.listRequest q)
  let page ← fb.find p.repository src l
  let m ← ofExcept (fb.formatOfPage p q page)
  if page.records.isEmpty && q.resumptionToken.isNone then fail .emptyListing
  else
    let elements ← ofExcept (page.records.mapM ((fb.equip p m).listElement verb m))
    return .node verb.name (elements ++ p.tokenElements q page)

/-- The answer to a request whose arguments fit its verb. -/
def answer (q : Request) : Verb → Engine σ Xml
  | .getRecord => fb.getRecord p src q
  | .listIdentifiers => fb.list p src .listIdentifiers q
  | .listRecords => fb.list p src .listRecords q
  | verb => p.answer src q verb

/-- Validate a request and answer it. -/
def dispatch (q : Request) : Engine σ Xml := do
  let verb ← ofExcept q.validate
  fb.answer p src q verb

/-- The response to a request at a time. -/
def response (q : Request) (now : Instant) : Engine σ Xml := do
  match ← attempt (fb.dispatch p src q) with
  | .ok body => return p.envelope q.arguments now body
  | .error f =>
    match f.code? with
    | some code =>
      note .debug (code ++ ": " ++ f.detail)
      return p.envelope (Provider.echoed q f) now (Provider.errorElement code f)
    | none =>
      note .error ("request failed: " ++ f.message)
      fail f

/-- The text of the response to a request at a time. -/
def respond (q : Request) (now : Instant) : Engine σ String := do
  let x ← fb.response p src q now
  return x.document

/-! ### Where no fallback is taken -/

section Congruence

variable {fb r p src} {l : ListRequest} {q : Request} {verb : Verb} {m : String} {x : Record}

theorem plan_of_named (h : l.token ≠ none ∨ l.metadataPrefix ≠ none) :
    (fb.plan r l : Engine σ Plan) = r.plan l := by
  unfold plan
  split
  · rename_i htoken hformat
    rcases h with h | h
    · exact absurd htoken h
    · exact absurd hformat h
  · rfl

theorem page_of_room {plan : Plan} (h : 0 < plan.options.pageSize) (w : Walk) :
    fb.page plan w = Repository.page plan w := by
  refine if_neg fun ⟨hlt, hempty⟩ => ?_
  -- what is cut to a positive size is empty only if it was so before
  rw [List.isEmpty_iff, List.take_eq_nil_iff] at hempty
  rcases hempty with hsize | hnone
  · exact absurd hsize (Nat.ne_of_gt h)
  · rw [hnone] at hlt
    exact absurd hlt (Nat.not_lt_zero _)

/-- A page without room is cut down to nothing. -/
example (o : FormatOptions) (x : Nat × Record) : fb.page
    ⟨"oai_dc", none, none, none, none, { o with pageSize := 0 }, none⟩ ⟨[x], 1⟩ = fb.cutAway := rfl

theorem equip_of_contains (h : p.mappers.contains m = true) : fb.equip p m = p := if_pos h

theorem listRequest_of_named (h : q.resumptionToken ≠ none ∨ q.metadataPrefix ≠ none) :
    fb.listRequest q = Provider.listRequest q := by
  unfold listRequest Provider.listRequest
  cases htoken : q.resumptionToken with
  | some token => rfl
  | none =>
    obtain ⟨m, hm⟩ := Option.ne_none_iff_exists'.1 (h.resolve_left (not_not.2 htoken))
    simp only [Provider.freshRequest, hm, Option.getD_some]

theorem formatOfPage_of_ok {page : Page} (h : p.formatOfPage q page = .ok m) :
    fb.formatOfPage p q page = .ok m := by
  unfold formatOfPage
  unfold Provider.formatOfPage at h
  cases hnext : page.next with
  | some t => simpa only [hnext] using h
  | none =>
    cases hm : q.metadataPrefix with
    | some m' => simpa only [hnext, hm] using h
    | none =>
      cases htoken : q.resumptionToken with
      | none => simp only [hnext, hm, htoken, reduceCtorEq] at h
      | some raw =>
        simp only [hnext, hm, htoken] at h
        obtain ⟨t, ht, rfl⟩ := map_eq_ok_iff.1 h
        simp only [ht]

theorem find_congr (hplan : (fb.plan r l : Engine σ Plan) = r.plan l)
    (hpage : ∀ plan, r.planned l = .ok plan → ∀ w, fb.page plan w = Repository.page plan w) :
    fb.find r src l = r.find src l := by
  unfold find Repository.find
  rw [hplan]
  refine bind_congr_of_ok fun s plan h => ?_
  rw [(Repository.ensures_plan (I := fun _ => True) r l s trivial).1] at h
  cases plan.start with
  | none => simp only [hpage plan h]
  | some position => simp only [hpage plan h]

theorem getRecord_congr (hm : q.metadataPrefix = some m)
    (h : ∀ s uri x, ((p.repository.fetch src uri m).run s).result = .ok x →
      (fb.equip p m).recordElement m x = p.recordElement m x) :
    (fb.equip p m).getRecord src q = p.getRecord src q := by
  have hparts : (fb.equip p m).repository = p.repository ∧ (fb.equip p m).uriOf = p.uriOf := by
    unfold equip
    split_ifs <;> exact ⟨rfl, rfl⟩
  unfold Provider.getRecord
  rw [hm, hparts.1, hparts.2]
  cases q.identifier with
  | none => rfl
  | some identifier =>
    refine ofExcept_bind_congr fun uri _ => bind_congr_of_ok fun s x hx => ?_
    rw [h s uri x hx]

theorem list_congr (hrequest : fb.listRequest q = Provider.listRequest q)
    (hfind : ∀ l, Provider.listRequest q = .ok l →
      fb.find p.repository src l = p.repository.find src l)
    (hformat : ∀ s l page, Provider.listRequest q = .ok l →
      ((p.repository.find src l).run s).result = .ok page →
        fb.formatOfPage p q page = p.formatOfPage q page)
    (helement : ∀ s l page m, Provider.listRequest q = .ok l →
      ((p.repository.find src l).run s).result = .ok page → p.formatOfPage q page = .ok m →
        (fb.equip p m).listElement verb m = p.listElement verb m) :
    fb.list p src verb q = p.list src verb q := by
  unfold list Provider.list
  rw [hrequest]
  refine ofExcept_bind_congr fun l hl => ?_
  rw [hfind l hl]
  refine bind_congr_of_ok fun s page hpage => ?_
  rw [hformat s l page hl hpage]
  refine ofExcept_bind_congr fun m hm => ?_
  rw [helement s l page m hl hpage hm]

theorem respond_congr {now : Instant}
    (hrecord : q.validate = .ok .getRecord → fb.getRecord p src q = p.getRecord src q)
    (hlist : ∀ verb, q.validate = .ok verb → verb.IsListing →
      fb.list p src verb q = p.list src verb q) :
    fb.respond p src q now = p.respond src q now := by
  have hdispatch : fb.dispatch p src q = p.dispatch src q := by
    refine ofExcept_bind_congr fun verb hverb => ?_
    cases verb with
    | identify | listMetadataFormats | listSets => rfl
    | getRecord => exact hrecord hverb
    | listIdentifiers => exact hlist _ hverb (.inl rfl)
    | listRecords => exact hlist _ hverb (.inr rfl)
  rw [respond, response, hdispatch]
  rfl

end Congruence

/-! ### The fallbacks of the library -/

section Standard

variable {r p src} {l : ListRequest} {q : Request} {verb : Verb} {m : String} {x : Record}

theorem plan_standard : (standard.plan r l : Engine σ Plan) = r.plan l := by
  unfold plan Repository.plan Repository.planFresh
  cases l.token with
  | some raw => rfl
  | none => cases l.metadataPrefix <;> rfl

theorem page_standard (plan : Plan) (w : Walk) : standard.page plan w = Repository.page plan w := by
  unfold page
  split_ifs with hcut
  · obtain ⟨hlt, hempty⟩ := hcut
    rw [Repository.page_eq_take, if_neg (Nat.not_le.2 hlt), List.isEmpty_iff.1 hempty]
    rfl
  · rfl

theorem find_standard : standard.find r src l = r.find src l :=
  find_congr plan_standard fun plan _ => page_standard plan

theorem formatOfPage_standard (page : Page) :
    standard.formatOfPage p q page = p.formatOfPage q page := by
  unfold formatOfPage Provider.formatOfPage
  cases page.next with
  | some t => rfl
  | none =>
    cases q.metadataPrefix with
    | some m => rfl
    | none =>
      cases q.resumptionToken with
      | none => rfl
      | some raw =>
        simp only
        cases p.repository.codec.deserialize raw <;> rfl

theorem recordElement_standard : (standard.equip p m).recordElement m x = p.recordElement m x := by
  unfold equip
  split_ifs with hm
  · rfl
  · have hnone : p.mappers.mappers.find? m = none := Option.not_isSome_iff_eq_none.1 hm
    have hmap : (p.mappers.register m (standard.unmapped m)).map m x = p.mappers.map m x := by
      simp only [MapperRegistry.map, MapperRegistry.register, OrderedMap.find?_insert, hnone,
        if_true]
      rfl
    simp only [Provider.recordElement, hmap]
    rfl

theorem listElement_standard : (standard.equip p m).listElement verb m = p.listElement verb m := by
  funext x
  have hheader : (standard.equip p m).header x = p.header x := by
    unfold equip
    split_ifs <;> rfl
  rw [Provider.listElement, Provider.listElement, recordElement_standard, hheader]

theorem getRecord_standard : standard.getRecord p src q = p.getRecord src q := by
  unfold getRecord
  cases hidentifier : q.identifier with
  | none =>
    simp only [Provider.getRecord, hidentifier]
    rfl
  | some identifier =>
    cases hm : q.metadataPrefix with
    | none =>
      simp only [Provider.getRecord, hidentifier, hm]
      rfl
    | some m => exact getRecord_congr hm fun _ _ _ _ => recordElement_standard

theorem list_standard : standard.list p src verb q = p.list src verb q :=
  list_congr rfl (fun _ _ => find_standard) (fun _ _ page _ _ => formatOfPage_standard page)
    fun _ _ _ _ _ _ _ => listElement_standard

/-- **With the fallbacks of the library, responses are those of the library.** -/
theorem respond_standard (p : Provider) (src : Source σ) (q : Request) (now : Instant) :
    standard.respond p src q now = p.respond src q now :=
  respond_congr (fun _ => getRecord_standard) fun _ _ _ => list_standard

end Standard

end Fallbacks

namespace Provider

variable {σ τ : Type} {settings : Settings} {mappers : MapperRegistry} {explain : Explanation}
  {p : Provider} {t : τ}
  {src : Source σ} {q : Request} {verb : Verb} {l : ListRequest}

/-! ### Providers that were made -/

/-- What a listing asks for has a token or a format. -/
theorem named_of_listRequest (h : listRequest q = .ok l) :
    l.token ≠ none ∨ l.metadataPrefix ≠ none := by
  cases htoken : q.resumptionToken with
  | some token =>
    rw [listRequest, htoken] at h
    cases h
    exact .inl (Option.some_ne_none token)
  | none =>
    rw [listRequest, htoken] at h
    obtain ⟨-, -, hformat⟩ := of_freshRequest h
    exact .inr (by simp [hformat])

theorem exists_options_of_fetch {s : σ} {uri m : String} {x : Record}
    (h : ((p.repository.fetch src uri m).run s).result = .ok x) :
    ∃ o, p.formats.options? m = some o := by
  rw [Repository.fetch, result_ofExcept_bind] at h
  obtain ⟨o, ho, -⟩ := bind_eq_ok_iff.1 h
  exact ⟨o, FormatRegistry.optionsFor_eq_ok_iff.1 ho⟩

theorem pageSize_pos (hp : ((make settings mappers explain).run t).result = .ok p) {plan : Plan}
    (hplan : p.repository.planned l = .ok plan) : 0 < plan.options.pageSize := by
  obtain ⟨-, hvalid⟩ := isStandard_of_make hp _ _ (Repository.options_of_planned hplan)
  exact (FormatOptions.validate_eq_ok_iff.1 hvalid).2.1

theorem getRecord_of_make (hp : ((make settings mappers explain).run t).result = .ok p)
    (hq : q.validate = .ok .getRecord) (fb : Fallbacks) :
    fb.getRecord p src q = p.getRecord src q := by
  obtain ⟨identifier, m, hidentifier, hm⟩ := Request.exists_of_getRecord hq
  unfold Fallbacks.getRecord
  rw [hidentifier, hm]
  -- a format without a mapper is not registered, and then no record is fetched
  refine Fallbacks.getRecord_congr hm fun s uri x hx => ?_
  obtain ⟨o, ho⟩ := exists_options_of_fetch hx
  rw [Fallbacks.equip_of_contains (contains_of_make hp ho)]

theorem list_of_make (hp : ((make settings mappers explain).run t).result = .ok p)
    (hq : q.validate = .ok verb) (hverb : verb.IsListing) (fb : Fallbacks) :
    fb.list p src verb q = p.list src verb q := by
  have hnamed : q.resumptionToken ≠ none ∨ q.metadataPrefix ≠ none := by
    obtain ⟨raw, hraw, -⟩ | ⟨-, m, hm⟩ := listing_cases hq hverb
    · exact .inl (by simp [hraw])
    · exact .inr (by simp [hm])
  refine Fallbacks.list_congr (Fallbacks.listRequest_of_named hnamed) (fun l hl => ?_)
    (fun s l page hl hpage => ?_) fun s l page m hl hpage hm => ?_
  · exact Fallbacks.find_congr (Fallbacks.plan_of_named (named_of_listRequest hl))
      fun plan hplan => Fallbacks.page_of_room (pageSize_pos hp hplan)
  · -- the token of a page that was found has been read once
    obtain ⟨m, -, hm, -⟩ := exists_formatOfPage hq hverb hl hpage
    rw [hm, Fallbacks.formatOfPage_of_ok hm]
  · obtain ⟨m', o, hm', ho⟩ := exists_formatOfPage hq hverb hl hpage
    obtain rfl : m' = m := Except.ok.inj (hm'.symm.trans hm)
    rw [Fallbacks.equip_of_contains (contains_of_make hp ho)]

/-- **Fallbacks are never taken.**  With the fallbacks of the library, responses are those of the
library.  If the provider was made, they are the same with any others, whatever the source is and
whatever is asked for: the text or the fault, the state that is left and the log. -/
theorem fallbacks_never_taken (p : Provider) (src : Source σ) (q : Request) (now : Instant) :
    Fallbacks.standard.respond p src q now = p.respond src q now ∧
    (((make settings mappers explain).run t).result = .ok p →
      ∀ fb : Fallbacks, fb.respond p src q now = p.respond src q now) := by
  refine ⟨Fallbacks.respond_standard p src q now, fun hp fb => ?_⟩
  refine Fallbacks.respond_congr (fun hq => ?_) fun verb hq hverb => ?_
  · exact getRecord_of_make hp hq fb
  · exact list_of_make hp hq hverb fb

/-- Fallbacks that show in a response. -/
def alarms : Fallbacks where
  unmapped _ _ := .error ⟨.store, "alarm"⟩
  cutAway := ⟨[Store.sampleLetter], none⟩
  unplanned := .error ⟨.store, "alarm"⟩
  assumed := "alarm"
  unnamed := .error ⟨.store, "alarm"⟩
  unread _ := .error ⟨.store, "alarm"⟩
  incomplete := .error ⟨.store, "alarm"⟩

/-- A provider whose formats have lost their mappers. -/
def unequipped : Provider := { readable with mappers := .empty }

/-- A request for what comes after the first collection. -/
def lastRequest : Request where
  verb := some "ListRecords"
  resumptionToken := some (readable.repository.codec.serialize Repository.betweenToken)

/-- The plan of this request. -/
def lastPlan : Plan := { samplePlan with start := some Repository.betweenToken.position }

/-- The request is for a last page, so that the format has to be read from its token again. -/
theorem exists_lastPage : ∃ l page, listRequest lastRequest = .ok l ∧
    ((readable.repository.find Store.source l).run Store.sample).result = .ok page ∧
      page.next = none ∧ page.records.isEmpty = false := by
  have hread := Codec.deserialize_serialize_of_short readable.repository.codec
    Repository.betweenToken (by decide) (by decide)
  have hplan : readable.repository.planned
      (.resume (readable.repository.codec.serialize Repository.betweenToken)) = .ok lastPlan := by
    refine (Repository.planned_resumed_eq_ok_iff rfl).2 ⟨_, hread, ?_, by rintro a b ⟨⟩⟩
    exact Repository.planResumed_eq_ok_iff.2 ⟨rfl, _, none, rfl, by decide, rfl, rfl⟩
  have hserves := Store.serves Store.sample_reachable.wellFormed
  have hpage : ((readable.repository.pageOver Store.sample.records lastPlan).isTerminal &&
      !(readable.repository.pageOver Store.sample.records lastPlan).records.isEmpty) = true := by
    decide +kernel
  rw [Page.isTerminal, Bool.and_eq_true, Option.isNone_iff_eq_none, Bool.not_eq_true'] at hpage
  refine ⟨_, _, rfl, ?_, hpage⟩
  rw [(Repository.ensures_find hserves _ _ rfl).1, hplan]
  rfl

/-- A provider that was made raises no alarm, not even for a last page.  Without its mappers it
does. -/
theorem fallbacks_never_taken_lastPage :
    ((make sampleSettings uriMappers plainWords).run ()).result = .ok readable ∧
    (∃ l page, listRequest lastRequest = .ok l ∧
      ((readable.repository.find Store.source l).run Store.sample).result = .ok page ∧
        page.next = none ∧ page.records.isEmpty = false) ∧
    alarms.respond readable Store.source lastRequest (Store.sampleTime 60) =
      readable.respond Store.source lastRequest (Store.sampleTime 60) ∧
    ((alarms.respond unequipped Store.source letterRequest (Store.sampleTime 60)).run
      Store.sample).result = .error ⟨.store, "alarm"⟩ := by
  have hsame := (fallbacks_never_taken readable Store.source lastRequest (Store.sampleTime 60)).2
    make_readable alarms
  exact ⟨make_readable, exists_lastPage, hsame, rfl⟩

end Provider

end Harvest
