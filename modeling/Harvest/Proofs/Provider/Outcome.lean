import Harvest.Proofs.Provider.ListFaults

/-!
# What a request comes to

A provider answers a request, says in a fault of the protocol why it does not, or passes a failure
on.  Which of these it is depends on where a fault comes from: `Provider.Cause` lists the ways for
an answer to fail, and `Provider.ListFault` those of a listing.

* Only failures of the source or of a mapper are passed on, and answers out of order.  Over a store,
  with mappers that always succeed, nothing is.
* Every other response has one body, the answer to the verb or the element of the fault, and it
  repeats the arguments unless they are at fault.
* A listing without a token has no records exactly when the first page is empty, and the way it ends
  says whether there is more (`Provider.ListOutcome`).

All of this is said at once by `Provider.respond_outcome`, for any source.
-/

namespace Harvest

open Engine

/-- The verbs that may be about one record. -/
def Verb.IsAboutOne (v : Verb) : Prop := v = .getRecord ∨ v = .listMetadataFormats

theorem Fault.code?_eq_none_iff {f : Fault} : f.code? = none ↔
    f.kind = .store ∨ f.kind = .mapping ∨ f.kind = .config ∨ f.kind = .io := by
  unfold Fault.code?
  cases f.kind <;> simp [Fault.Kind.code?]

theorem Codec.serialize_ne_empty (c : Codec) (t : ResumptionToken) : c.serialize t ≠ "" := by
  intro h
  have hlist := congrArg String.toList h
  simp [serialize, version] at hlist

namespace Provider

variable {σ : Type} {p : Provider} {src : Source σ} {s : σ} {q : Request} {verb : Verb}
  {l : ListRequest} {page : Page} {m uri : String} {x : Record} {f : Fault}

/-! ### Causes -/

/-- Where a fault comes from that an answer fails with. -/
inductive Cause (p : Provider) (src : Source σ) (s : σ) (q : Request) (f : Fault) : Prop
  /-- It is one of the protocol. -/
  | own (h : f.isProtocol = true)
  /-- The repository has no page. -/
  | find {verb : Verb} (hq : q.validate = .ok verb) (hverb : verb.IsListing) {l : ListRequest}
    (hl : listRequest q = .ok l) (h : ((p.repository.find src l).run s).result = .error f)
  /-- The source does not look the record up. -/
  | get {verb : Verb} (hq : q.validate = .ok verb) (hverb : verb.IsAboutOne)
    {identifier uri : String} (hidentifier : q.identifier = some identifier)
    (huri : p.uriOf identifier = .ok uri) (h : (src.get uri s).1 = .error f)
  /-- The source does not know its earliest change. -/
  | earliest (hq : q.validate = .ok .identify) (h : (src.earliest s).1 = .error f)
  /-- A mapper fails. -/
  | mapper (h : p.mappers.Fails f)

theorem cause_of_map (h : p.mappers.map m x = .error f) : p.Cause src s q f := by
  obtain rfl | hfails := MapperRegistry.map_eq_error h
  · exact .own rfl
  · exact .mapper hfails

theorem isProtocol_of_kind {k : Fault.Kind} (h : f.kind = k) (hk : k.isProtocol = true) :
    f.isProtocol = true := by
  rw [Fault.isProtocol, h, hk]

theorem ListFault.cause (hq : q.validate = .ok verb) (hverb : verb.IsListing)
    (h : p.ListFault src s q f) : p.Cause src s q f := by
  cases h with
  | argument h => exact .own (isProtocol_of_kind (kind_of_listRequest h) rfl)
  | find hl h => exact .find hq hverb hl h
  | empty _ _ _ _ h =>
    subst h
    exact .own rfl
  | mapper h => exact cause_of_map h

theorem uriOf_eq_error {identifier : String} (h : p.uriOf identifier = .error f) :
    f = .unknownIdentifier identifier := by
  unfold uriOf at h
  split at h
  · cases h
  · exact (Except.error.inj h).symm

theorem cause_of_identify (hq : q.validate = .ok .identify)
    (h : ((p.identify src).run s).result = .error f) : p.Cause src s q f := by
  have hask : ((ask src.earliest).run s).result = (src.earliest s).1 := rfl
  rw [identify, result_bind, hask] at h
  obtain h | ⟨earliest, -, h⟩ := bind_eq_error_iff.1 h
  · exact .earliest hq h
  · cases h

theorem cause_of_typeAskedFor (hq : q.validate = .ok verb) (hverb : verb.IsAboutOne)
    (h : ((p.typeAskedFor src q).run s).result = .error f) : p.Cause src s q f := by
  unfold typeAskedFor at h
  cases hidentifier : q.identifier with
  | none =>
    rw [hidentifier] at h
    cases h
  | some identifier =>
    simp only [hidentifier] at h
    rw [result_ofExcept_bind] at h
    obtain huri | ⟨uri, huri, h⟩ := bind_eq_error_iff.1 h
    · exact .own (by rw [uriOf_eq_error huri]; rfl)
    · rw [result_bind] at h
      obtain hlocate | ⟨x, -, h⟩ := bind_eq_error_iff.1 h
      · obtain hget | rfl := Repository.locate_eq_error hlocate
        · exact .get hq hverb hidentifier huri hget
        · exact .own rfl
      · cases h

theorem cause_of_listMetadataFormats (hq : q.validate = .ok .listMetadataFormats)
    (h : ((p.listMetadataFormats src q).run s).result = .error f) : p.Cause src s q f := by
  rw [listMetadataFormats, result_bind] at h
  obtain htype | ⟨t, -, h⟩ := bind_eq_error_iff.1 h
  · exact cause_of_typeAskedFor hq (.inr rfl) htype
  · simp only at h
    split_ifs at h
    · cases h
      exact .own rfl
    · cases h

theorem cause_of_listSets (h : p.listSets q = .error f) : p.Cause src s q f := by
  unfold listSets at h
  simp only at h
  split_ifs at h
  · cases h
    exact .own rfl
  · cases h
    exact .own rfl

theorem cause_of_getRecord (hq : q.validate = .ok .getRecord)
    (h : ((p.getRecord src q).run s).result = .error f) : p.Cause src s q f := by
  unfold getRecord at h
  split at h
  · rename_i identifier m hidentifier hm
    rw [result_ofExcept_bind] at h
    obtain huri | ⟨uri, huri, h⟩ := bind_eq_error_iff.1 h
    · exact .own (by rw [uriOf_eq_error huri]; rfl)
    rw [result_bind] at h
    obtain hfetch | ⟨x, -, h⟩ := bind_eq_error_iff.1 h
    · obtain hget | rfl | hkind := Repository.fetch_eq_error hfetch
      · exact .get hq (.inl rfl) hidentifier huri hget
      · exact .own rfl
      · exact .own (isProtocol_of_kind hkind rfl)
    rw [result_ofExcept_bind] at h
    obtain helement | ⟨element, -, h⟩ := bind_eq_error_iff.1 h
    · exact cause_of_map (map_of_recordElement_error helement)
    · cases h
  · cases h
    exact .own rfl

theorem isProtocol_of_validate (h : q.validate = .error f) : f.isProtocol = true := by
  obtain ⟨hkind, -⟩ | ⟨hkind, -⟩ := Request.kind_of_validate_eq_error h <;>
    exact isProtocol_of_kind hkind rfl

/-- **An answer fails only for one of these causes.** -/
theorem cause_of_dispatch (h : ((p.dispatch src q).run s).result = .error f) :
    p.Cause src s q f := by
  rw [result_dispatch] at h
  obtain hvalid | ⟨verb, hq, h⟩ := bind_eq_error_iff.1 h
  · exact .own (isProtocol_of_validate hvalid)
  cases verb with
  | identify => exact cause_of_identify hq h
  | listMetadataFormats => exact cause_of_listMetadataFormats hq h
  | listSets =>
    rw [answer, run_ofExcept] at h
    exact cause_of_listSets h
  | getRecord => exact cause_of_getRecord hq h
  | listIdentifiers => exact (listFault_of_list hq (.inl rfl) h).cause hq (.inl rfl)
  | listRecords => exact (listFault_of_list hq (.inr rfl) h).cause hq (.inr rfl)

/-! ### Failures that are passed on -/

/-- The source fails while a request is answered. -/
inductive SourceFails (p : Provider) (src : Source σ) (s : σ) (q : Request) (f : Fault) : Prop
  /-- It refuses one of the scans of the listing. -/
  | scan {verb : Verb} (hq : q.validate = .ok verb) (hverb : verb.IsListing) {l : ListRequest}
    {e : Exchange} (hl : listRequest q = .ok l) (he : e ∈ p.repository.scans src l s)
    (h : e.Refuses f)
  /-- It does not look the record up. -/
  | get {verb : Verb} (hq : q.validate = .ok verb) (hverb : verb.IsAboutOne)
    {identifier uri : String} (hidentifier : q.identifier = some identifier)
    (huri : p.uriOf identifier = .ok uri) (h : (src.get uri s).1 = .error f)
  /-- It does not know its earliest change. -/
  | earliest (hq : q.validate = .ok .identify) (h : (src.earliest s).1 = .error f)

/-- The source answers a scan of a listing out of order. -/
def OrderBroken (p : Provider) (src : Source σ) (s : σ) (q : Request) (f : Fault) : Prop :=
  ∃ verb l e, q.validate = .ok verb ∧ verb.IsListing ∧ listRequest q = .ok l ∧
    e ∈ p.repository.scans src l s ∧ e.Breaks f

/-- What is passed on comes from the source or from a mapper. -/
theorem Cause.passed_on (h : p.Cause src s q f) (hcode : f.code? = none) :
    p.SourceFails src s q f ∨ p.OrderBroken src s q f ∨ p.mappers.Fails f := by
  cases h with
  | own h =>
    rw [Fault.isProtocol, Fault.Kind.isProtocol, Option.isSome_iff_ne_none] at h
    exact absurd hcode h
  | find hq hverb hl h =>
    obtain hplanned | ⟨e, he, hrefuses | hbreaks⟩ := Repository.find_eq_error h
    · have hown := Repository.isProtocol_of_requestKinds (Repository.kind_of_planned hplanned)
      rw [Fault.isProtocol, Fault.Kind.isProtocol, Option.isSome_iff_ne_none] at hown
      exact absurd hcode hown
    · exact .inl (.scan hq hverb hl he hrefuses)
    · exact .inr (.inl ⟨_, _, e, hq, hverb, hl, he, hbreaks⟩)
  | get hq hverb hidentifier huri h => exact .inl (.get hq hverb hidentifier huri h)
  | earliest hq h => exact .inl (.earliest hq h)
  | mapper h => exact .inr (.inr h)

theorem not_sourceFails {store : Store} (hs : store.WellFormed) :
    ¬ p.SourceFails Store.source store q f := by
  intro h
  cases h with
  | scan _ _ _ he h => exact Repository.not_refuses hs he h
  | get _ _ _ _ h => cases h
  | earliest _ h => cases h

theorem Cause.isProtocol {store : Store} (hs : store.WellFormed)
    (hmappers : p.mappers.AlwaysSucceeds) (h : p.Cause Store.source store q f) :
    f.isProtocol = true := by
  cases h with
  | own h => exact h
  | find _ _ _ h => exact Repository.isProtocol_of_find hs h
  | get _ _ _ _ h => cases h
  | earliest _ h => cases h
  | mapper h => exact absurd h hmappers.not_fails

/-! ### Bodies of responses -/

/-- The body of a response and the arguments beside it. -/
inductive Body (q : Request) (x : Except Fault Xml) : List (Argument × String) → Xml → Prop
  /-- The answer to the verb. -/
  | answer {verb : Verb} {content : List Xml} (hverb : q.validate = .ok verb)
    (h : x = .ok (.node verb.name content)) : Body q x q.arguments (.node verb.name content)
  /-- A fault that is not one of the arguments. -/
  | fault {f : Fault} {code : String} (h : x = .error f) (hcode : f.code? = some code)
    (hkind : f.kind ≠ .badVerb ∧ f.kind ≠ .badArgument) :
    Body q x q.arguments (.element "error" [("code", code)] [.text f.detail])
  /-- A fault of the verb or of the arguments, which are not repeated. -/
  | refusal {f : Fault} {code : String} (h : x = .error f) (hcode : f.code? = some code)
    (hkind : f.kind = .badVerb ∨ f.kind = .badArgument) :
    Body q x [] (.element "error" [("code", code)] [.text f.detail])

theorem validate_of_kind (h : ((p.dispatch src q).run s).result = .error f)
    (hkind : f.kind ≠ .badVerb ∧ f.kind ≠ .badArgument) : ∃ verb, q.validate = .ok verb := by
  cases hvalid : q.validate with
  | ok verb => exact ⟨verb, rfl⟩
  | error g =>
    rw [result_dispatch, hvalid] at h
    cases h
    obtain ⟨hverb, -⟩ | ⟨hargument, -⟩ := Request.kind_of_validate_eq_error hvalid
    · exact absurd hverb hkind.1
    · exact absurd hargument hkind.2

theorem result_response_eq_error_iff {now : Instant} :
    ((p.response src q now).run s).result = .error f ↔
      ((p.dispatch src q).run s).result = .error f ∧ f.code? = none := by
  rw [result_response]
  cases ((p.dispatch src q).run s).result with
  | ok body => simp [replied]
  | error g =>
    rw [replied]
    constructor
    · intro h
      cases hcode : g.code? with
      | some code =>
        rw [hcode] at h
        cases h
      | none =>
        rw [hcode] at h
        cases h
        exact ⟨rfl, hcode⟩
    · rintro ⟨hg, hcode⟩
      cases hg
      rw [hcode]

/-- **A response has one body**, behind its date and the request. -/
theorem exists_body {now : Instant} {doc : Xml}
    (h : ((p.response src q now).run s).result = .ok doc) : ∃ attributes echoed body,
      doc = .element "OAI-PMH" attributes [.leaf "responseDate" now.datestamp,
        .element "request" (argumentPairs echoed) [.text p.settings.baseUrl], body] ∧
      Body q ((p.dispatch src q).run s).result echoed body := by
  rw [result_response] at h
  obtain ⟨body, hdispatch, rfl⟩ | ⟨f, code, hdispatch, hcode, rfl⟩ := replied_eq_ok_iff.1 h
  · obtain ⟨verb, hverb, hbody⟩ := bind_eq_ok_iff.1 (result_dispatch.symm.trans hdispatch)
    have hanswer : Xml.IsAnswer (fun _ => True) verb body :=
      (yields_answer (fun _ _ => trivial) verb s trivial).1 body hbody
    obtain ⟨content, rfl⟩ := hanswer.named
    rw [hdispatch]
    exact ⟨_, q.arguments, _, rfl, .answer hverb rfl⟩
  · rw [hdispatch]
    refine ⟨_, echoed q f, _, rfl, ?_⟩
    unfold echoed
    split_ifs with hkind
    · exact .refusal rfl hcode hkind
    · obtain ⟨verb, hverb⟩ := validate_of_kind hdispatch (not_or.1 hkind)
      rw [hverb]
      exact .fault rfl hcode (not_or.1 hkind)

/-! ### Listings -/

/-- How the answer to a listing ends after a page. -/
inductive ListEnd (p : Provider) (q : Request) (page : Page) : List Xml → Prop
  /-- The first page was the last one. -/
  | whole (hnext : page.next = none) (hfresh : q.resumptionToken = none) : ListEnd p q page []
  /-- The last page of a listing that went on. -/
  | last {raw : String} (hnext : page.next = none) (hresumed : q.resumptionToken = some raw) :
    ListEnd p q page [.void "resumptionToken"]
  /-- There is more, behind a token. -/
  | more {t : ResumptionToken} (hnext : page.next = some t)
    (hne : p.repository.codec.serialize t ≠ "") :
    ListEnd p q page [.leaf "resumptionToken" (p.repository.codec.serialize t)]

theorem listEnd_tokenElements (p : Provider) (q : Request) (page : Page) :
    p.ListEnd q page (p.tokenElements q page) := by
  unfold tokenElements
  cases hnext : page.next with
  | some t => exact .more hnext (Codec.serialize_ne_empty _ t)
  | none =>
    cases hq : q.resumptionToken with
    | some raw => exact .last hnext hq
    | none => exact .whole hnext hq

/-- What a request for a listing comes to. -/
structure ListOutcome (p : Provider) (src : Source σ) (s : σ) (q : Request) (verb : Verb) :
    Prop where
  /-- A listing from the start has no records exactly when its page is empty. -/
  fresh : q.resumptionToken = none →
    ((∃ f, ((p.dispatch src q).run s).result = .error f ∧ f.kind = .noRecordsMatch) ↔
      ∃ l page, listRequest q = .ok l ∧ ((p.repository.find src l).run s).result = .ok page ∧
        page.records = [])
  /-- A listing that goes on may end with an empty page. -/
  resumed : ∀ raw, q.resumptionToken = some raw →
    ∀ f, ((p.dispatch src q).run s).result = .error f → f.kind ≠ .noRecordsMatch
  /-- An answer has an element for each record of the page, and ends as the page does. -/
  ends : ∀ body, ((p.dispatch src q).run s).result = .ok body → ∃ l page elements tail,
    listRequest q = .ok l ∧ ((p.repository.find src l).run s).result = .ok page ∧
      body = .node verb.name (elements ++ tail) ∧ elements.length = page.records.length ∧
      (∀ x ∈ elements, x.tag? ≠ some "resumptionToken") ∧ p.ListEnd q page tail

/-- If neither the source nor a mapper fails, a listing cannot be planned, or has no records, or
there is a fault of another kind. -/
theorem ListFault.own (h : p.ListFault src s q f) (hq : q.validate = .ok verb)
    (hverb : verb.IsListing) (hsource : ¬ p.SourceFails src s q f)
    (hmappers : ¬ p.mappers.Fails f) :
    (∃ l, listRequest q = .ok l ∧ p.repository.planned l = .error f) ∨
    (f.kind = .noRecordsMatch ∧ q.resumptionToken = none ∧ ∃ l page, listRequest q = .ok l ∧
      ((p.repository.find src l).run s).result = .ok page ∧ page.records = []) ∨
    f.kind ∈ [.badArgument, .badResumptionToken, .cannotDisseminateFormat, .store] := by
  cases h with
  | argument h => exact .inr (.inr (by simp [kind_of_listRequest h]))
  | find hl h =>
    obtain hplanned | ⟨e, he, hrefuses | hbreaks⟩ := Repository.find_eq_error h
    · exact .inl ⟨_, hl, hplanned⟩
    · exact absurd (.scan hq hverb hl he hrefuses) hsource
    · obtain ⟨batch, -, -, x, -, rfl⟩ := hbreaks
      exact .inr (.inr (by simp [Fault.outOfOrder]))
  | empty hl hpage hrecords hfresh h =>
    subst h
    exact .inr (.inl ⟨rfl, hfresh, _, _, hl, hpage, hrecords⟩)
  | mapper h =>
    obtain rfl | hfails := MapperRegistry.map_eq_error h
    · exact .inr (.inr (by simp [Fault.noMapper]))
    · exact absurd hfails hmappers

/-- Only an empty listing says that no records match, if neither the source nor a mapper does. -/
theorem ListFault.of_noRecordsMatch (h : p.ListFault src s q f) (hkind : f.kind = .noRecordsMatch)
    (hq : q.validate = .ok verb) (hverb : verb.IsListing)
    (hsource : ∀ g, p.SourceFails src s q g → g.code? = none)
    (hmappers : ∀ g, p.mappers.Fails g → g.code? = none) :
    q.resumptionToken = none ∧ ∃ l page, listRequest q = .ok l ∧
      ((p.repository.find src l).run s).result = .ok page ∧ page.records = [] := by
  have hcode : f.code? ≠ none := by simp [Fault.code?, hkind, Fault.Kind.code?]
  obtain ⟨l, -, hplanned⟩ | ⟨-, hempty⟩ | hmem :=
    h.own hq hverb (fun h => hcode (hsource _ h)) fun h => hcode (hmappers _ h)
  · have hmem := Repository.kind_of_planned hplanned
    rw [hkind] at hmem
    exact absurd hmem (by decide)
  · exact hempty
  · rw [hkind] at hmem
    exact absurd hmem (by decide)

/-- **A listing has no records if its first page is empty, and its end says whether there is
more**, provided that neither the source nor a mapper raises faults of the protocol. -/
theorem listOutcome (hq : q.validate = .ok verb) (hverb : verb.IsListing)
    (hsource : ∀ g, p.SourceFails src s q g → g.code? = none)
    (hmappers : ∀ g, p.mappers.Fails g → g.code? = none) : p.ListOutcome src s q verb := by
  have hlist : ((p.dispatch src q).run s).result = ((p.list src verb q).run s).result :=
    result_dispatch_listing hq hverb
  have hnothing : ∀ f, ((p.dispatch src q).run s).result = .error f → f.kind = .noRecordsMatch →
      q.resumptionToken = none ∧ ∃ l page, listRequest q = .ok l ∧
        ((p.repository.find src l).run s).result = .ok page ∧ page.records = [] :=
    fun f hf hkind => (listFault_of_list hq hverb (hlist.symm.trans hf)).of_noRecordsMatch hkind
      hq hverb hsource hmappers
  refine ⟨fun hfresh => ⟨?_, ?_⟩, fun raw hraw f hf hkind => ?_, fun body hbody => ?_⟩
  · rintro ⟨f, hf, hkind⟩
    exact (hnothing f hf hkind).2
  · rintro ⟨l, page, hl, hpage, hrecords⟩
    obtain ⟨m, -, hm, -⟩ := exists_formatOfPage hq hverb hl hpage
    have hempty : (page.records.isEmpty && q.resumptionToken.isNone) = true := by
      rw [hrecords, hfresh]
      rfl
    refine ⟨.emptyListing, ?_, rfl⟩
    rw [hlist, result_list, hl, ok_bind, hpage, ok_bind, listed, hm, ok_bind, if_pos hempty]
  · rw [(hnothing f hf hkind).1] at hraw
    cases hraw
  · rw [hlist, result_list] at hbody
    obtain ⟨l, hl, hbody⟩ := bind_eq_ok_iff.1 hbody
    obtain ⟨page, hpage, hbody⟩ := bind_eq_ok_iff.1 hbody
    obtain ⟨m, -, hbody⟩ := bind_eq_ok_iff.1 hbody
    split_ifs at hbody
    obtain ⟨elements, helements, hbody⟩ := bind_eq_ok_iff.1 hbody
    cases hbody
    refine ⟨l, page, elements, _, hl, hpage, rfl, length_of_mapM helements, fun y hy => ?_,
      listEnd_tokenElements p q page⟩
    obtain ⟨x, -, hx⟩ := exists_of_mem_mapM helements hy
    obtain h | h := tag?_of_listElement hx <;> simp [h]

/-! ### Outcomes -/

/-- **What a request comes to.**  What is passed on is a failure of the source or of a mapper, or an
answer out of order, and over a store with mappers that always succeed nothing is.  Every other
response has one body beside the arguments that it repeats.  If neither the source nor a mapper
raises faults of the protocol, listings from the start say that no records match exactly when their
page is empty, and the token at the end of a listing says whether there is more. -/
theorem respond_outcome (p : Provider) (src : Source σ) (s : σ) (q : Request) (now : Instant) :
    (∀ f, ((p.respond src q now).run s).result = .error f →
      (f.kind = .store ∨ f.kind = .mapping ∨ f.kind = .config ∨ f.kind = .io) ∧
        (p.SourceFails src s q f ∨ p.OrderBroken src s q f ∨ p.mappers.Fails f)) ∧
    (p.mappers.AlwaysSucceeds → ∀ store : Store, store.Reachable →
      ∃ text, ((p.respond Store.source q now).run store).result = .ok text) ∧
    (∀ text, ((p.respond src q now).run s).result = .ok text → ∃ attributes echoed body,
      text = Xml.document (.element "OAI-PMH" attributes [.leaf "responseDate" now.datestamp,
        .element "request" (argumentPairs echoed) [.text p.settings.baseUrl], body]) ∧
      Body q ((p.dispatch src q).run s).result echoed body) ∧
    ((∀ g, p.SourceFails src s q g → g.code? = none) →
      (∀ g, p.mappers.Fails g → g.code? = none) →
        ∀ verb, q.validate = .ok verb → verb.IsListing → p.ListOutcome src s q verb) := by
  refine ⟨fun f hf => ?_, fun hmappers store hstore => ?_, fun text htext => ?_,
    fun hsource hmappers verb hq hverb => listOutcome hq hverb hsource hmappers⟩
  · rw [result_respond] at hf
    obtain ⟨hdispatch, hcode⟩ := result_response_eq_error_iff.1 (map_eq_error_iff.1 hf)
    exact ⟨Fault.code?_eq_none_iff.1 hcode, (cause_of_dispatch hdispatch).passed_on hcode⟩
  · rw [result_respond]
    cases hresponse : ((p.response Store.source q now).run store).result with
    | ok doc => exact ⟨_, rfl⟩
    | error f =>
      obtain ⟨hdispatch, hcode⟩ := result_response_eq_error_iff.1 hresponse
      have hown := (cause_of_dispatch hdispatch).isProtocol hstore.wellFormed hmappers
      rw [Fault.isProtocol, Fault.Kind.isProtocol, Option.isSome_iff_ne_none] at hown
      exact absurd hcode hown
  · rw [result_respond] at htext
    obtain ⟨doc, hdoc, rfl⟩ := map_eq_ok_iff.1 htext
    obtain ⟨attributes, echoed, body, rfl, hbody⟩ := exists_body hdoc
    exact ⟨attributes, echoed, body, rfl, hbody⟩

theorem alwaysSucceeds_uriMappers : uriMappers.AlwaysSucceeds := by
  intro m mapper hm r
  rw [uriMappers, MapperRegistry.register, OrderedMap.find?_insert] at hm
  split_ifs at hm
  · cases hm
    exact ⟨_, rfl⟩
  · cases hm

/-- A source that is gone. -/
def gone : Source Unit where
  scan _ s := (.error ⟨.store, "gone"⟩, s)
  get _ s := (.error ⟨.store, "gone"⟩, s)
  earliest s := (.error ⟨.store, "gone"⟩, s)

/-- A store has a response to the request for all records.  If the source is gone, not even the
repository can be described. -/
theorem respond_outcome_records : uriMappers.AlwaysSucceeds ∧ Store.sample.Reachable ∧
    recordsRequest.validate = .ok .listRecords ∧
    (∃ text, ((readable.respond Store.source recordsRequest (Store.sampleTime 60)).run
      Store.sample).result = .ok text) ∧
    readable.ListOutcome Store.source Store.sample recordsRequest .listRecords ∧
    ((readable.respond gone { verb := some "Identify" } (Store.sampleTime 60)).run ()).result =
      .error ⟨.store, "gone"⟩ ∧
    (readable.SourceFails gone () { verb := some "Identify" } ⟨.store, "gone"⟩ ∨
      readable.OrderBroken gone () { verb := some "Identify" } ⟨.store, "gone"⟩) := by
  have hreachable := Store.sample_reachable
  obtain ⟨-, hanswered, -, hlisting⟩ := respond_outcome readable Store.source Store.sample
    recordsRequest (Store.sampleTime 60)
  obtain ⟨hpassed, -⟩ := respond_outcome readable gone () { verb := some "Identify" }
    (Store.sampleTime 60)
  have hgone : ((readable.respond gone { verb := some "Identify" } (Store.sampleTime 60)).run
      ()).result = .error ⟨.store, "gone"⟩ := rfl
  refine ⟨alwaysSucceeds_uriMappers, hreachable, rfl,
    hanswered alwaysSucceeds_uriMappers Store.sample hreachable, ?_, hgone, ?_⟩
  · exact hlisting (fun g hg => absurd hg (not_sourceFails hreachable.wellFormed))
      (fun g hg => absurd hg alwaysSucceeds_uriMappers.not_fails) .listRecords rfl (.inr rfl)
  · obtain ⟨-, hsource | horder | hmapper⟩ := hpassed _ hgone
    · exact .inl hsource
    · exact .inr horder
    · exact absurd hmapper alwaysSucceeds_uriMappers.not_fails

end Provider

end Harvest
