import Harvest.Proofs.Listing.Complete
import Harvest.Proofs.Provider.Reading

/-!
# A harvester

A harvester sees nothing of a provider but the texts of its responses.  It reads a listing of
headers, goes on with the text of the token as long as there is one, and takes a listing with no
records as empty (`Harvester.gather`).

What it gathers over a store that stays as it is are the headers of the records that the repository
gives, page by page (`Provider.exists_gather`).  Both sides of a complete harvest are kept together
in `Provider.Harvested`, and there is no more than one for every request
(`Provider.Harvested.unique`).  In a registered format there is one
(`Provider.exists_harvested`).
-/

namespace Harvest

open Markup (Item Reading root?)

/-- The earliest datestamp of a store, in an answer that describes a repository. -/
def Markup.Node.earliest? : Markup.Node → Option String
  | .element _ _ _ content => content.findSome? (leaf? "earliestDatestamp")
  | _ => none

namespace Harvester

/-- The request for headers in a format, with the texts of bounds if they are given. -/
def headers (m : String) (since upTo : Option String) : Request where
  verb := some Verb.listIdentifiers.name
  metadataPrefix := some m
  since := since
  upTo := upTo

/-- The request for headers that goes on where a token says. -/
def resumed (token : String) : Request where
  verb := some Verb.listIdentifiers.name
  resumptionToken := some token

/-- Read page after page, at most `n` of them; `ask` gives what a response says. -/
def gather (ask : Request → Option Reading) : Nat → Request → Option (List Item)
  | 0, _ => none
  | n + 1, q => do
    let r ← ask q
    match r.body.listing? with
    | some l =>
      if l.token.getD "" = "" then some l.items
      else (gather ask n (resumed (l.token.getD ""))).map (l.items ++ ·)
    | none => if r.body.fault?.map Prod.fst = some "noRecordsMatch" then some [] else none

end Harvester

namespace Provider

open Engine Harvester

variable {p : Provider} {s : Store} {now : Instant} {q : Request} {l : ListRequest} {page : Page}
  {m : String}

/-- What the response to a request says, over a store. -/
def read? (p : Provider) (s : Store) (now : Instant) (q : Request) : Option Reading :=
  match ((p.respond Store.source q now).run s).result with
  | .ok text => (root? text).bind Markup.Node.reading?
  | .error _ => none

/-- The complete harvest of a request for headers: the records of the repository's pages, and what
a harvester gathers of them. -/
structure Harvested (p : Provider) (s : Store) (now : Instant) (q : Request)
    (records : List Record) : Prop where
  pages : ∃ l pages, listRequest q = .ok l ∧ p.repository.Harvests s l pages ∧
    pages.flatMap Page.records = records
  gathered : ∃ n, gather (p.read? s now) n q = some (records.map p.headerItem)

theorem Harvested.unique {records records' : List Record} (h : p.Harvested s now q records)
    (h' : p.Harvested s now q records') : records = records' := by
  obtain ⟨l, pages, hl, hpages, rfl⟩ := h.pages
  obtain ⟨l', pages', hl', hpages', rfl⟩ := h'.pages
  obtain rfl : l = l' := Except.ok.inj (hl.symm.trans hl')
  rw [hpages.unique hpages']

/-! ### One page -/

theorem read?_of_response {trusted : String → Prop} {doc : Xml}
    {echoed : List (Argument × String)} {n : Markup.Node}
    (htrusted : ∀ text, trusted text → (Markup.fragment? text.toList).isSome)
    (h : ((p.response Store.source q now).run s).result = .ok (p.envelope echoed now doc))
    (hdoc : doc.Written trusted) (hn : doc.nodes = [n]) :
    ∃ r, p.read? s now q = some r ∧ r.body = n := by
  obtain ⟨root, hroot, -, hreading⟩ := exists_root p echoed now htrusted hdoc hn
  refine ⟨⟨now.datestamp, argumentPairs echoed, p.settings.baseUrl, n⟩, ?_, rfl⟩
  rw [read?, result_respond, h]
  simpa [Except.map, hroot] using hreading

theorem mapM_itemOf_listIdentifiers (rs : List Record) :
    rs.mapM (p.itemOf .listIdentifiers m) = .ok (rs.map p.headerItem) :=
  List.mapM_pure (m := Except Fault) (l := rs) (f := p.headerItem)

theorem mapM_listElement_listIdentifiers (rs : List Record) :
    rs.mapM (p.listElement .listIdentifiers m) = .ok (rs.map p.header) :=
  List.mapM_pure (m := Except Fault) (l := rs) (f := p.header)

theorem result_dispatch_headers (hq : q.validate = .ok .listIdentifiers)
    (hl : listRequest q = .ok l) (hpage : p.repository.answer s l = .ok page) :
    ((p.dispatch Store.source q).run s).result = p.listed q .listIdentifiers page := by
  have hfind : ((p.repository.find Store.source l).run s).result = .ok page := hpage
  rw [result_dispatch, hq, ok_bind, answer, result_list, hl, ok_bind, hfind, ok_bind]

theorem read?_headers (now : Instant) (hq : q.validate = .ok .listIdentifiers)
    (hl : listRequest q = .ok l) (hpage : p.repository.answer s l = .ok page)
    (hm : p.formatOfPage q page = .ok m)
    (hne : ¬ (page.records.isEmpty && q.resumptionToken.isNone)) :
    ∃ r, p.read? s now q = some r ∧
      r.body.listing? = some ⟨page.records.map p.headerItem, p.tokenText q page⟩ := by
  obtain ⟨doc, hlisted⟩ : ∃ doc, p.listed q .listIdentifiers page = .ok doc := by
    rw [listed, hm, ok_bind, if_neg hne, mapM_listElement_listIdentifiers]
    exact ⟨_, rfl⟩
  obtain ⟨m', n, items, -, hitems, hn, hlisting⟩ := listing?_of_listed (.inl rfl) hlisted
  rw [mapM_itemOf_listIdentifiers, Except.ok.injEq] at hitems
  subst hitems
  have hresponse : ((p.response Store.source q now).run s).result =
      .ok (p.envelope q.arguments now doc) := by
    rw [result_response, result_dispatch_headers hq hl hpage, hlisted]
    rfl
  -- headers hold no metadata
  have hanswer : doc.IsAnswer (fun _ => False) .listIdentifiers :=
    isAnswer_listed (fun h => absurd h (by decide)) hlisted
  obtain ⟨r, hr, rfl⟩ := read?_of_response (fun _ => False.elim) hresponse hanswer.written hn
  exact ⟨r, hr, hlisting⟩

theorem read?_headers_empty (now : Instant) (hq : q.validate = .ok .listIdentifiers)
    (hl : listRequest q = .ok l) (hpage : p.repository.answer s l = .ok page)
    (hm : p.formatOfPage q page = .ok m)
    (hempty : page.records.isEmpty && q.resumptionToken.isNone) :
    ∃ r, p.read? s now q = some r ∧ r.body.listing? = none ∧
      r.body.fault?.map Prod.fst = some "noRecordsMatch" := by
  have hlisted : p.listed q .listIdentifiers page = .error .emptyListing := by
    rw [listed, hm, ok_bind, if_pos hempty]
  obtain ⟨n, hn, hfault, hlisting⟩ :=
    fault?_errorElement "noRecordsMatch" .emptyListing
  have hresponse : ((p.response Store.source q now).run s).result =
      .ok (p.envelope (echoed q .emptyListing) now
        (errorElement "noRecordsMatch" .emptyListing)) := by
    rw [result_response, result_dispatch_headers hq hl hpage, hlisted]
    rfl
  have hwritten : (errorElement "noRecordsMatch" .emptyListing).Written fun _ => False :=
    written_errorElement
  obtain ⟨r, hr, rfl⟩ := read?_of_response (fun _ => False.elim) hresponse hwritten hn
  exact ⟨r, hr, hlisting, by rw [hfault]; rfl⟩

/-! ### Page after page -/

theorem validate_headers (since upTo : Option String) :
    (headers m since upTo).validate = .ok .listIdentifiers := by
  cases since <;> cases upTo <;> rfl

theorem validate_resumed (token : String) :
    (resumed token).validate = .ok .listIdentifiers := rfl

theorem listRequest_resumed (token : String) :
    listRequest (resumed token) = .ok (.resume token) := rfl

/-- A token that is good for a page is not empty, and it names a format. -/
theorem of_answer_resume (hs : s.WellFormed) {token : String}
    (h : p.repository.answer s (.resume token) = .ok page) :
    token ≠ "" ∧ ∃ m, p.formatOfPage (resumed token) page = .ok m := by
  rw [Repository.answer_eq hs] at h
  obtain ⟨plan, hplan, -⟩ := map_eq_ok_iff.1 h
  obtain ⟨t, ht, -⟩ := (Repository.planned_resumed_eq_ok_iff rfl).1 hplan
  constructor
  · rintro rfl
    have hempty : p.repository.codec.deserialize "" = .error .tokenLength := rfl
    rw [hempty] at ht
    cases ht
  · cases hnext : page.next with
    | some t' => exact ⟨_, by rw [formatOfPage, hnext]⟩
    | none =>
      refine ⟨t.metadataPrefix, ?_⟩
      simp only [formatOfPage, hnext, resumed, ht]
      rfl

theorem records_ne_nil_of_next (hs : s.WellFormed) (h : p.repository.answer s l = .ok page)
    {t : ResumptionToken} (ht : page.next = some t) : page.records ≠ [] := by
  rw [Repository.answer_eq hs] at h
  obtain ⟨plan, -, rfl⟩ := map_eq_ok_iff.1 h
  rw [Repository.pageOver] at ht ⊢
  simp only [Option.ite_none_left_eq_some, Option.map_eq_some_iff] at ht
  obtain ⟨-, e, he, -⟩ := ht
  have hmem := List.mem_of_getLast? he
  exact fun hnil => List.ne_nil_of_mem hmem (List.map_eq_nil_iff.1 hnil)

/-- **A harvester gathers the headers of the records that a complete harvest returns.** -/
theorem exists_gather (hs : s.WellFormed) {n i : Nat} {pages : List Page}
    (h : harvest p.repository.codec (fun _ => p.repository.answer s) n i l = .ok pages)
    (hcomplete : IsComplete pages) (hq : q.validate = .ok .listIdentifiers)
    (hl : listRequest q = .ok l)
    (hm : ∀ page, p.repository.answer s l = .ok page → ∃ m, p.formatOfPage q page = .ok m) :
    ∃ n, gather (p.read? s now) n q =
      some ((pages.flatMap Page.records).map p.headerItem) := by
  induction n generalizing i q l pages with
  | zero =>
    cases h
    exact absurd rfl hcomplete.ne_nil
  | succ n ih =>
    obtain ⟨page, hpage, hrest⟩ := harvest_succ_eq_ok_iff.1 h
    obtain ⟨m, hformat⟩ := hm page hpage
    obtain ⟨hnext, rfl⟩ | ⟨t, rest, hnext, hrest, rfl⟩ := hrest
    · -- the last page, which may have nothing to list
      refine ⟨1, ?_⟩
      rw [List.flatMap_singleton]
      by_cases hempty : page.records.isEmpty && q.resumptionToken.isNone
      · obtain ⟨r, hr, hlisting, hfault⟩ :=
          read?_headers_empty now hq hl hpage hformat hempty
        simp only [Bool.and_eq_true, List.isEmpty_iff] at hempty
        simp [gather, hr, hlisting, hfault, hempty.1]
      · obtain ⟨r, hr, hlisting⟩ := read?_headers now hq hl hpage hformat hempty
        have htoken : (p.tokenText q page).getD "" = "" := by
          rw [tokenText, hnext]
          cases q.resumptionToken <;> rfl
        simp [gather, hr, hlisting, htoken]
    · -- a page with a token, by which the harvester goes on
      have hne : ¬ (page.records.isEmpty && q.resumptionToken.isNone) := by
        simp [records_ne_nil_of_next hs hpage hnext]
      obtain ⟨r, hr, hlisting⟩ := read?_headers now hq hl hpage hformat hne
      have htoken : p.tokenText q page = some (p.repository.codec.serialize t) := by
        rw [tokenText, hnext]
      obtain ⟨hrest_ne, htail⟩ := hcomplete.tail hnext
      obtain ⟨page', hpage'⟩ := exists_answer_of_harvest hrest hrest_ne
      have hnonempty := (of_answer_resume hs hpage').1
      obtain ⟨k, hk⟩ := ih hrest htail (validate_resumed _) (listRequest_resumed _)
        fun page hpage => (of_answer_resume hs hpage).2
      refine ⟨k + 1, ?_⟩
      simp [gather, hr, hlisting, htoken, hnonempty, hk]

/-- **In a registered format there is a complete harvest of headers**, of nothing but the reference
listing, and of all of it where the times in the listing are aligned. -/
theorem exists_harvested (now : Instant) {σ : Type} {settings : Settings}
    {mappers : MapperRegistry} {explain : Explanation} {t : σ}
    (hp : ((make settings mappers explain).run t).result = .ok p) (hs : s.Reachable)
    {o : FormatOptions} (ho : p.formats.options? m = some o) {since upTo : Option String}
    {a b : Option Instant}
    (hl : listRequest (headers m since upTo) =
      .ok { metadataPrefix := some m, since := a, upTo := b })
    (hwindow : ∀ u v, a = some u → b = some v → u ≤ v) (hbounds : AlignedBounds a b) :
    ∃ records, p.Harvested s now (headers m since upTo) records ∧
      records.Sublist
        ((p.repository.whole s.records ⟨m, none, none, a, b, o, none⟩).map Prod.snd) ∧
      ((∀ e ∈ p.repository.whole s.records ⟨m, none, none, a, b, o, none⟩,
        e.2.modified.IsAligned) → records =
          (p.repository.whole s.records ⟨m, none, none, a, b, o, none⟩).map Prod.snd) := by
  have hall : p.repository.resolveSet none = .ok none := rfl
  obtain ⟨pages, hpages, hsublist, -, hrecords⟩ := Repository.exists_harvests (r := p.repository) hs
    (isStandard_of_make hp) ho hall (Nat.zero_le _) hwindow hbounds
  refine ⟨_, ⟨⟨_, pages, hl, hpages, rfl⟩, ?_⟩, hsublist, hrecords⟩
  obtain ⟨hcomplete, n, hn⟩ := hpages
  refine exists_gather hs.wellFormed hn hcomplete (validate_headers since upTo) hl fun page _ => ?_
  cases hnext : page.next with
  | some t => exact ⟨_, by rw [formatOfPage, hnext]⟩
  | none => exact ⟨m, by rw [formatOfPage, hnext]; rfl⟩

/-! ### The repository -/

theorem read?_identify (p : Provider) (s : Store) (now : Instant) :
    ∃ r, p.read? s now (.ofVerb Verb.identify.name) = some r ∧
      r.body.earliest? = some (s.earliest.getD .epoch).datestamp := by
  obtain ⟨doc, hidentify, hread⟩ : ∃ doc,
      ((p.identify Store.source).run s).result = .ok doc ∧ ∃ n, doc.nodes = [n] ∧
        n.earliest? = some (s.earliest.getD .epoch).datestamp := by
    refine ⟨_, rfl, _, rfl, ?_⟩
    change (Markup.Node.element Verb.identify.name [] _ [Xml.leafNode "repositoryName" _,
      Xml.leafNode "baseURL" _, Xml.leafNode "protocolVersion" _, Xml.leafNode "adminEmail" _,
      Xml.leafNode "earliestDatestamp" _, Xml.leafNode "deletedRecord" _,
      Xml.leafNode "granularity" _]).earliest? = _
    simp [Markup.Node.earliest?]
  obtain ⟨n, hn, hearliest⟩ := hread
  have hanswer : doc.IsAnswer (fun _ => False) .identify :=
    (yields_answer_identify s trivial).1 doc hidentify
  have hresponse : ((p.response Store.source (.ofVerb Verb.identify.name) now).run s).result =
      .ok (p.envelope (Request.ofVerb Verb.identify.name).arguments now doc) := by
    have hvalid : (Request.ofVerb Verb.identify.name).validate = .ok .identify := rfl
    rw [result_response, result_dispatch, hvalid, ok_bind, answer, hidentify]
    rfl
  obtain ⟨r, hr, rfl⟩ := read?_of_response (fun _ => False.elim) hresponse hanswer.written hn
  exact ⟨r, hr, hearliest⟩

end Provider

end Harvest
