import Harvest.Proofs.Listing.Answering
import Harvest.Proofs.Provider.Outcome

/-!
# Two verbs for one listing

`ListIdentifiers` and `ListRecords` go through the same pages; only the second one asks mappers.  A
harvester may read either: what both say beside metadata is the headers, the token and the fault
(`Xml.Findings`).  If mappers always succeed, and the source answers by the query, **these do not
depend on the verb** (`Provider.list_verbs_agree`), nor does what a harvester finds who follows the
tokens and takes the one verb or the other for every page (`Provider.roam`).

The page of a request determines the findings (`Provider.map_findings_response`), since the format
of a page is one that is registered, and these have mappers.
-/

namespace Harvest

open Engine

/-! ### What a harvester finds -/

/-- What a response to a listing says, beside metadata. -/
structure Xml.Findings where
  headers : List Xml
  tokens : List Xml
  faults : List Xml

namespace Xml

/-- What stands in an element. -/
def children : Xml → List Xml
  | element _ _ content => content
  | _ => []

/-- The headers in an entry, which is a header itself or a record. -/
def entryHeaders (x : Xml) : List Xml :=
  if x.tag? = some "header" then [x]
  else if x.tag? = some "record" then x.children.filter (·.tag? = some "header")
  else []

/-- The answer or the fault in a response, behind its date and the request. -/
def body? : Xml → Option Xml
  | element _ _ [_, _, body] => some body
  | _ => none

/-- What an answer to a listing says, or a fault. -/
def bodyFindings (body : Xml) : Findings where
  headers := body.children.flatMap entryHeaders
  tokens := body.children.filter (·.tag? = some "resumptionToken")
  faults := if body.tag? = some "error" then [body] else []

/-- What a response to a listing says. -/
def findings (doc : Xml) : Findings := (doc.body?.map bodyFindings).getD ⟨[], [], []⟩

/-- The text of a token by which a harvester can go on. -/
def Findings.next? (x : Findings) : Option String :=
  match x.tokens with
  | [element _ _ [text token]] => some token
  | _ => none

/-- A record has its header, and metadata unless the header is marked as deleted. -/
inductive IsRecord : Xml → Prop
  | live {attributes : List (String × String)} {content metadata : List Xml}
    (h : ("status", "deleted") ∉ attributes) :
    IsRecord (.node "record" [.element "header" attributes content, .node "metadata" metadata])
  | deleted {attributes : List (String × String)} {content : List Xml}
    (h : ("status", "deleted") ∈ attributes) :
    IsRecord (.node "record" [.element "header" attributes content])

end Xml

/-- The same request with another verb. -/
def Request.withVerb (q : Request) (v : Verb) : Request := { q with verb := some v.name }

theorem Request.validate_withVerb {q : Request} {v v' : Verb} (hv : v.IsListing)
    (hv' : v'.IsListing) (h : (q.withVerb v).validate = .ok v) :
    (q.withVerb v').validate = .ok v' := by
  obtain ⟨-, hrepeated, hunknown, hallowed, hrequire⟩ := Request.validate_eq_ok_iff.1 h
  refine Request.validate_eq_ok_iff.2 ⟨rfl, hrepeated, hunknown, ?_, ?_⟩
  · have heq : v'.allowed = v.allowed := by
      obtain rfl | rfl := hv <;> obtain rfl | rfl := hv' <;> rfl
    rw [heq]
    exact hallowed
  · have heq : (q.withVerb v').requireFor v' = (q.withVerb v).requireFor v := by
      obtain rfl | rfl := hv <;> obtain rfl | rfl := hv' <;> rfl
    rw [heq]
    exact hrequire

namespace Provider

variable {σ : Type} {p : Provider} {src : Source σ} {s : σ} {q : Request} {v : Verb}
  {l : ListRequest} {page : Page} {m : String} {x : Record} {doc : Xml}

/-! ### Answers -/

theorem entryHeaders_of_listElement (h : p.listElement v m x = .ok doc) :
    doc.entryHeaders = [p.header x] := by
  unfold listElement at h
  split_ifs at h
  · unfold recordElement at h
    split_ifs at h
    · cases h
      rfl
    · obtain ⟨text, -, h⟩ := bind_eq_ok_iff.1 h
      cases h
      rfl
  · cases h
    rfl

theorem bodyFindings_tokenElements (p : Provider) (q : Request) (page : Page) :
    (p.tokenElements q page).flatMap Xml.entryHeaders = [] ∧
      (p.tokenElements q page).filter (·.tag? = some "resumptionToken") =
        p.tokenElements q page := by
  unfold tokenElements
  cases page.next with
  | some t => exact ⟨rfl, rfl⟩
  | none =>
    simp only
    split_ifs <;> exact ⟨rfl, rfl⟩

/-- What is found on a page. -/
def pageFindings (p : Provider) (q : Request) (page : Page) : Except Fault Xml.Findings :=
  if page.records.isEmpty && q.resumptionToken.isNone then .error .emptyListing
  else .ok ⟨page.records.map p.header, p.tokenElements q page, []⟩

/-- **What is found in the answer that a page makes does not depend on the verb.** -/
theorem map_findings_listed (hmappers : p.mappers.AlwaysSucceeds)
    (hm : p.formatOfPage q page = .ok m) (hcontains : p.mappers.contains m = true)
    (hv : v.IsListing) : (p.listed q v page).map Xml.bodyFindings = p.pageFindings q page := by
  rw [listed, hm, ok_bind, pageFindings]
  split_ifs
  · rfl
  obtain ⟨elements, helements⟩ : ∃ elements,
      page.records.mapM (p.listElement v m) = .ok elements :=
    exists_mapM_eq_ok (exists_listElement hmappers hcontains v)
  obtain ⟨htokenHeaders, htokens⟩ := bodyFindings_tokenElements p q page
  have hheaders : elements.flatMap Xml.entryHeaders = page.records.map p.header := by
    rw [List.flatMap_def, map_of_mapM helements fun _ _ => entryHeaders_of_listElement,
      ← List.flatMap_def, ← List.map_eq_flatMap]
  have hnone : elements.filter (·.tag? = some "resumptionToken") = [] := by
    refine List.filter_eq_nil_iff.2 fun y hy => ?_
    obtain ⟨x, -, hx⟩ := exists_of_mem_mapM helements hy
    obtain h | h := tag?_of_listElement hx <;> simp [h]
  have hfault : (Xml.node v.name (elements ++ p.tokenElements q page)).tag? ≠ some "error" := by
    obtain rfl | rfl := hv <;> simp [Xml.node, Xml.tag?, Verb.name]
  rw [helements, ok_bind]
  change Except.ok (Xml.bodyFindings (.node v.name _)) = _
  rw [Xml.bodyFindings, if_neg hfault]
  simp only [Xml.node, Xml.children, List.flatMap_append, List.filter_append, hheaders, hnone,
    htokenHeaders, htokens, List.append_nil, List.nil_append]

theorem isRecord_of_recordElement (h : p.recordElement m x = .ok doc) : doc.IsRecord := by
  unfold recordElement at h
  split_ifs at h with hdeleted
  · cases h
    refine .deleted ?_
    rw [if_pos hdeleted]
    exact List.mem_singleton_self _
  · obtain ⟨text, -, h⟩ := bind_eq_ok_iff.1 h
    cases h
    refine .live ?_
    rw [if_neg hdeleted]
    exact List.not_mem_nil

/-! ### Responses -/

/-- The page that a request for a listing asks for. -/
def found (p : Provider) (src : Source σ) (s : σ) (q : Request) : Except Fault Page :=
  listRequest q >>= fun l => ((p.repository.find src l).run s).result

/-- What is found in a response, by what is found on its page or by its fault. -/
def repliedFindings : Except Fault Xml.Findings → Except Fault Xml.Findings
  | .ok x => .ok x
  | .error f =>
    match f.code? with
    | some code => .ok ⟨[], [], [errorElement code f]⟩
    | none => .error f

theorem map_findings_replied (q : Request) (now : Instant) (x : Except Fault Xml) :
    (p.replied q now x).map Xml.findings = repliedFindings (x.map Xml.bodyFindings) := by
  cases x with
  | ok body => rfl
  | error f =>
    simp only [replied, Except.map, repliedFindings]
    cases f.code? <;> rfl

theorem isRecord_of_listed (h : p.listed q .listRecords page = .ok doc) {x : Xml}
    (hx : x ∈ doc.children) (htag : x.tag? = some "record") : x.IsRecord := by
  obtain ⟨m, -, h⟩ := bind_eq_ok_iff.1 h
  split_ifs at h
  obtain ⟨elements, helements, h⟩ := bind_eq_ok_iff.1 h
  cases h
  rcases List.mem_append.1 hx with hx | hx
  · obtain ⟨r, -, hr⟩ := exists_of_mem_mapM helements hx
    exact isRecord_of_recordElement hr
  · rw [← (bodyFindings_tokenElements p q page).2, List.mem_filter] at hx
    rw [htag] at hx
    exact absurd (of_decide_eq_true hx.2) (by decide)

theorem isRecord_of_response (hq : q.validate = .ok .listRecords) {now : Instant} {body x : Xml}
    (h : ((p.response src q now).run s).result = .ok doc) (hbody : doc.body? = some body)
    (hx : x ∈ body.children) (htag : x.tag? = some "record") : x.IsRecord := by
  obtain ⟨attributes, echoed, body', rfl, hcases⟩ := exists_body h
  cases hbody
  cases hcases with
  | answer hverb hanswer =>
    rw [result_dispatch_listing hq (.inr rfl), result_list] at hanswer
    obtain ⟨l, -, hanswer⟩ := bind_eq_ok_iff.1 hanswer
    obtain ⟨page, -, hlisted⟩ := bind_eq_ok_iff.1 hanswer
    exact isRecord_of_listed hlisted hx htag
  | fault _ _ _ | refusal _ _ _ =>
    -- the element of a fault has a text in it
    cases List.mem_singleton.1 hx
    cases htag

section Made

variable {settings : Settings} {mappers : MapperRegistry} {explain : Explanation} {τ : Type}
  {s₀ : τ}

theorem map_findings_dispatch (hp : ((make settings mappers explain).run s₀).result = .ok p)
    (hmappers : p.mappers.AlwaysSucceeds) (hv : v.IsListing)
    (hq : (q.withVerb v).validate = .ok v) (src : Source σ) (s : σ) :
    ((p.dispatch src (q.withVerb v)).run s).result.map Xml.bodyFindings =
      p.found src s q >>= p.pageFindings q := by
  have hrequest : listRequest (q.withVerb v) = listRequest q := rfl
  rw [result_dispatch_listing hq hv, result_list, found, hrequest]
  cases hl : listRequest q with
  | error f => rfl
  | ok l =>
    rw [ok_bind, ok_bind]
    cases hpage : ((p.repository.find src l).run s).result with
    | error f => rfl
    | ok page =>
      obtain ⟨m, o, hm, ho⟩ := exists_formatOfPage hq hv (hrequest.trans hl) hpage
      exact map_findings_listed hmappers hm (contains_of_make hp ho) hv

/-- **The page of a request determines what is found in the response**, with either verb. -/
theorem map_findings_response (hp : ((make settings mappers explain).run s₀).result = .ok p)
    (hmappers : p.mappers.AlwaysSucceeds) (hv : v.IsListing)
    (hq : (q.withVerb v).validate = .ok v) (src : Source σ) (s : σ) (now : Instant) :
    ((p.response src (q.withVerb v) now).run s).result.map Xml.findings =
      repliedFindings (p.found src s q >>= p.pageFindings q) := by
  rw [result_response, map_findings_replied, map_findings_dispatch hp hmappers hv hq]

end Made

/-! ### Following tokens -/

/-- A request, and what is found in the response. -/
def visit (p : Provider) (src : Source σ) (q : Request) (now : Instant) :
    Engine σ Xml.Findings := do
  let doc ← p.response src q now
  return doc.findings

/-- What is found by a harvester who follows the tokens, with a verb and at a time for every page,
until there is no token or no more pages may be read. -/
def roam (p : Provider) (src : Source σ) :
    List (Verb × Instant) → Request → Engine σ (List Xml.Findings)
  | [], _ => return []
  | (v, now) :: rest, q => do
    let x ← p.visit src (q.withVerb v) now
    match x.next? with
    | none => return [x]
    | some token => do
      let xs ← p.roam src rest { resumptionToken := some token }
      return x :: xs

section Agreement

variable {I : σ → Prop} {answer : ScanQuery → Except Fault (List Record)}

theorem result_visit (src : Source σ) (q : Request) (now : Instant) (s : σ) :
    ((p.visit src q now).run s).result =
      ((p.response src q now).run s).result.map Xml.findings := by
  rw [visit, result_bind]
  cases ((p.response src q now).run s).result <;> rfl

theorem keeps_list (h : src.AnswersBy I answer) (v : Verb) (q : Request) :
    Yields I (p.list src v q) fun _ => True := by
  have hfind : ∀ l, Yields I (p.repository.find src l) fun _ => True := fun l s hs =>
    ⟨fun _ _ => trivial, (p.repository.agree_find_answersBy h h l s s hs hs).2.1⟩
  unfold list
  refine Yields.bind (yields_ofExcept fun _ hl => hl) fun l _ => ?_
  refine Yields.bind (hfind l) fun page _ => ?_
  refine Yields.bind (yields_ofExcept fun _ hm => hm) fun m _ => ?_
  split_ifs
  · exact yields_fail
  · refine Yields.bind (yields_ofExcept fun _ helements => helements) fun elements _ => ?_
    exact yields_pure trivial

theorem keeps_dispatch (h : src.AnswersBy I answer) (hv : v.IsListing)
    (hq : q.validate = .ok v) : Yields I (p.dispatch src q) fun _ => True := by
  refine Yields.bind (yields_ofExcept fun _ hv' => hv') fun v' hv' => ?_
  obtain rfl : v = v' := Except.ok.inj (hq.symm.trans hv')
  rw [answer_of_isListing hv]
  exact keeps_list h v q

theorem keeps_visit (h : src.AnswersBy I answer) (hv : v.IsListing) (hq : q.validate = .ok v)
    (now : Instant) : Yields I (p.visit src q now) fun _ => True := by
  unfold visit response
  refine Yields.bind (R := fun _ => True) ?_ fun doc _ => yields_pure trivial
  refine Yields.bind (keeps_dispatch h hv hq).attempt fun x _ => ?_
  cases x with
  | ok body => exact yields_pure trivial
  | error f =>
    simp only
    cases f.code? with
    | some code => exact Yields.tell_bind (yields_pure trivial)
    | none => exact Yields.tell_bind yields_fail

variable {settings : Settings} {mappers : MapperRegistry} {explain : Explanation} {τ : Type}
  {s₀ : τ} {v' : Verb}

theorem found_eq (h : src.AnswersBy I answer) (q : Request) {s t : σ} (hs : I s) (ht : I t) :
    p.found src s q = p.found src t q := by
  refine congrArg _ (funext fun l => ?_)
  exact (p.repository.agree_find_answersBy h h l s t hs ht).1

/-- **What is found does not depend on the verb, nor on what has been asked before.** -/
theorem agree_visit (hp : ((make settings mappers explain).run s₀).result = .ok p)
    (hmappers : p.mappers.AlwaysSucceeds) (h : src.AnswersBy I answer) (hv : v.IsListing)
    (hv' : v'.IsListing) (hq : (q.withVerb v).validate = .ok v) (now now' : Instant) :
    Agree I I (p.visit src (q.withVerb v) now) (p.visit src (q.withVerb v') now') := by
  have hq' := Request.validate_withVerb hv hv' hq
  intro s t hs ht
  refine ⟨?_, (keeps_visit h hv hq now s hs).2, (keeps_visit h hv' hq' now' t ht).2⟩
  rw [result_visit, result_visit, map_findings_response hp hmappers hv hq,
    map_findings_response hp hmappers hv' hq', found_eq h q hs ht]

theorem agree_roam (hp : ((make settings mappers explain).run s₀).result = .ok p)
    (hmappers : p.mappers.AlwaysSucceeds) (h : src.AnswersBy I answer)
    {vs vs' : List (Verb × Instant)} (hlength : vs.length = vs'.length)
    (hvs : ∀ e ∈ vs, e.1.IsListing) (hvs' : ∀ e ∈ vs', e.1.IsListing)
    (hq : ∀ u : Verb, u.IsListing → (q.withVerb u).validate = .ok u) :
    Agree I I (p.roam src vs q) (p.roam src vs' q) := by
  induction vs generalizing vs' q with
  | nil =>
    obtain rfl := List.length_eq_zero_iff.1 hlength.symm
    exact agree_pure _
  | cons e vs ih =>
    cases vs' with
    | nil => cases hlength
    | cons e' vs' =>
      obtain ⟨v, now⟩ := e
      obtain ⟨v', now'⟩ := e'
      obtain ⟨hv, hvs⟩ := List.forall_mem_cons.1 hvs
      obtain ⟨hv', hvs'⟩ := List.forall_mem_cons.1 hvs'
      refine (agree_visit hp hmappers h hv hv' (hq v hv) now now').bind fun x => ?_
      cases x.next? with
      | none => exact agree_pure _
      | some token =>
        refine (ih (Nat.succ.inj hlength) hvs hvs' fun u hu => ?_).bind fun xs => agree_pure _
        obtain rfl | rfl := hu <;> rfl

/-- **`ListIdentifiers` and `ListRecords` go through the same listing**, from the start or with a
token: their responses have the same headers and the same token, or the same fault, or are not given
for the same failure.  Every record has its header, and metadata exactly if the header is not marked
as deleted.  A harvester may take either verb for every page and finds the same. -/
theorem list_verbs_agree (hp : ((make settings mappers explain).run s₀).result = .ok p)
    (hmappers : mappers.AlwaysSucceeds) (h : src.AnswersBy I answer) {u : Verb}
    (hu : u.IsListing) (hq : (q.withVerb u).validate = .ok u) :
    (∀ v v' : Verb, v.IsListing → v'.IsListing → ∀ s t, I s → I t → ∀ now now',
      ((p.response src (q.withVerb v) now).run s).result.map Xml.findings =
        ((p.response src (q.withVerb v') now').run t).result.map Xml.findings) ∧
    (∀ s now doc body, ((p.response src (q.withVerb .listRecords) now).run s).result = .ok doc →
      doc.body? = some body → ∀ x ∈ body.children, x.tag? = some "record" → x.IsRecord) ∧
    ∀ vs vs' : List (Verb × Instant), vs.length = vs'.length → (∀ e ∈ vs, e.1.IsListing) →
      (∀ e ∈ vs', e.1.IsListing) → ∀ s t, I s → I t →
        ((p.roam src vs q).run s).result = ((p.roam src vs' q).run t).result := by
  rw [← mappers_of_make hp] at hmappers
  have hvalid : ∀ v : Verb, v.IsListing → (q.withVerb v).validate = .ok v :=
    fun v hv => Request.validate_withVerb hu hv hq
  refine ⟨fun v v' hv hv' s t hs ht now now' => ?_, fun s now doc body hdoc hbody x hx htag => ?_,
    fun vs vs' hlength hvs hvs' s t hs ht =>
      (agree_roam hp hmappers h hlength hvs hvs' hvalid s t hs ht).1⟩
  · have hvisit := (agree_visit hp hmappers h hv hv' (hvalid v hv) now now' s t hs ht).1
    rwa [result_visit, result_visit] at hvisit
  · exact isRecord_of_response (hvalid .listRecords (.inr rfl)) hdoc hbody hx htag

end Agreement

/-- Over the sample, records and headers say the same, whichever is asked for first. -/
theorem list_verbs_agree_records :
    ((make sampleSettings uriMappers plainWords).run ()).result = .ok readable ∧
    uriMappers.AlwaysSucceeds ∧
    (Store.source.AnswersBy (· = Store.sample) fun q => (Store.source.scan q Store.sample).1) ∧
    (recordsRequest.withVerb .listRecords).validate = .ok .listRecords ∧
    ((readable.response Store.source (recordsRequest.withVerb .listIdentifiers)
        (Store.sampleTime 60)).run Store.sample).result.map Xml.findings =
      ((readable.response Store.source (recordsRequest.withVerb .listRecords)
        (Store.sampleTime 70)).run Store.sample).result.map Xml.findings ∧
    ((readable.roam Store.source
        [(.listIdentifiers, Store.sampleTime 60), (.listRecords, Store.sampleTime 70)]
        recordsRequest).run Store.sample).result =
      ((readable.roam Store.source
        [(.listRecords, Store.sampleTime 60), (.listRecords, Store.sampleTime 70)]
        recordsRequest).run Store.sample).result := by
  have hmake : ((make sampleSettings uriMappers plainWords).run ()).result = .ok readable :=
    make_eq_ok_iff.2 ⟨validate_sampleSettings, _, rfl, rfl⟩
  have hvalid : (recordsRequest.withVerb .listRecords).validate = .ok .listRecords := rfl
  obtain ⟨hfindings, -, hroam⟩ := list_verbs_agree hmake alwaysSucceeds_uriMappers
    (Store.answersBy Store.sample) (.inr rfl) hvalid
  have hboth := hfindings .listIdentifiers .listRecords (.inl rfl) (.inr rfl) Store.sample
    Store.sample rfl rfl (Store.sampleTime 60) (Store.sampleTime 70)
  have hmixed := hroam
    [(.listIdentifiers, Store.sampleTime 60), (.listRecords, Store.sampleTime 70)]
    [(.listRecords, Store.sampleTime 60), (.listRecords, Store.sampleTime 70)]
    rfl (by simp [Verb.IsListing]) (by simp [Verb.IsListing]) Store.sample Store.sample rfl rfl
  exact ⟨hmake, alwaysSucceeds_uriMappers, Store.answersBy Store.sample, hvalid, hboth, hmixed⟩

end Provider

end Harvest
