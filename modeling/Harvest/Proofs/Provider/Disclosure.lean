import Harvest.Proofs.Exposure
import Harvest.Proofs.Request
import Harvest.Proofs.Token.Payload
import Harvest.Proofs.Xml
import Harvest.Provider

/-!
# What responses disclose

A part of a response *discloses* a record (`Xml.Discloses`) when it says more of it than that it is
deleted: a header that is not marked as deleted or names a set, and anything with metadata.

A document is *confined* to some records (`Provider.Confined`) when every part of it that discloses
something names one of them and nothing else.  Every element that a provider puts together is
confined to the records it is made from, and these come from the repository.  Hence the main
statement, `Provider.exposes_of_disclosed`: **nothing is returned or disclosed but exposed
records**, neither by the repository nor in a response.
-/

namespace Harvest

namespace Xml

/-- A part of a response that shows more than the mark of a deleted record. -/
inductive Discloses : Xml → Prop where
  | live {attributes : List (String × String)} {content : List Xml} :
    ("status", "deleted") ∉ attributes → Discloses (.element "header" attributes content)
  | sets {attributes : List (String × String)} {content : List Xml} {y : Xml} :
    y ∈ content → y.tag? = some "setSpec" → Discloses (.element "header" attributes content)
  | metadata {tag : String} {attributes : List (String × String)} {content : List Xml} {y : Xml} :
    y ∈ content → y.tag? = some "metadata" → Discloses (.element tag attributes content)

/-- An identifier stands in a part of a response. -/
def Names (x : Xml) (identifier : String) : Prop := Part (.leaf "identifier" identifier) x

end Xml

namespace Provider

open Engine

/-- Whatever a document discloses names one record with a property. -/
structure Confined (p : Provider) (P : Record → Prop) (doc : Xml) : Prop where
  tag_ne : doc.tag? ≠ some "metadata"
  named : ∀ x, Xml.Part x doc → x.Discloses →
    ∃ y, P y ∧ ∀ identifier, x.Names identifier ↔ identifier = p.identifierOf y.uri

variable {p : Provider} {P : Record → Prop} {x y : Record} {doc : Xml} {tag value : String}
  {attributes : List (String × String)} {content : List Xml}

/-! ### Documents that disclose nothing themselves -/

theorem confined_void (hmetadata : tag ≠ "metadata") : p.Confined P (.void tag) where
  tag_ne := by simpa [Xml.tag?] using hmetadata
  named x hx hdiscloses := by
    rw [Xml.part_void_iff.1 hx] at hdiscloses
    cases hdiscloses

theorem confined_text : p.Confined P (.text value) where
  tag_ne := by simp [Xml.tag?]
  named x hx hdiscloses := by
    rw [Xml.part_text_iff.1 hx] at hdiscloses
    cases hdiscloses

theorem not_discloses_element (hheader : tag ≠ "header")
    (h : ∀ y ∈ content, y.tag? ≠ some "metadata") :
    ¬ (Xml.element tag attributes content).Discloses := by
  rintro (_ | _ | ⟨hy, htag⟩)
  · exact hheader rfl
  · exact hheader rfl
  · exact h _ hy htag

theorem confined_element (hheader : tag ≠ "header") (hmetadata : tag ≠ "metadata")
    (h : ∀ x ∈ content, p.Confined P x) : p.Confined P (.element tag attributes content) where
  tag_ne := by simpa [Xml.tag?] using hmetadata
  named x hx hdiscloses := by
    obtain rfl | ⟨y, hy, hxy⟩ := Xml.part_element_iff.1 hx
    · exact absurd hdiscloses (not_discloses_element hheader fun y hy => (h y hy).tag_ne)
    · exact (h y hy).named x hxy hdiscloses

theorem confined_leaf (hheader : tag ≠ "header") (hmetadata : tag ≠ "metadata") :
    p.Confined P (.leaf tag value) := by
  refine confined_element hheader hmetadata fun x hx => ?_
  rw [List.mem_singleton.1 hx]
  exact confined_text

/-! ### Records -/

theorem names_header_iff {identifier : String} :
    (p.header x).Names identifier ↔ identifier = p.identifierOf x.uri := by
  simp [Xml.Names, header, Xml.part_element_iff, Xml.leaf, Xml.node]

theorem not_discloses_header (h : x.deleted = true) : ¬ (p.header x).Discloses := by
  intro hdiscloses
  rw [header] at hdiscloses
  simp only [h, if_true, List.map_nil] at hdiscloses
  cases hdiscloses with
  | live hstatus => exact hstatus List.mem_cons_self
  | sets hy htag =>
    simp only [List.mem_cons, List.not_mem_nil, or_false] at hy
    obtain rfl | rfl := hy <;> simp [Xml.leaf, Xml.node, Xml.tag?] at htag
  | metadata hy htag =>
    simp only [List.mem_cons, List.not_mem_nil, or_false] at hy
    obtain rfl | rfl := hy <;> simp [Xml.leaf, Xml.node, Xml.tag?] at htag

theorem part_header {z : Xml} (hz : Xml.Part z (p.header x)) : z = p.header x ∨
    ∃ tag value, tag ≠ "header" ∧ tag ≠ "metadata" ∧ Xml.Part z (.leaf tag value) := by
  obtain rfl | ⟨y, hy, hzy⟩ := Xml.part_element_iff.1 hz
  · exact .inl rfl
  · simp only [List.mem_cons, List.mem_map] at hy
    obtain rfl | rfl | ⟨s, -, rfl⟩ := hy
    · exact .inr ⟨"identifier", _, by decide, by decide, hzy⟩
    · exact .inr ⟨"datestamp", _, by decide, by decide, hzy⟩
    · exact .inr ⟨"setSpec", _, by decide, by decide, hzy⟩

/-- A header discloses the record that it is about, unless that is deleted. -/
theorem confined_header (h : x.deleted = false → ∃ y, P y ∧ y.uri = x.uri) :
    p.Confined P (p.header x) where
  tag_ne := by simp [header, Xml.tag?]
  named z hz hdiscloses := by
    obtain rfl | ⟨tag, value, hheader, hmetadata, hzl⟩ := part_header hz
    · cases hdeleted : x.deleted with
      | true => exact absurd hdiscloses (not_discloses_header hdeleted)
      | false =>
        obtain ⟨y, hy, hu⟩ := h hdeleted
        exact ⟨y, hy, fun identifier => by rw [hu, names_header_iff]⟩
    · exact (confined_leaf hheader hmetadata).named z hzl hdiscloses

/-- Metadata is disclosed by what it stands in. -/
theorem not_discloses_of_part_metadata {z : Xml} {text : String}
    (hz : Xml.Part z (.node "metadata" [.markup text])) : ¬ z.Discloses := by
  intro hdiscloses
  obtain rfl | ⟨y, hy, hzy⟩ := Xml.part_element_iff.1 hz
  · refine not_discloses_element (by decide) (fun y hy => ?_) hdiscloses
    simp [List.mem_singleton.1 hy, Xml.tag?]
  · rw [List.mem_singleton.1 hy, Xml.part_markup_iff] at hzy
    rw [hzy] at hdiscloses
    cases hdiscloses

theorem confined_recordElement {m : String} (he : p.recordElement m x = .ok doc)
    (h : x.deleted = false → ∃ y, P y ∧ y.uri = x.uri) : p.Confined P doc := by
  unfold recordElement at he
  split_ifs at he with hdeleted
  · cases he
    refine confined_element (by decide) (by decide) fun y hy => ?_
    rw [List.mem_singleton.1 hy]
    exact confined_header h
  · obtain ⟨metadata, -, hdoc⟩ := bind_eq_ok_iff.1 he
    cases hdoc
    obtain ⟨y, hy, hu⟩ := h (Bool.eq_false_iff.2 hdeleted)
    refine ⟨by simp [Xml.node, Xml.tag?], fun z hz hdiscloses => ?_⟩
    obtain rfl | ⟨c, hc, hzc⟩ := Xml.part_element_iff.1 hz
    · -- the metadata is markup and names nothing
      refine ⟨y, hy, fun identifier => ?_⟩
      rw [hu, ← names_header_iff]
      simp [Xml.Names, Xml.node, Xml.leaf, Xml.part_element_iff]
    · simp only [List.mem_cons, List.not_mem_nil, or_false] at hc
      obtain rfl | rfl := hc
      · exact (confined_header fun _ => ⟨y, hy, hu⟩).named z hzc hdiscloses
      · exact absurd hdiscloses (not_discloses_of_part_metadata hzc)

theorem confined_listElement {verb : Verb} {m : String} (he : p.listElement verb m x = .ok doc)
    (h : x.deleted = false → ∃ y, P y ∧ y.uri = x.uri) : p.Confined P doc := by
  unfold listElement at he
  split_ifs at he
  · exact confined_recordElement he h
  · cases he
    exact confined_header h

/-! ### The verbs -/

variable {s : Store} {q : Request}

theorem Verb.name_ne (v : Verb) : v.name ≠ "header" ∧ v.name ≠ "metadata" := by
  cases v <;> decide

theorem yields_identify : Yields (· = s) (p.identify Store.source) (p.Confined P) := by
  unfold identify
  refine Yields.bind (R := fun _ => True) (ensures_ask fun t ht => ⟨fun _ _ => trivial, ht⟩)
    fun earliest _ => yields_pure ?_
  refine confined_element (by decide) (by decide) ?_
  simp only [List.mem_cons, List.not_mem_nil, or_false, forall_eq_or_imp, forall_eq]
  refine ⟨?_, ?_, ?_, ?_, ?_, ?_, ?_⟩ <;> exact confined_leaf (by decide) (by decide)

theorem confined_formatElement (f : MetadataFormat) : p.Confined P (formatElement f) := by
  refine confined_element (by decide) (by decide) ?_
  simp only [List.mem_cons, List.not_mem_nil, or_false, forall_eq_or_imp, forall_eq]
  refine ⟨?_, ?_, ?_⟩ <;> exact confined_leaf (by decide) (by decide)

theorem yields_typeAskedFor (hv : p.settings.validate = .ok ()) :
    Yields (· = s) (p.typeAskedFor Store.source q) fun _ => True := by
  unfold typeAskedFor
  cases q.identifier with
  | none => exact yields_pure trivial
  | some identifier =>
    refine Yields.bind (yields_ofExcept (R := fun _ => True) fun _ _ => trivial) fun uri _ => ?_
    refine Yields.bind (R := fun _ => True) ?_ fun x _ => yields_pure trivial
    exact (Repository.ensures_locate hv s uri).yields fun x _ => trivial

theorem yields_listMetadataFormats (hv : p.settings.validate = .ok ()) :
    Yields (· = s) (p.listMetadataFormats Store.source q) (p.Confined P) := by
  unfold listMetadataFormats
  refine Yields.bind (yields_typeAskedFor hv) fun t _ => ?_
  simp only
  split_ifs
  · exact yields_fail
  · refine yields_pure (confined_element (by decide) (by decide) fun x hx => ?_)
    obtain ⟨f, -, rfl⟩ := List.mem_map.1 hx
    exact confined_formatElement f

theorem confined_setElement (d : SetDescription) : p.Confined P (setElement d) := by
  refine confined_element (by decide) (by decide) fun x hx => ?_
  simp only [List.mem_cons] at hx
  obtain rfl | rfl | hx := hx
  · exact confined_leaf (by decide) (by decide)
  · exact confined_leaf (by decide) (by decide)
  · cases hd : d.description with
    | none =>
      rw [hd] at hx
      cases hx
    | some text =>
      rw [hd] at hx
      rw [List.mem_singleton.1 hx]
      refine confined_element (by decide) (by decide) fun y hy => ?_
      rw [List.mem_singleton.1 hy]
      exact confined_leaf (by decide) (by decide)

theorem confined_listSets (h : p.listSets q = .ok doc) : p.Confined P doc := by
  unfold listSets at h
  simp only at h
  split_ifs at h
  cases h
  refine confined_element (by decide) (by decide) fun x hx => ?_
  obtain ⟨d, -, rfl⟩ := List.mem_map.1 hx
  exact confined_setElement d

/-- The set that a request is about. -/
def setOf (p : Provider) (q : Request) : Option String :=
  p.repository.setOf { set := q.set, token := q.resumptionToken }

/-- A stored record that may be shown in answer to a request. -/
def Exposed (p : Provider) (s : Store) (q : Request) (x : Record) : Prop :=
  s.Exposes p.settings.repositories (p.setOf q) x

theorem of_freshRequest {l : ListRequest} (h : freshRequest q = .ok l) :
    l.set = q.set ∧ l.token = none ∧ l.metadataPrefix = some (q.metadataPrefix.getD "") := by
  unfold freshRequest at h
  obtain ⟨since, -, h⟩ := bind_eq_ok_iff.1 h
  obtain ⟨upTo, -, h⟩ := bind_eq_ok_iff.1 h
  cases since with
  | none =>
    cases h
    exact ⟨rfl, rfl, rfl⟩
  | some a =>
    cases upTo with
    | none =>
      cases h
      exact ⟨rfl, rfl, rfl⟩
    | some b =>
      simp only at h
      split_ifs at h
      · cases h
      · cases h
        exact ⟨rfl, rfl, rfl⟩

theorem setOf_of_listRequest {l : ListRequest} (h : listRequest q = .ok l) :
    p.repository.setOf l = p.setOf q := by
  unfold listRequest at h
  cases htoken : q.resumptionToken with
  | some token =>
    rw [htoken] at h
    cases h
    rw [setOf, htoken]
    rfl
  | none =>
    rw [htoken] at h
    obtain ⟨hset, hnone, -⟩ := of_freshRequest h
    rw [setOf, htoken, Repository.setOf, hnone, hset]
    rfl

theorem confined_of_mem_tokenElements {page : Page} {x : Xml} (hx : x ∈ p.tokenElements q page) :
    p.Confined P x := by
  unfold tokenElements at hx
  cases hnext : page.next with
  | some t =>
    rw [hnext] at hx
    rw [List.mem_singleton.1 hx]
    exact confined_leaf (by decide) (by decide)
  | none =>
    rw [hnext] at hx
    simp only at hx
    split_ifs at hx
    · rw [List.mem_singleton.1 hx]
      exact confined_void (by decide)
    · cases hx

theorem yields_list (hs : s.WellFormed) (verb : Verb) :
    Yields (· = s) (p.list Store.source verb q) (p.Confined (p.Exposed s q)) := by
  unfold list
  refine Yields.bind (yields_ofExcept fun l h => h) fun l hl => ?_
  refine Yields.bind (Repository.yields_find hs l) fun page hpage => ?_
  rw [setOf_of_listRequest hl] at hpage
  refine Yields.bind (yields_ofExcept (R := fun _ => True) fun _ _ => trivial) fun m _ => ?_
  split_ifs
  · exact yields_fail
  refine Yields.bind (yields_ofExcept fun elements h => h) fun elements helements => yields_pure ?_
  obtain ⟨hheader, hmetadata⟩ := Verb.name_ne verb
  refine confined_element hheader hmetadata fun x hx => ?_
  -- the records of the page, then its token
  rcases List.mem_append.1 hx with hx | hx
  · obtain ⟨y, hy, hxy⟩ := exists_of_mem_mapM helements hx
    refine confined_listElement hxy fun hlive => ?_
    obtain ⟨z, hz, rfl⟩ := hpage y hy hlive
    exact ⟨z, hz, rfl⟩
  · exact confined_of_mem_tokenElements hx

theorem setOf_of_getRecord (hq : q.validate = .ok .getRecord) : p.setOf q = none := by
  have hset : q.value? .set = none := Request.value?_eq_none hq (by decide) (by decide)
  have htoken : q.value? .resumptionToken = none :=
    Request.value?_eq_none hq (by decide) (by decide)
  rw [setOf, show q.set = none from hset, show q.resumptionToken = none from htoken]
  rfl

theorem yields_getRecord (hs : s.WellFormed) (hv : p.settings.validate = .ok ())
    (hq : q.validate = .ok .getRecord) :
    Yields (· = s) (p.getRecord Store.source q) (p.Confined (p.Exposed s q)) := by
  unfold getRecord
  split
  · refine Yields.bind (yields_ofExcept (R := fun _ => True) fun _ _ => trivial) fun uri _ => ?_
    refine Yields.bind (Repository.yields_fetch hv s uri _) fun x hx => ?_
    refine Yields.bind (yields_ofExcept fun element h => h) fun element helement => yields_pure ?_
    refine confined_element (by decide) (by decide) fun y hy => ?_
    rw [List.mem_singleton.1 hy]
    refine confined_recordElement helement fun hlive => ?_
    obtain ⟨z, hz, rfl⟩ := Repository.exposes_of_located hs hx hlive
    exact ⟨z, by rwa [Exposed, setOf_of_getRecord hq], rfl⟩
  · exact yields_fail

theorem yields_dispatch (hs : s.WellFormed) (hv : p.settings.validate = .ok ()) (q : Request) :
    Yields (· = s) (p.dispatch Store.source q) (p.Confined (p.Exposed s q)) := by
  unfold dispatch
  refine Yields.bind (yields_ofExcept fun v h => h) fun v hvalid => ?_
  cases v with
  | identify => exact yields_identify
  | listMetadataFormats => exact yields_listMetadataFormats hv
  | listSets => exact yields_ofExcept fun body => confined_listSets
  | getRecord => exact yields_getRecord hs hv hvalid
  | listIdentifiers => exact yields_list hs _
  | listRecords => exact yields_list hs _

/-! ### Responses -/

theorem confined_envelope {echoed : List (Argument × String)} {now : Instant}
    (h : p.Confined P doc) : p.Confined P (p.envelope echoed now doc) := by
  refine confined_element (by decide) (by decide) ?_
  simp only [List.mem_cons, List.not_mem_nil, or_false, forall_eq_or_imp, forall_eq]
  refine ⟨confined_leaf (by decide) (by decide), ?_, h⟩
  refine confined_element (by decide) (by decide) fun x hx => ?_
  rw [List.mem_singleton.1 hx]
  exact confined_text

/-- **Responses are confined to records that may be shown.** -/
theorem yields_response (hs : s.WellFormed) (hv : p.settings.validate = .ok ()) (q : Request)
    (now : Instant) :
    Yields (· = s) (p.response Store.source q now) (p.Confined (p.Exposed s q)) := by
  unfold response
  refine Yields.bind (yields_dispatch hs hv q).attempt fun x hx => ?_
  cases x with
  | ok body => exact yields_pure (confined_envelope (hx body rfl))
  | error f =>
    cases hcode : f.code? with
    | some code =>
      simp only [hcode]
      refine Yields.tell_bind (yields_pure (confined_envelope ?_))
      refine confined_element (by decide) (by decide) fun x hx => ?_
      rw [List.mem_singleton.1 hx]
      exact confined_text
    | none =>
      simp only [hcode]
      exact Yields.tell_bind yields_fail

theorem result_respond {σ : Type} (p : Provider) (src : Source σ) (q : Request) (now : Instant)
    (s : σ) : ((p.respond src q now).run s).result =
      ((p.response src q now).run s).result.map Xml.document := by
  rw [respond, run_bind]
  cases (p.response src q now).run s with
  | mk result s' log => cases result <;> rfl

/-- **Nothing is returned or disclosed but exposed records**, by the repository and in responses. -/
theorem exposes_of_disclosed (hs : s.Reachable) (hv : p.settings.validate = .ok ()) :
    (∀ q page, ((p.repository.find Store.source q).run s).result = .ok page →
      ∀ x ∈ page.records, x.deleted = false →
        ∃ y, s.Exposes p.settings.repositories (p.repository.setOf q) y ∧ x = s.view y) ∧
    (∀ uri x, ((p.repository.locate Store.source uri).run s).result = .ok x → x.deleted = false →
      ∃ y, s.Exposes p.settings.repositories none y ∧ x = s.view y) ∧
    (∀ uri m x, ((p.repository.fetch Store.source uri m).run s).result = .ok x →
      x.deleted = false → ∃ y, s.Exposes p.settings.repositories none y ∧ x = s.view y) ∧
    ∀ q now text, ((p.respond Store.source q now).run s).result = .ok text →
      ∃ doc, ((p.response Store.source q now).run s).result = .ok doc ∧ text = doc.document ∧
        ∀ x, Xml.Part x doc → x.Discloses →
          ∃ y, s.Exposes p.settings.repositories (p.setOf q) y ∧
            ∀ identifier, x.Names identifier ↔ identifier = p.identifierOf y.uri := by
  have hwell := hs.wellFormed
  refine ⟨?_, ?_, ?_, ?_⟩
  · intro q page hpage
    exact (Repository.yields_find hwell q s rfl).1 page hpage
  · intro uri x hx hlive
    rw [(Repository.ensures_locate hv s uri s rfl).1] at hx
    exact Repository.exposes_of_located hwell hx hlive
  · intro uri m x hx hlive
    have hlocated := (Repository.yields_fetch hv s uri m s rfl).1 x hx
    exact Repository.exposes_of_located hwell hlocated hlive
  · intro q now text htext
    rw [result_respond] at htext
    obtain ⟨doc, hdoc, rfl⟩ := map_eq_ok_iff.1 htext
    exact ⟨doc, hdoc, rfl, ((yields_response hwell hv q now s rfl).1 doc hdoc).named⟩

/-! ### A provider of the small archive -/

/-- Settings under which hidden records are left out and one repository takes no part. -/
def sampleSettings : Settings where
  tokenSecret := "secret"
  repositories := [{ id := 9, code := "ELS", disabled := true }]

/-- One mapper, which writes URIs. -/
def sampleMappers : MapperRegistry :=
  MapperRegistry.empty.register "oai_dc" fun r => .ok ("<dc>" ++ r.uri ++ "</dc>")

/-- A provider of one format. -/
def sample : Provider where
  settings := sampleSettings
  formats := FormatRegistry.standard.retain sampleMappers.contains
  mappers := sampleMappers
  explain := plainWords

theorem validate_sampleSettings : sampleSettings.validate = .ok () :=
  Settings.validate_eq_ok_iff.2 ⟨⟨by decide, by decide⟩, by rintro e ⟨⟩, rfl, _, rfl⟩

/-- The plan of a listing in the format. -/
def samplePlan : Plan :=
  ⟨"oai_dc", none, none, none, none, { recordTypes := [.resource, .archivalObject] }, none⟩

/-- A request for the letter. -/
def letterRequest : Request where
  verb := some "GetRecord"
  identifier := some "oai:archivesspace//repositories/2/archival_objects/3"
  metadataPrefix := some "oai_dc"

/-- The letter with its metadata. -/
def letterElement : Xml :=
  .node "record" [sample.header Store.sampleLetter,
    .node "metadata" [.markup "<dc>/repositories/2/archival_objects/3</dc>"]]

/-- The response to the request for the letter. -/
def letterResponse : Xml :=
  sample.envelope letterRequest.arguments (Store.sampleTime 60)
    (.node "GetRecord" [letterElement])

/-- The letter is shown, in a listing and by itself: it was written with an ancestor that was not
published, but which is now. -/
theorem exposes_of_disclosed_letter :
    (∃ page, ((sample.repository.find Store.source (.fresh "oai_dc")).run Store.sample).result =
        .ok page ∧ ∃ x ∈ page.records, x.uri = Store.sampleLetter.uri ∧
          ∃ y, Store.sample.Exposes sampleSettings.repositories none y ∧ x = Store.sample.view y) ∧
    ((sample.respond Store.source letterRequest (Store.sampleTime 60)).run Store.sample).result =
      .ok letterResponse.document ∧
    Xml.Part letterElement letterResponse ∧ letterElement.Discloses ∧
    ∃ y, Store.sample.Exposes sampleSettings.repositories none y ∧
      ∀ identifier, letterElement.Names identifier ↔ identifier = sample.identifierOf y.uri := by
  obtain ⟨hfind, -, -, hrespond⟩ := exposes_of_disclosed (p := sample) Store.sample_reachable
    validate_sampleSettings
  refine ⟨?_, ?_⟩
  · have hplan : sample.repository.planned (.fresh "oai_dc") = .ok samplePlan := rfl
    have hpage : ((sample.repository.find Store.source (.fresh "oai_dc")).run Store.sample).result =
        .ok (sample.repository.pageOver Store.sample.records samplePlan) := by
      have hserves := Store.serves Store.sample_reachable.wellFormed
      rw [(Repository.ensures_find hserves _ _ rfl).1, hplan]
      rfl
    have hletter : (sample.repository.pageOver Store.sample.records samplePlan).records.any
        (fun x => decide (x.uri = Store.sampleLetter.uri) && !x.deleted) = true := by
      decide +kernel
    obtain ⟨x, hx, hshown⟩ := List.any_eq_true.1 hletter
    simp only [Bool.and_eq_true, decide_eq_true_eq, Bool.not_eq_true'] at hshown
    exact ⟨_, hpage, x, hx, hshown.1, hfind _ _ hpage x hx hshown.2⟩
  · have hresponse : ((sample.response Store.source letterRequest (Store.sampleTime 60)).run
        Store.sample).result = .ok letterResponse := rfl
    have htext : ((sample.respond Store.source letterRequest (Store.sampleTime 60)).run
        Store.sample).result = .ok letterResponse.document := by
      rw [result_respond, hresponse]
      rfl
    obtain ⟨doc, hdoc, -, hnamed⟩ := hrespond _ _ _ htext
    obtain rfl : letterResponse = doc := Except.ok.inj (hresponse.symm.trans hdoc)
    have hpart : Xml.Part letterElement letterResponse :=
      .content (List.mem_cons_of_mem _ (List.mem_cons_of_mem _ List.mem_cons_self))
        (.content List.mem_cons_self .self)
    have hdiscloses : letterElement.Discloses :=
      .metadata (List.mem_cons_of_mem _ List.mem_cons_self) rfl
    exact ⟨htext, hpart, hdiscloses, hnamed _ hpart hdiscloses⟩

end Provider

end Harvest
