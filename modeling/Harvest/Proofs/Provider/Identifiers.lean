import Harvest.Proofs.Provider.FormatListing
import Harvest.Proofs.Provider.ListVerbs
import Harvest.Proofs.Provider.Windows

/-!
# Identifiers that are sent back

A listing puts any URI of the store into an identifier.  `GetRecord` takes identifiers apart, and
has a guard: the URI must be a path from the root (`IsRooted`), as the usual ones are
(`Record.isRooted_uriOf`).

So **a listed identifier can be sent back exactly if its URI is rooted**: the answer is then the
record of the listing, with the same header and with the metadata that a listing of records gives it
(`Provider.listed_identifiers_have_record`).  What has another URI is **listed, but not known** by
its identifier (`Provider.not_answers_looseLeaf`).
-/

namespace Harvest

open Engine Harvester
open Markup (Item)

/-- A URI is a path from the root. -/
def IsRooted (uri : String) : Prop := uri.toList.head? = some '/'

instance (uri : String) : Decidable (IsRooted uri) :=
  inferInstanceAs (Decidable (uri.toList.head? = some '/'))

theorem isRooted_append {a : String} (b : String) (h : IsRooted a) : IsRooted (a ++ b) := by
  rw [IsRooted, String.toList_append, List.head?_append, h, Option.some_or]

theorem Record.isRooted_uriOf (repository : UInt32) (t : RecordType) (id : UInt64) :
    IsRooted (uriOf repository t id) := by
  have hslash : IsRooted "/repositories/" := rfl
  iterate 5 refine isRooted_append _ ?_
  exact hslash

/-- The record in an answer that is about one. -/
def Markup.Node.record? : Markup.Node → Option Item
  | .element name _ _ [entry] => if name = Verb.getRecord.name then entry.item? else none
  | _ => none

namespace Provider

variable {p : Provider} {s : Store} {now : Instant} {m uri : String} {o : FormatOptions}
  {x : Record} {element : Xml}

/-! ### Identifiers -/

/-- **An identifier is taken apart exactly if the URI in it is rooted.** -/
theorem uriOf?_identifierOf (p : Provider) (uri : String) :
    p.uriOf? (p.identifierOf uri) = if IsRooted uri then some uri else none := by
  have hparts : (p.identifierOf uri).toList =
      ['o', 'a', 'i', ':'] ++ (p.settings.identifierNamespace.toList ++ (['/'] ++ uri.toList)) := by
    simp [identifierOf, String.toList_append]
  simp only [uriOf?, hparts, Option.bind_eq_bind, rest?_append, Option.bind_some,
    String.ofList_toList]
  rfl

theorem uriOf_of_isRooted (h : IsRooted uri) : p.uriOf (p.identifierOf uri) = .ok uri := by
  rw [uriOf, uriOf?_identifierOf, if_pos h]

theorem uriOf_of_not_isRooted (h : ¬ IsRooted uri) :
    p.uriOf (p.identifierOf uri) = .error (.unknownIdentifier (p.identifierOf uri)) := by
  rw [uriOf, uriOf?_identifierOf, if_neg h]

/-! ### Answers -/

/-- A request for a record is answered with it: with an entry that has its header, and that is read
as a listing of records gives it if metadata is made of fragments. -/
structure Answers (p : Provider) (s : Store) (now : Instant) (identifier m : String) (x : Record) :
    Prop where
  response : ∃ entry : Xml,
    ((p.response Store.source (recordRequest identifier m) now).run s).result =
      .ok (p.envelope (recordRequest identifier m).arguments now
        (.node Verb.getRecord.name [entry])) ∧
    entry.IsRecord ∧ entry.entryHeaders = [p.header x]
  reading : p.mappers.Balanced → ∃ r item, p.read? s now (recordRequest identifier m) = some r ∧
    r.body.record? = some item ∧ p.itemOf .listRecords m x = .ok item ∧
    { item with metadata := none } = p.headerItem x

/-- A request for a record is answered with the fault that its identifier is not known. -/
structure Disowns (p : Provider) (s : Store) (now : Instant) (identifier m : String) : Prop where
  response : ∃ arguments,
    ((p.response Store.source (recordRequest identifier m) now).run s).result =
      .ok (p.envelope arguments now
        (errorElement "idDoesNotExist" (.unknownIdentifier identifier)))
  reading : ∃ r, p.read? s now (recordRequest identifier m) = some r ∧
    r.body.fault? = some ("idDoesNotExist", (Fault.unknownIdentifier identifier).detail)

theorem Disowns.not_answers {identifier : String} (h : p.Disowns s now identifier m) (x : Record) :
    ¬ p.Answers s now identifier m x := by
  intro hanswers
  obtain ⟨entry, hentry, -, -⟩ := hanswers.response
  obtain ⟨arguments, hfault⟩ := h.response
  rw [hfault] at hentry
  simp [envelope, errorElement, Xml.node, Verb.name] at hentry

theorem headerItem_of_itemOf {verb : Verb} {item : Item} (h : p.itemOf verb m x = .ok item) :
    { item with metadata := none } = p.headerItem x := by
  unfold itemOf at h
  split_ifs at h
  · obtain ⟨metadata, -, rfl⟩ := map_eq_ok_iff.1 h
    rfl
  · cases h
    rfl

theorem record?_of_recordElement (h : p.recordElement m x = .ok element) :
    ∃ n item, (Xml.node Verb.getRecord.name [element]).nodes = [n] ∧ n.record? = some item ∧
      p.itemOf .listRecords m x = .ok item := by
  have hentry : p.listElement .listRecords m x = .ok element := by
    rw [listElement, if_pos rfl, h]
  obtain ⟨n, item, hn, -, hitem, hof⟩ := item?_of_listElement hentry
  refine ⟨_, item, rfl, ?_, hof⟩
  simp [Markup.Node.record?, Xml.contentNodes, hn, hitem]

/-- **What is answered is the record**, if its element is what a request comes to. -/
theorem answers_of_recordAnswer {identifier : String}
    (hanswer : p.recordAnswer s identifier m = .ok (.node Verb.getRecord.name [element]))
    (helement : p.recordElement m x = .ok element) : p.Answers s now identifier m x := by
  have hresponse : ((p.response Store.source (recordRequest identifier m) now).run s).result =
      .ok (p.envelope (recordRequest identifier m).arguments now
        (.node Verb.getRecord.name [element])) := by
    rw [result_response, show ((p.dispatch Store.source _).run s).result = _ from hanswer]
    rfl
  have hentry : p.listElement .listRecords m x = .ok element := by
    rw [listElement, if_pos rfl, helement]
  refine ⟨⟨element, hresponse, isRecord_of_recordElement helement,
    entryHeaders_of_listElement hentry⟩, fun hbalanced => ?_⟩
  obtain ⟨n, item, hn, hitem, hof⟩ := record?_of_recordElement helement
  have hwritten : (Xml.node Verb.getRecord.name [element]).Written p.mappers.Makes :=
    Xml.written_node (by decide) fun y hy => by
      rw [List.mem_singleton.1 hy]
      exact written_recordElement (fun _ h => h) helement
  obtain ⟨r, hr, rfl⟩ := read?_of_response hbalanced hresponse hwritten hn
  exact ⟨r, item, hr, hitem, hof, headerItem_of_itemOf hof⟩

theorem disowns_of_uriOf {identifier : String} (hv : p.settings.validate = .ok ())
    (h : p.uriOf identifier = .error (.unknownIdentifier identifier)) :
    p.Disowns s now identifier m := by
  have hanswer : p.recordAnswer s identifier m = .error (.unknownIdentifier identifier) := by
    rw [recordAnswer_eq hv, h]
    rfl
  have hresponse : ((p.response Store.source (recordRequest identifier m) now).run s).result =
      .ok (p.envelope (echoed (recordRequest identifier m) (.unknownIdentifier identifier)) now
        (errorElement "idDoesNotExist" (.unknownIdentifier identifier))) := by
    rw [result_response, show ((p.dispatch Store.source _).run s).result = _ from hanswer]
    rfl
  obtain ⟨n, hn, hfault, -⟩ := fault?_errorElement "idDoesNotExist" (.unknownIdentifier identifier)
  have hwritten : (errorElement "idDoesNotExist" (.unknownIdentifier identifier)).Written
      fun _ => False := written_errorElement
  obtain ⟨r, hr, rfl⟩ := read?_of_response (fun _ => False.elim) hresponse hwritten hn
  exact ⟨⟨_, hresponse⟩, r, hr, hfault⟩

/-! ### Listed identifiers -/

section Made

variable {σ : Type} {settings : Settings} {mappers : MapperRegistry} {explain : Explanation} {t : σ}

theorem answers_of_mem_undated (hp : ((make settings mappers explain).run t).result = .ok p)
    (hmappers : p.mappers.AlwaysSucceeds) (hv : p.settings.validate = .ok ())
    (hs : s.WellFormed) (ho : p.formats.options? m = some o) (hx : x ∈ p.undated s m o)
    (hrooted : IsRooted x.uri) : p.Answers s now (p.headerItem x).identifier m x := by
  have hfetched : p.repository.fetched s x.uri m = .ok x :=
    (Repository.mem_whole_iff_fetched hs ho).1 ⟨hx, rfl⟩
  have huri : p.uriOf (p.headerItem x).identifier = .ok x.uri := uriOf_of_isRooted hrooted
  obtain ⟨element, helement⟩ := exists_recordElement hmappers (contains_of_make hp ho) x
  refine answers_of_recordAnswer ?_ helement
  rw [recordAnswer_eq hv, huri, ok_bind, hfetched, ok_bind, helement]
  rfl

/-- **A listed identifier can be sent back exactly if its URI is rooted.**  There is a complete
harvest of headers, and with the identifier of a rooted URI in it the answer is the same record, if
mappers succeed.  Identifiers of other URIs are listed as well, but are not known. -/
theorem listed_identifiers_have_record (hp : ((make settings mappers explain).run t).result = .ok p)
    (hmappers : mappers.AlwaysSucceeds) (hs : s.Reachable)
    (ho : p.formats.options? m = some o) (now : Instant) :
    ∃ records, p.Harvested s now (headers m none none) records ∧ ∀ x ∈ records, ∀ now',
      (p.Answers s now' (p.headerItem x).identifier m x ↔ IsRooted x.uri) ∧
      (p.Disowns s now' (p.headerItem x).identifier m ↔ ¬ IsRooted x.uri) := by
  have hv : p.settings.validate = .ok () := by
    obtain ⟨hvalid, hsettings⟩ := of_make hp
    rw [hsettings, hvalid]
  rw [← mappers_of_make hp] at hmappers
  obtain ⟨records, hrecords, hsublist, -⟩ := exists_harvested_undated hp hs ho now
  refine ⟨records, hrecords, fun x hx now' => ?_⟩
  have hanswers : IsRooted x.uri → p.Answers s now' (p.headerItem x).identifier m x :=
    answers_of_mem_undated hp hmappers hv hs.wellFormed ho (hsublist.subset hx)
  have hdisowns : ¬ IsRooted x.uri → p.Disowns s now' (p.headerItem x).identifier m :=
    fun hloose => disowns_of_uriOf hv (uriOf_of_not_isRooted hloose)
  refine ⟨⟨fun h => ?_, hanswers⟩, ⟨fun h hrooted => h.not_answers x (hanswers hrooted), hdisowns⟩⟩
  by_contra hloose
  exact (hdisowns hloose).not_answers x h

end Made

theorem options?_readable : readable.formats.options? "oai_dc" =
    some { recordTypes := [.resource, .archivalObject] } := rfl

/-- The letter is listed, and its identifier can be sent back. -/
theorem listed_identifiers_have_record_letter : ∃ records letter,
    readable.Harvested Store.sample .epoch (headers "oai_dc" none none) records ∧
    letter ∈ records ∧ letter.uri = Store.sampleLetter.uri ∧
    readable.Answers Store.sample (Store.sampleTime 60) (readable.headerItem letter).identifier
      "oai_dc" letter := by
  obtain ⟨records, hrecords, hsent⟩ := listed_identifiers_have_record make_readable
    alwaysSucceeds_uriMappers Store.sample_reachable options?_readable .epoch
  obtain rfl := hrecords.unique
    (harvested_undated make_readable Store.sample_reachable options?_readable _ (by decide +kernel))
  obtain ⟨hletter, -⟩ := (Repository.mem_whole_iff_fetched (r := readable.repository)
    Store.sample_reachable.wellFormed options?_readable).2
    (show readable.repository.fetched Store.sample Store.sampleLetter.uri "oai_dc" =
      .ok (Store.sample.view Store.sampleLetter) from rfl)
  have hrooted : IsRooted Store.sampleLetter.uri := Record.isRooted_uriOf 2 .archivalObject 3
  exact ⟨_, _, hrecords, hletter, rfl, (hsent _ hletter _).1.2 hrooted⟩

/-- A record whose URI is no path from the root. -/
def looseLeaf : Record :=
  { Record.plain .resource 1 2 "HOU" (Store.sampleTime 10) with uri := "letters/1" }

/-- A store with this record. -/
def looseStore : Store := Store.empty.writes [.upsert looseLeaf]

/-- The record is listed with its identifier, which is not known when it is sent back. -/
theorem not_answers_looseLeaf :
    ((make sampleSettings uriMappers plainWords).run ()).result = .ok readable ∧
    uriMappers.AlwaysSucceeds ∧ looseStore.Reachable ∧
    ∃ records, readable.Harvested looseStore .epoch (headers "oai_dc" none none) records ∧
      looseLeaf ∈ records ∧
      (readable.headerItem looseLeaf).identifier = "oai:archivesspace/letters/1" ∧
      readable.Disowns looseStore .epoch "oai:archivesspace/letters/1" "oai_dc" ∧
      ¬ readable.Answers looseStore .epoch "oai:archivesspace/letters/1" "oai_dc" looseLeaf := by
  have hreachable : looseStore.Reachable := ⟨_, rfl⟩
  have hlisted : looseLeaf ∈ readable.undated looseStore "oai_dc" _ :=
    ((Repository.mem_whole_iff_fetched (r := readable.repository) hreachable.wellFormed
      options?_readable).2
      (show readable.repository.fetched looseStore looseLeaf.uri "oai_dc" = .ok looseLeaf
        from rfl)).1
  have hdisowns : readable.Disowns looseStore .epoch "oai:archivesspace/letters/1" "oai_dc" :=
    disowns_of_uriOf validate_sampleSettings rfl
  have hharvested := harvested_undated make_readable hreachable options?_readable .epoch
    (by decide +kernel)
  exact ⟨make_readable, alwaysSucceeds_uriMappers, hreachable, _, hharvested, hlisted, rfl,
    hdisowns, hdisowns.not_answers looseLeaf⟩

end Provider

end Harvest
