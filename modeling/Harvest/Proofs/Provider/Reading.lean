import Harvest.Proofs.Provider.Disclosure
import Harvest.Proofs.Provider.Make
import Harvest.Proofs.Provider.Vocabulary

/-!
# Reading responses

A harvester takes a response apart: the element behind the declaration (`Markup.root?`), the
request it repeats (`Markup.Node.reading?`), and a fault (`Markup.Node.fault?`) or the items and
the token of a listing (`Markup.Node.listing?`).  Its reader knows tags and the five predefined
entities, nothing else of the provider.

**What is read is what the provider had to say** (`Provider.respond_reads_back`), over any source
and for any request, if metadata is made of fragments.
-/

namespace Harvest

namespace Markup

/-- What is written in a text, or in the value of an attribute. -/
def unescaped? (s : String) : Option String := (unescape? s.toList).map String.ofList

/-- The element of a document, which stands between the declaration and the end of the line. -/
def root? (text : String) : Option Node := do
  let cs ← Provider.rest? Xml.declaration.toList text.toList
  match ← fragment? cs with
  | [n, .text s] => if s = "\n" then some n else none
  | _ => none

/-- What a listing says about a record. -/
structure Item where
  identifier : String
  datestamp : String
  deleted : Bool
  sets : List String
  metadata : Option String := none
  deriving DecidableEq, Repr

/-- What a listing says: its items, and the text of its token. -/
structure Listing where
  items : List Item
  token : Option String
  deriving DecidableEq, Repr

/-- What a response says: when it was made, the arguments and the address it repeats, and the
answer. -/
structure Reading where
  responseDate : String
  arguments : List (String × String)
  baseUrl : String
  body : Node

namespace Node

/-- The characters of an element of a name, which has nothing else in it. -/
def leaf? (tag : String) : Node → Option String
  | .element name _ _ content =>
    if name = tag then
      match content with
      | [] => some ""
      | [.text s] => unescaped? s
      | _ => none
    else none
  | _ => none

/-- The attributes of an element. -/
def attributes? : Node → Option (List (String × String))
  | .element _ attributes _ _ => attributes.mapM fun a => (unescaped? a.2).map (a.1, ·)
  | _ => none

/-- The record of a header. -/
def header? : Node → Option Item
  | .element name attributes _ (identifier :: datestamp :: sets) =>
    if name = "header" then do
      let identifier ← identifier.leaf? "identifier"
      let datestamp ← datestamp.leaf? "datestamp"
      let sets ← sets.mapM (leaf? "setSpec")
      return { identifier, datestamp, deleted := ("status", "deleted") ∈ attributes, sets }
    else none
  | _ => none

/-- A record, in full or by its header. -/
def item? : Node → Option Item
  | .element name attributes inner content =>
    if name = "record" then
      match content with
      | [header] => header.header?
      | [header, .element tag _ metadata _] =>
        if tag = "metadata" then header.header?.map ({ · with metadata := some metadata }) else none
      | _ => none
    else header? (.element name attributes inner content)
  | _ => none

/-- Entries that follow each other, with a token behind them if there is one. -/
def items? : List Node → Option Listing
  | [] => some ⟨[], none⟩
  | n :: ns =>
    match n.leaf? "resumptionToken" with
    | some token => if ns.isEmpty then some ⟨[], some token⟩ else none
    | none => do
      let item ← n.item?
      let rest ← items? ns
      return ⟨item :: rest.items, rest.token⟩

/-- The listing in an answer. -/
def listing? : Node → Option Listing
  | .element name _ _ content =>
    if name = Verb.listIdentifiers.name ∨ name = Verb.listRecords.name then items? content
    else none
  | _ => none

/-- The code and the detail of a fault in an answer. -/
def fault? (n : Node) : Option (String × String) := do
  let detail ← n.leaf? "error"
  let attributes ← n.attributes?
  let code ← attributes.lookup "code"
  return (code, detail)

/-- What a response says. -/
def reading? : Node → Option Reading
  | .element name _ _ [date, request, body] =>
    if name = "OAI-PMH" then do
      let responseDate ← date.leaf? "responseDate"
      let arguments ← request.attributes?
      let baseUrl ← request.leaf? "request"
      return { responseDate, arguments, baseUrl, body }
    else none
  | _ => none

end Node

end Markup

namespace Xml

open Markup (Node)

variable {tag name value inner : String} {attributes : List (String × String)} {x : Xml}
  {trusted : String → Prop}

@[simp]
theorem mapM_some {α : Type} (xs : List α) : xs.mapM some = some xs := by
  simpa using List.mapM_pure (m := Option) (l := xs) (f := id)

@[simp]
theorem unescaped?_escape (s : String) :
    Markup.unescaped? (String.ofList (escape s)) = some s := by
  simp [Markup.unescaped?, Markup.unescape?_escape]

/-- What an element with a text in it is read as. -/
def leafNode (tag value : String) (attributes : List (String × String) := []) : Node :=
  .element tag (attributes.map readAttribute) (String.ofList (contentChars [.text value]))
    (contentNodes [.text value])

@[simp]
theorem leaf?_leafNode : (leafNode name value attributes).leaf? tag =
    if name = tag then some value else none := by
  simp only [leafNode, Node.leaf?, contentNodes, nodes, textNodes, List.append_nil]
  split_ifs with hname hvalue
  · simp [hvalue]
  · simp
  · rfl

@[simp]
theorem attributes?_leafNode : (leafNode name value attributes).attributes? = some attributes := by
  simp only [leafNode, Node.attributes?, readAttribute, List.mapM_map, Function.comp_def,
    unescaped?_escape, Option.map_some]
  exact mapM_some attributes

theorem contentNodes_append (xs ys : List Xml) :
    contentNodes (xs ++ ys) = contentNodes xs ++ contentNodes ys := by
  induction xs with
  | nil => rfl
  | cons x xs ih => simp [contentNodes, ih]

theorem contentNodes_leaves (values : List String) :
    contentNodes (values.map fun value => .leaf tag value) =
      values.map fun value => leafNode tag value := by
  induction values with
  | nil => rfl
  | cons value values ih =>
    rw [List.map_cons, List.map_cons, contentNodes, ih]
    rfl

end Xml

namespace Provider

open Engine
open Markup (Node Item Listing Reading root?)

variable {σ : Type} {p : Provider} {src : Source σ} {s : σ} {q : Request} {verb : Verb}
  {m : String} {r : Record} {doc : Xml}

/-- What the header of a record says. -/
def headerItem (p : Provider) (r : Record) : Item where
  identifier := p.identifierOf r.uri
  datestamp := r.modified.datestamp
  deleted := r.deleted
  sets := if r.deleted then [] else p.settings.setDirectory.memberships r

/-- What a listing should say about a record: a full record that is not deleted has metadata. -/
def itemOf (p : Provider) (verb : Verb) (metadataPrefix : String) (r : Record) :
    Except Fault Item :=
  if verb = .listRecords ∧ r.deleted = false then
    (p.mappers.map metadataPrefix r).map ({ p.headerItem r with metadata := some · })
  else .ok (p.headerItem r)

/-- The text of the token that a page should end with. -/
def tokenText (p : Provider) (q : Request) (page : Page) : Option String :=
  match page.next with
  | some t => some (p.repository.codec.serialize t)
  | none => if q.resumptionToken.isSome then some "" else none

/-- A listing says what is on the page that the repository gives for a request. -/
def Lists (p : Provider) (src : Source σ) (s : σ) (q : Request) (verb : Verb) (l : Listing) :
    Prop :=
  ∃ request page m, listRequest q = .ok request ∧
    ((p.repository.find src request).run s).result = .ok page ∧ p.formatOfPage q page = .ok m ∧
    page.records.mapM (p.itemOf verb m) = .ok l.items ∧ l.token = p.tokenText q page

/-! ### Records -/

/-- What a header is read as. -/
def headerNode (p : Provider) (r : Record) : Node :=
  let sets := if r.deleted then [] else p.settings.setDirectory.memberships r
  .element "header" ((if r.deleted then [("status", "deleted")] else []).map Xml.readAttribute)
    (String.ofList (Xml.contentChars (.leaf "identifier" (p.identifierOf r.uri) ::
      .leaf "datestamp" r.modified.datestamp :: sets.map fun s => .leaf "setSpec" s)))
    (Xml.leafNode "identifier" (p.identifierOf r.uri) ::
      Xml.leafNode "datestamp" r.modified.datestamp ::
        sets.map fun s => Xml.leafNode "setSpec" s)

theorem nodes_header : (p.header r).nodes = [p.headerNode r] := by
  rw [headerNode, ← Xml.contentNodes_leaves]
  rfl

theorem header?_headerNode : (p.headerNode r).header? = some (p.headerItem r) := by
  have hstatus : Xml.readAttribute ("status", "deleted") = ("status", "deleted") := rfl
  cases hdeleted : r.deleted <;>
    simp [headerNode, headerItem, Node.header?, hdeleted, hstatus, Function.comp_def]

theorem leaf?_headerNode : (p.headerNode r).leaf? "resumptionToken" = none := by
  simp [headerNode, Node.leaf?]

theorem item?_headerNode : (p.headerNode r).item? = some (p.headerItem r) := by
  rw [← header?_headerNode]
  simp [headerNode, Node.item?]

theorem item?_of_listElement (h : p.listElement verb m r = .ok doc) :
    ∃ n item, doc.nodes = [n] ∧ n.leaf? "resumptionToken" = none ∧ n.item? = some item ∧
      p.itemOf verb m r = .ok item := by
  unfold listElement at h
  unfold itemOf
  by_cases hverb : verb = .listRecords
  · rw [if_pos hverb] at h
    unfold recordElement at h
    cases hdeleted : r.deleted with
    | true =>
      rw [hdeleted, if_pos rfl] at h
      cases h
      refine ⟨.element "record" [] (String.ofList (Xml.contentChars [p.header r]))
        [p.headerNode r], p.headerItem r, ?_, ?_, ?_, by simp⟩
      · simp [Xml.node, Xml.nodes, Xml.contentNodes, nodes_header]
      · simp [Node.leaf?]
      · simp [Node.item?, header?_headerNode]
    | false =>
      rw [hdeleted, if_neg Bool.false_ne_true] at h
      obtain ⟨metadata, hmetadata, hdoc⟩ := bind_eq_ok_iff.1 h
      cases hdoc
      refine ⟨_, { p.headerItem r with metadata := some metadata }, rfl, ?_, ?_, ?_⟩
      · simp [Node.leaf?]
      · simp [Xml.node, Xml.contentNodes, Xml.nodes, Xml.contentChars, Xml.chars, nodes_header,
          Node.item?, header?_headerNode]
      · simp [hverb, hmetadata, Except.map]
  · rw [if_neg hverb] at h
    cases h
    exact ⟨p.headerNode r, p.headerItem r, nodes_header, leaf?_headerNode, item?_headerNode,
      by simp [hverb]⟩

/-! ### Listings -/

theorem items?_of_mapM {rs : List Record} {elements : List Xml}
    (h : rs.mapM (p.listElement verb m) = .ok elements) :
    ∃ items, rs.mapM (p.itemOf verb m) = .ok items ∧ ∀ ns rest,
      Node.items? ns = some rest →
        Node.items? (Xml.contentNodes elements ++ ns) =
          some ⟨items ++ rest.items, rest.token⟩ := by
  induction rs generalizing elements with
  | nil =>
    cases h
    exact ⟨[], rfl, fun ns rest hrest => by simpa [Xml.contentNodes] using hrest⟩
  | cons r rs ih =>
    rw [List.mapM_cons] at h
    obtain ⟨element, helement, h⟩ := bind_eq_ok_iff.1 h
    obtain ⟨elements, helements, h⟩ := bind_eq_ok_iff.1 h
    cases h
    obtain ⟨n, item, hn, htoken, hitem, hof⟩ := item?_of_listElement helement
    obtain ⟨items, hitems, hread⟩ := ih helements
    refine ⟨item :: items, by simp [List.mapM_cons, hof, hitems], fun ns rest hrest => ?_⟩
    simp [Xml.contentNodes, hn, Node.items?, htoken, hitem, hread ns rest hrest]

theorem items?_tokenElements (page : Page) :
    Node.items? (Xml.contentNodes (p.tokenElements q page)) =
      some ⟨[], p.tokenText q page⟩ := by
  unfold tokenElements tokenText
  cases page.next with
  | some t =>
    change Node.items? [Xml.leafNode "resumptionToken" _] = _
    simp [Node.items?]
  | none =>
    simp only
    split_ifs
    · simp [Xml.contentNodes, Xml.nodes, Node.items?, Node.leaf?]
    · rfl

/-- **The answer that a page makes is read as that page.** -/
theorem listing?_of_listed (hverb : verb = .listIdentifiers ∨ verb = .listRecords) {page : Page}
    (h : p.listed q verb page = .ok doc) : ∃ m n items, p.formatOfPage q page = .ok m ∧
      page.records.mapM (p.itemOf verb m) = .ok items ∧ doc.nodes = [n] ∧
      n.listing? = some ⟨items, p.tokenText q page⟩ := by
  obtain ⟨m, hm, h⟩ := bind_eq_ok_iff.1 h
  split_ifs at h
  obtain ⟨elements, helements, h⟩ := bind_eq_ok_iff.1 h
  cases h
  obtain ⟨items, hitems, hread⟩ := items?_of_mapM helements
  have hcontent := hread _ _ (items?_tokenElements (p := p) (q := q) page)
  rw [← Xml.contentNodes_append, List.append_nil] at hcontent
  refine ⟨m, _, items, hm, hitems, rfl, ?_⟩
  have hname : verb.name = Verb.listIdentifiers.name ∨ verb.name = Verb.listRecords.name :=
    hverb.imp (congrArg Verb.name) (congrArg Verb.name)
  rw [Node.listing?, if_pos hname, hcontent]

theorem lists_of_answer (hverb : verb = .listIdentifiers ∨ verb = .listRecords)
    (h : ((p.answer src q verb).run s).result = .ok doc) {n : Node} (hn : doc.nodes = [n]) :
    ∃ l, n.listing? = some l ∧ p.Lists src s q verb l := by
  have hlist : ((p.list src verb q).run s).result = .ok doc := by
    rcases hverb with rfl | rfl <;> exact h
  rw [result_list] at hlist
  obtain ⟨request, hrequest, hlist⟩ := bind_eq_ok_iff.1 hlist
  obtain ⟨page, hpage, hlisted⟩ := bind_eq_ok_iff.1 hlist
  obtain ⟨m, n', items, hm, hitems, hn', hlisting⟩ := listing?_of_listed hverb hlisted
  obtain rfl : n = n' := List.singleton_inj.1 (hn.symm.trans hn')
  exact ⟨_, hlisting, request, page, m, hrequest, hpage, hm, hitems, rfl⟩

/-! ### Responses -/

theorem rest?_append (cs ds : List Char) : rest? cs (cs ++ ds) = some ds := by
  induction cs with
  | nil => rfl
  | cons c cs ih => rw [List.cons_append, rest?, if_pos rfl, ih]

/-- Arguments as a harvester sees them. -/
def argumentPairs (arguments : List (Argument × String)) : List (String × String) :=
  arguments.map fun a => (a.1.name, a.2)

/-- The element of an envelope is read as what was put into it. -/
theorem reading?_envelope (p : Provider) (echoed : List (Argument × String)) (now : Instant)
    {n : Node} (hn : doc.nodes = [n]) : ∃ root, (p.envelope echoed now doc).nodes = [root] ∧
      root.reading? = some ⟨now.datestamp, argumentPairs echoed, p.settings.baseUrl, n⟩ := by
  have hcontent : Xml.contentNodes [.leaf "responseDate" now.datestamp,
      .element "request" (argumentPairs echoed) [.text p.settings.baseUrl], doc] =
      [Xml.leafNode "responseDate" now.datestamp,
        Xml.leafNode "request" p.settings.baseUrl (argumentPairs echoed), n] := by
    simp only [Xml.contentNodes, hn]
    rfl
  refine ⟨_, rfl, ?_⟩
  change Node.reading? (.element "OAI-PMH" _ _ (Xml.contentNodes [.leaf "responseDate" _,
    .element "request" (argumentPairs echoed) [.text _], doc])) = _
  rw [hcontent]
  simp [Node.reading?]

/-- **A response that is written is read as its parts.** -/
theorem exists_root {trusted : String → Prop} (p : Provider) (echoed : List (Argument × String))
    (now : Instant) {n : Node}
    (htrusted : ∀ text, trusted text → (Markup.fragment? text.toList).isSome)
    (h : doc.Written trusted) (hn : doc.nodes = [n]) :
    ∃ root, root? (p.envelope echoed now doc).document = some root ∧ root.Plain trusted ∧
      root.reading? = some ⟨now.datestamp, argumentPairs echoed, p.settings.baseUrl, n⟩ := by
  obtain ⟨root, hroot, hreading⟩ := reading?_envelope p echoed now hn
  have hwritten := written_envelope (p := p) echoed now h
  refine ⟨root, ?_, hwritten.plain htrusted root (by simp [hroot]), hreading⟩
  have hfragment := hwritten.fragment?_chars htrusted
  rw [hroot] at hfragment
  simp [root?, Xml.document, rest?_append, hfragment]

theorem fault?_errorElement (code : String) (f : Fault) : ∃ n, (errorElement code f).nodes = [n] ∧
    n.fault? = some (code, f.detail) ∧ n.listing? = none := by
  refine ⟨Xml.leafNode "error" f.detail [("code", code)], rfl, ?_, ?_⟩
  · simp [Node.fault?, List.lookup_cons_self]
  · simp [Xml.leafNode, Node.listing?, Verb.name]

theorem nodes_of_isAnswer {trusted : String → Prop} (h : doc.IsAnswer trusted verb) :
    ∃ n, doc.nodes = [n] ∧ n.fault? = none := by
  obtain ⟨content, rfl⟩ := h.named
  refine ⟨_, rfl, ?_⟩
  have hname : verb.name ≠ "error" := by cases verb <;> decide
  simp [Node.fault?, Node.leaf?, hname]

theorem result_dispatch : ((p.dispatch src q).run s).result =
    q.validate >>= fun verb => ((p.answer src q verb).run s).result :=
  result_ofExcept_bind _ _ _

/-- The response that an answer or a fault makes. -/
def replied (p : Provider) (q : Request) (now : Instant) : Except Fault Xml → Except Fault Xml
  | .ok body => .ok (p.envelope q.arguments now body)
  | .error f =>
    match f.code? with
    | some code => .ok (p.envelope (echoed q f) now (errorElement code f))
    | none => .error f

theorem replied_eq_ok_iff {now : Instant} {x : Except Fault Xml} {doc : Xml} :
    p.replied q now x = .ok doc ↔
      (∃ body, x = .ok body ∧ doc = p.envelope q.arguments now body) ∨
      ∃ f code, x = .error f ∧ f.code? = some code ∧
        doc = p.envelope (echoed q f) now (errorElement code f) := by
  cases x with
  | ok body => simp [replied, eq_comm]
  | error f => cases hcode : f.code? <;> simp [replied, hcode, eq_comm]

theorem result_response (now : Instant) : ((p.response src q now).run s).result =
    p.replied q now ((p.dispatch src q).run s).result := by
  have hattempt : ((attempt (p.dispatch src q)).run s).result =
      .ok ((p.dispatch src q).run s).result := rfl
  rw [response, result_bind, hattempt, ok_bind]
  cases ((p.dispatch src q).run s).result with
  | ok body => rfl
  | error f =>
    simp only [replied]
    cases f.code? <;> rfl

/-- **What is read is what the provider had to say.**  A response is one document whose markup is
that of the vocabulary and of metadata.  It repeats the arguments in canonical order, and it has
either the code and the detail of a fault or, in answer to a listing, the items of the page and the
text of its token. -/
theorem respond_reads_back {σ τ : Type} {settings : Settings} {mappers : MapperRegistry}
    {explain : Explanation} {p : Provider} {t : τ}
    (hp : ((make settings mappers explain).run t).result = .ok p)
    (hmappers : mappers.Balanced) (src : Source σ) (s : σ) (q : Request) (now : Instant)
    {text : String} (h : ((p.respond src q now).run s).result = .ok text) :
    ∃ root r, root? text = some root ∧ root.Plain mappers.Makes ∧ root.reading? = some r ∧
      r.responseDate = now.datestamp ∧ r.baseUrl = settings.baseUrl ∧
      (∀ body, ((p.dispatch src q).run s).result = .ok body →
        r.arguments = argumentPairs q.arguments ∧ r.body.fault? = none ∧
          ∀ verb, q.validate = .ok verb → verb = .listIdentifiers ∨ verb = .listRecords →
            ∃ l, r.body.listing? = some l ∧ p.Lists src s q verb l) ∧
      ∀ f, ((p.dispatch src q).run s).result = .error f →
        r.arguments = argumentPairs (echoed q f) ∧ r.body.listing? = none ∧
          ∃ code, f.code? = some code ∧ r.body.fault? = some (code, f.detail) := by
  obtain ⟨-, rfl⟩ := of_make hp
  obtain rfl := mappers_of_make hp
  rw [result_respond, result_response] at h
  obtain ⟨doc, hdoc, rfl⟩ := map_eq_ok_iff.1 h
  cases hdispatch : ((p.dispatch src q).run s).result with
  | ok body =>
    rw [hdispatch] at hdoc
    cases hdoc
    obtain ⟨verb, hverb, hbody⟩ := bind_eq_ok_iff.1 (result_dispatch.symm.trans hdispatch)
    have hanswer := (yields_answer (fun _ h => h) verb s trivial).1 body hbody
    obtain ⟨n, hn, hfault⟩ := nodes_of_isAnswer hanswer
    obtain ⟨root, hroot, hplain, hreading⟩ := exists_root _ _ now hmappers hanswer.written hn
    refine ⟨root, _, hroot, hplain, hreading, rfl, rfl, fun body' hbody' => ?_, nofun⟩
    refine ⟨rfl, hfault, fun verb' hverb' hlists => ?_⟩
    obtain rfl : verb = verb' := Except.ok.inj (hverb.symm.trans hverb')
    exact lists_of_answer hlists hbody hn
  | error f =>
    rw [hdispatch, replied] at hdoc
    cases hcode : f.code? with
    | none =>
      rw [hcode] at hdoc
      cases hdoc
    | some code =>
      rw [hcode] at hdoc
      cases hdoc
      obtain ⟨n, hn, hfault, hlisting⟩ := fault?_errorElement code f
      obtain ⟨root, hroot, hplain, hreading⟩ := exists_root _ _ now hmappers written_errorElement hn
      refine ⟨root, _, hroot, hplain, hreading, rfl, rfl, nofun, fun f' hf' => ?_⟩
      obtain rfl : f = f' := Except.error.inj hf'
      exact ⟨rfl, hlisting, code, hcode, hfault⟩

/-! ### Records with a link -/

/-- Mappers that write the URI of a record as an element. -/
def uriMappers : MapperRegistry :=
  MapperRegistry.empty.register "oai_dc" fun r => .ok (String.ofList (Xml.leaf "dc" r.uri).chars)

/-- A provider with these mappers. -/
def readable : Provider where
  settings := sampleSettings
  formats := FormatRegistry.standard.retain uriMappers.contains
  mappers := uriMappers
  explain := plainWords

theorem make_readable :
    ((make sampleSettings uriMappers plainWords).run ()).result = .ok readable :=
  make_eq_ok_iff.2 ⟨validate_sampleSettings, _, rfl, rfl⟩

theorem balanced_uriMappers : uriMappers.Balanced := by
  rintro text ⟨m, r, h⟩
  obtain rfl : String.ofList (Xml.leaf "dc" r.uri).chars = text := by
    rw [MapperRegistry.map, uriMappers, MapperRegistry.register, OrderedMap.find?_insert] at h
    split_ifs at h
    · exact Except.ok.inj h
    · cases h
  have hread : Markup.Reads (Xml.leaf "dc" r.uri).chars [Xml.leafNode "dc" r.uri] :=
    Xml.reads_element (by decide) (by simp) (by
      simpa [Xml.contentChars, Xml.chars, Xml.contentNodes, Xml.nodes] using Xml.fills_text r.uri)
  have hfragment := (hread.append Markup.fills_nil).fragment?
  rw [List.append_nil] at hfragment
  rw [String.toList_ofList, hfragment]
  rfl

/-- A request for all records. -/
def recordsRequest : Request where
  verb := some "ListRecords"
  metadataPrefix := some "oai_dc"

theorem exists_page_readable : ∃ page, ((readable.repository.find Store.source
    (.fresh "oai_dc")).run Store.sample).result = .ok page ∧
      page.next = none ∧ page.records.isEmpty = false := by
  have hplan : readable.repository.planned (.fresh "oai_dc") = .ok samplePlan := rfl
  have hserves := Store.serves Store.sample_reachable.wellFormed
  have hpage : ((readable.repository.pageOver Store.sample.records samplePlan).isTerminal &&
      !(readable.repository.pageOver Store.sample.records samplePlan).records.isEmpty) = true := by
    decide +kernel
  rw [Page.isTerminal, Bool.and_eq_true, Option.isNone_iff_eq_none, Bool.not_eq_true'] at hpage
  refine ⟨_, ?_, hpage⟩
  rw [(Repository.ensures_find hserves _ _ rfl).1, hplan]
  rfl

theorem exists_listed_readable {page : Page} (hnext : page.next = none)
    (hrecords : page.records.isEmpty = false) :
    ∃ body, readable.listed recordsRequest .listRecords page = .ok body := by
  have hformat : readable.formatOfPage recordsRequest page = .ok "oai_dc" := by
    rw [formatOfPage, hnext]
    rfl
  have helement : ∀ r, ∃ x, readable.listElement .listRecords "oai_dc" r = .ok x := by
    intro r
    rw [listElement, if_pos rfl, recordElement]
    split_ifs
    · exact ⟨_, rfl⟩
    · exact ⟨_, rfl⟩
  obtain ⟨elements, helements⟩ : ∃ elements,
      page.records.mapM (readable.listElement .listRecords "oai_dc") = .ok elements :=
    exists_mapM_eq_ok helement
  rw [listed, hformat, ok_bind, hrecords, helements]
  exact ⟨_, rfl⟩

/-- The response to the request is read as a listing with metadata. -/
theorem respond_reads_back_records : ∃ text root r l,
    ((readable.respond Store.source recordsRequest (Store.sampleTime 60)).run
      Store.sample).result = .ok text ∧ root? text = some root ∧ root.reading? = some r ∧
    r.arguments = [("verb", "ListRecords"), ("metadataPrefix", "oai_dc")] ∧
    r.body.listing? = some l ∧
    readable.Lists Store.source Store.sample recordsRequest .listRecords l := by
  have hmake : ((make sampleSettings uriMappers plainWords).run ()).result = .ok readable :=
    make_eq_ok_iff.2 ⟨validate_sampleSettings, _, rfl, rfl⟩
  obtain ⟨page, hpage, hnext, hrecords⟩ := exists_page_readable
  obtain ⟨body, hlisted⟩ := exists_listed_readable hnext hrecords
  have hdispatch : ((readable.dispatch Store.source recordsRequest).run Store.sample).result =
      .ok body := by
    have hvalid : recordsRequest.validate = .ok .listRecords := rfl
    have hrequest : listRequest recordsRequest = .ok (.fresh "oai_dc") := rfl
    rw [result_dispatch, hvalid, ok_bind, answer, result_list, hrequest, ok_bind, hpage, ok_bind,
      hlisted]
  obtain ⟨text, htext⟩ : ∃ text, ((readable.respond Store.source recordsRequest
      (Store.sampleTime 60)).run Store.sample).result = .ok text := by
    rw [result_respond, result_response, hdispatch]
    exact ⟨_, rfl⟩
  obtain ⟨root, r, hroot, -, hreading, -, -, hok, -⟩ := respond_reads_back hmake
    balanced_uriMappers Store.source Store.sample recordsRequest (Store.sampleTime 60) htext
  obtain ⟨harguments, -, hlists⟩ := hok body hdispatch
  obtain ⟨l, hl, hpage⟩ := hlists .listRecords rfl (.inr rfl)
  exact ⟨text, root, r, l, htext, hroot, hreading, harguments, hl, hpage⟩

end Provider

end Harvest
