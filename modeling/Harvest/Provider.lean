import Harvest.Datestamp
import Harvest.Listing
import Harvest.Mapper
import Harvest.Request
import Harvest.Xml

/-!
# The provider

A provider takes a request, validates it, asks the repository and puts together the answer.
Faults of the protocol are part of a normal answer, as an `error` element; only a failing store
or mapper makes `Provider.respond` fail, after it has been logged.
-/

namespace Harvest

/-- Answers requests.  Its formats are those that have a mapper. -/
structure Provider where
  settings : Settings
  formats : FormatRegistry
  mappers : MapperRegistry
  explain : Explanation

namespace Provider

/-- A provider with checked settings.  A missing secret is logged. -/
def make {σ : Type} (settings : Settings) (mappers : MapperRegistry) (explain : Explanation) :
    Engine σ Provider := do
  Engine.ofExcept settings.validate
  if !settings.hasTokenSecret then
    Engine.note .warning "token_secret is empty; resumption tokens can be forged"
  let formats ← Engine.ofExcept settings.formatRegistry
  return { settings, formats := formats.retain mappers.contains, mappers, explain }

/-- The repository that the provider asks. -/
def repository (p : Provider) : Repository := ⟨p.settings, p.formats, p.explain⟩

/-! ### Identifiers -/

/-- The identifier of a record with a URI. -/
def identifierOf (p : Provider) (uri : String) : String :=
  "oai:" ++ p.settings.identifierNamespace ++ "/" ++ uri

/-- What follows a given start. -/
def rest? : List Char → List Char → Option (List Char)
  | [], cs => some cs
  | _ :: _, [] => none
  | d :: ds, c :: cs => if d = c then rest? ds cs else none

/-- The URI inside an identifier, which must start with a slash. -/
def uriOf? (p : Provider) (identifier : String) : Option String := do
  let cs ← rest? ['o', 'a', 'i', ':'] identifier.toList
  let cs ← rest? p.settings.identifierNamespace.toList cs
  let cs ← rest? ['/'] cs
  if cs.head? = some '/' then some (String.ofList cs) else none

/-- The URI inside an identifier. -/
def uriOf (p : Provider) (identifier : String) : Except Fault String :=
  match p.uriOf? identifier with
  | some uri => .ok uri
  | none => .error (.unknownIdentifier identifier)

/-! ### Records -/

/-- The header of a record. -/
def header (p : Provider) (r : Record) : Xml :=
  let sets := if r.deleted then [] else p.settings.setDirectory.memberships r
  .element "header" (if r.deleted then [("status", "deleted")] else [])
    (.leaf "identifier" (p.identifierOf r.uri) :: .leaf "datestamp" r.modified.datestamp ::
      sets.map fun s => .leaf "setSpec" s)

/-- A record with its metadata; a deleted one has none. -/
def recordElement (p : Provider) (metadataPrefix : String) (r : Record) : Except Fault Xml :=
  if r.deleted then .ok (.node "record" [p.header r])
  else do
    let metadata ← p.mappers.map metadataPrefix r
    return .node "record" [p.header r, .node "metadata" [.markup metadata]]

/-- A record in a listing: in full, or its header. -/
def listElement (p : Provider) (verb : Verb) (metadataPrefix : String) (r : Record) :
    Except Fault Xml :=
  if verb = .listRecords then p.recordElement metadataPrefix r else .ok (p.header r)

/-! ### The verbs -/

/-- The answer to `Identify`. -/
def identify {σ : Type} (p : Provider) (src : Source σ) : Engine σ Xml := do
  let earliest ← Engine.ask src.earliest
  return .node Verb.identify.name [
    .leaf "repositoryName" p.settings.repositoryName,
    .leaf "baseURL" p.settings.baseUrl,
    .leaf "protocolVersion" "2.0",
    .leaf "adminEmail" p.settings.adminEmail,
    .leaf "earliestDatestamp" (earliest.getD .epoch).datestamp,
    .leaf "deletedRecord" "persistent",
    .leaf "granularity" "YYYY-MM-DDThh:mm:ssZ"]

/-- The record type that a listing of formats is about, if it is about one record. -/
def typeAskedFor {σ : Type} (p : Provider) (src : Source σ) (q : Request) :
    Engine σ (Option RecordType) :=
  match q.identifier with
  | none => return none
  | some identifier => do
    let uri ← Engine.ofExcept (p.uriOf identifier)
    let record ← p.repository.locate src uri
    return some record.recordType

/-- The formats that cover a record type, or all of them. -/
def formatsFor (p : Provider) (t : Option RecordType) : List MetadataFormat :=
  p.formats.formats.filter fun f =>
    t.all fun t => (p.formats.options? f.metadataPrefix).any (·.supports t)

/-- A format in a listing of formats. -/
def formatElement (f : MetadataFormat) : Xml :=
  .node "metadataFormat" [.leaf "metadataPrefix" f.metadataPrefix, .leaf "schema" f.schema,
    .leaf "metadataNamespace" f.xmlNamespace]

/-- The answer to `ListMetadataFormats`. -/
def listMetadataFormats {σ : Type} (p : Provider) (src : Source σ) (q : Request) :
    Engine σ Xml := do
  let formats := p.formatsFor (← p.typeAskedFor src q)
  if formats.isEmpty then Engine.fail .noFormats
  else return .node Verb.listMetadataFormats.name (formats.map formatElement)

/-- A set in a listing of sets. -/
def setElement (d : SetDescription) : Xml :=
  .node "set" (.leaf "setSpec" d.spec :: .leaf "setName" d.name ::
    match d.description with
    | some text => [.node "setDescription" [.leaf "description" text]]
    | none => [])

/-- The answer to `ListSets`. -/
def listSets (p : Provider) (q : Request) : Except Fault Xml :=
  if q.resumptionToken.isSome then .error .setsNotPaginated
  else
    let sets := p.settings.setDirectory.descriptions
    if sets.isEmpty then .error .noSets
    else .ok (.node Verb.listSets.name (sets.map setElement))

/-- The answer to `GetRecord`. -/
def getRecord {σ : Type} (p : Provider) (src : Source σ) (q : Request) : Engine σ Xml :=
  match q.identifier, q.metadataPrefix with
  | some identifier, some metadataPrefix => do
    let uri ← Engine.ofExcept (p.uriOf identifier)
    let record ← p.repository.fetch src uri metadataPrefix
    let element ← Engine.ofExcept (p.recordElement metadataPrefix record)
    return .node Verb.getRecord.name [element]
  | _, _ => Engine.fail .incompleteGetRecord

/-- Read a bound, if it is given. -/
def bound? (read : String → Except Fault Datestamp) :
    Option String → Except Fault (Option Datestamp)
  | none => .ok none
  | some s => (read s).map some

/-- What a listing from the start asks for.  Both bounds must be equally precise. -/
def freshRequest (q : Request) : Except Fault ListRequest := do
  let since ← bound? Datestamp.readLower q.since
  let upTo ← bound? Datestamp.readUpper q.upTo
  if let (some s, some u) := (since, upTo) then
    if s.granularity ≠ u.granularity then throw .mixedGranularity
  return {
    metadataPrefix := some (q.metadataPrefix.getD "")
    set := q.set
    since := since.map (·.value)
    upTo := upTo.map (·.value) }

/-- What a listing asks for. -/
def listRequest (q : Request) : Except Fault ListRequest :=
  match q.resumptionToken with
  | some token => .ok (.resume token)
  | none => freshRequest q

/-- The format of a page: it is in the token for the next page, in the request, or in the token
of the request. -/
def formatOfPage (p : Provider) (q : Request) (page : Page) : Except Fault String :=
  match page.next, q.metadataPrefix, q.resumptionToken with
  | some t, _, _ => .ok t.metadataPrefix
  | none, some metadataPrefix, _ => .ok metadataPrefix
  | none, none, some raw => (p.repository.codec.deserialize raw).map (·.metadataPrefix)
  | none, none, none => .error .missingPrefix

/-- The token at the end of a page.  The last page of a listing that went on has an empty one. -/
def tokenElements (p : Provider) (q : Request) (page : Page) : List Xml :=
  match page.next with
  | some t => [.leaf "resumptionToken" (p.repository.codec.serialize t)]
  | none => if q.resumptionToken.isSome then [.void "resumptionToken"] else []

/-- The answer to `ListIdentifiers` and `ListRecords`. -/
def list {σ : Type} (p : Provider) (src : Source σ) (verb : Verb) (q : Request) :
    Engine σ Xml := do
  let request ← Engine.ofExcept (listRequest q)
  let page ← p.repository.find src request
  let metadataPrefix ← Engine.ofExcept (p.formatOfPage q page)
  if page.records.isEmpty && q.resumptionToken.isNone then Engine.fail .emptyListing
  else
    let elements ← Engine.ofExcept (page.records.mapM (p.listElement verb metadataPrefix))
    return .node verb.name (elements ++ p.tokenElements q page)

/-- The answer to a request whose arguments fit its verb. -/
def answer {σ : Type} (p : Provider) (src : Source σ) (q : Request) : Verb → Engine σ Xml
  | .identify => p.identify src
  | .listMetadataFormats => p.listMetadataFormats src q
  | .listSets => Engine.ofExcept (p.listSets q)
  | .getRecord => p.getRecord src q
  | .listIdentifiers => p.list src .listIdentifiers q
  | .listRecords => p.list src .listRecords q

/-! ### Responses -/

/-- The namespace of responses. -/
def responseNamespace : String := "http://www.openarchives.org/OAI/2.0/"

/-- The schema of responses. -/
def responseSchema : String := "http://www.openarchives.org/OAI/2.0/OAI-PMH.xsd"

/-- The namespace of attributes that name schemas. -/
def schemaNamespace : String := "http://www.w3.org/2001/XMLSchema-instance"

/-- A response: when it was made, the request with the arguments it repeats, and the answer. -/
def envelope (p : Provider) (echoed : List (Argument × String)) (now : Instant) (body : Xml) :
    Xml :=
  .element "OAI-PMH"
    [("xmlns", responseNamespace), ("xmlns:xsi", schemaNamespace),
      ("xsi:schemaLocation", responseNamespace ++ " " ++ responseSchema)]
    [.leaf "responseDate" now.datestamp,
      .element "request" (echoed.map fun a => (a.1.name, a.2)) [.text p.settings.baseUrl],
      body]

/-- Validate a request and answer it. -/
def dispatch {σ : Type} (p : Provider) (src : Source σ) (q : Request) : Engine σ Xml := do
  let verb ← Engine.ofExcept q.validate
  p.answer src q verb

/-- The arguments that a response repeats beside a fault: none if the verb or the arguments are
at fault. -/
def echoed (q : Request) (f : Fault) : List (Argument × String) :=
  if f.kind = .badVerb ∨ f.kind = .badArgument then []
  else
    match q.validate with
    | .ok _ => q.arguments
    | .error _ => []

/-- The element of a fault. -/
def errorElement (code : String) (f : Fault) : Xml :=
  .element "error" [("code", code)] [.text f.detail]

/-- The response to a request at a time.  A fault that is not one of the protocol is logged and
passed on. -/
def response {σ : Type} (p : Provider) (src : Source σ) (q : Request) (now : Instant) :
    Engine σ Xml := do
  match ← Engine.attempt (p.dispatch src q) with
  | .ok body => return p.envelope q.arguments now body
  | .error f =>
    match f.code? with
    | some code =>
      Engine.note .debug (code ++ ": " ++ f.detail)
      return p.envelope (echoed q f) now (errorElement code f)
    | none =>
      Engine.note .error ("request failed: " ++ f.message)
      Engine.fail f

/-- The text of the response to a request at a time. -/
def respond {σ : Type} (p : Provider) (src : Source σ) (q : Request) (now : Instant) :
    Engine σ String := do
  let x ← p.response src q now
  return x.document

end Provider

end Harvest
