import Harvest.Fault

/-!
# Requests

A request holds the arguments of one query exactly as they arrived (`Request.ofPairs`).  It
remembers which arguments came twice and which are no arguments of the protocol, so that
`Request.validate` can reject them.  `Request.arguments` lists what is present in canonical
order, the form in which an answer repeats its request.
-/

namespace Harvest

/-- The six verbs of the protocol. -/
inductive Verb where
  /-- Describe the repository. -/
  | identify
  /-- List the metadata formats, of the repository or of one record. -/
  | listMetadataFormats
  /-- List the sets. -/
  | listSets
  /-- Fetch one record. -/
  | getRecord
  /-- List record headers. -/
  | listIdentifiers
  /-- List full records. -/
  | listRecords
  deriving DecidableEq, Repr

/-- The arguments of the protocol, in canonical order. -/
inductive Argument where
  | verb
  | identifier
  | metadataPrefix
  | since
  | upTo
  | set
  | resumptionToken
  deriving DecidableEq, Repr

namespace Argument

/-- All arguments in canonical order. -/
def all : List Argument :=
  [verb, identifier, metadataPrefix, since, upTo, set, resumptionToken]

/-- The name of an argument in a query. -/
def name : Argument → String
  | verb => "verb"
  | identifier => "identifier"
  | metadataPrefix => "metadataPrefix"
  | since => "from"
  | upTo => "until"
  | set => "set"
  | resumptionToken => "resumptionToken"

/-- The argument of a name. -/
def ofName? (s : String) : Option Argument := all.find? (·.name = s)

end Argument

namespace Verb

/-- All verbs. -/
def all : List Verb :=
  [identify, listMetadataFormats, listSets, getRecord, listIdentifiers, listRecords]

/-- The name of a verb in a query; it is also the name of the element that answers it. -/
def name : Verb → String
  | identify => "Identify"
  | listMetadataFormats => "ListMetadataFormats"
  | listSets => "ListSets"
  | getRecord => "GetRecord"
  | listIdentifiers => "ListIdentifiers"
  | listRecords => "ListRecords"

/-- The verb of a name. -/
def ofName? (s : String) : Option Verb := all.find? (·.name = s)

/-- The verb of a name, or the fault that there is none. -/
def ofName (s : String) : Except Fault Verb :=
  match ofName? s with
  | some v => .ok v
  | none => .error (.illegalVerb s)

/-- The arguments a verb may have beside `verb` itself. -/
def allowed : Verb → List Argument
  | identify => []
  | listMetadataFormats => [.identifier]
  | listSets => [.resumptionToken]
  | getRecord => [.identifier, .metadataPrefix]
  | listIdentifiers | listRecords =>
    [.metadataPrefix, .since, .upTo, .set, .resumptionToken]

end Verb

/-- The arguments of one query as they arrived. -/
structure Request where
  verb : Option String := none
  identifier : Option String := none
  metadataPrefix : Option String := none
  since : Option String := none
  upTo : Option String := none
  set : Option String := none
  resumptionToken : Option String := none
  /-- Arguments that came again after their first value, in order of arrival. -/
  repeated : List Argument := []
  /-- Names that are no arguments of the protocol, in order of arrival. -/
  unknown : List String := []
  deriving DecidableEq, Repr

namespace Request

/-- The value of an argument. -/
def value? (r : Request) : Argument → Option String
  | .verb => r.verb
  | .identifier => r.identifier
  | .metadataPrefix => r.metadataPrefix
  | .since => r.since
  | .upTo => r.upTo
  | .set => r.set
  | .resumptionToken => r.resumptionToken

/-- Give an argument a value, in place of any earlier one. -/
def withValue (r : Request) (a : Argument) (v : String) : Request :=
  match a with
  | .verb => { r with verb := some v }
  | .identifier => { r with identifier := some v }
  | .metadataPrefix => { r with metadataPrefix := some v }
  | .since => { r with since := some v }
  | .upTo => { r with upTo := some v }
  | .set => { r with set := some v }
  | .resumptionToken => { r with resumptionToken := some v }

@[simp]
theorem value?_withValue (r : Request) (a b : Argument) (v : String) :
    (r.withValue a v).value? b = if b = a then some v else r.value? b := by
  cases a <;> cases b <;> rfl

@[simp]
theorem repeated_withValue (r : Request) (a : Argument) (v : String) :
    (r.withValue a v).repeated = r.repeated := by
  cases a <;> rfl

@[simp]
theorem unknown_withValue (r : Request) (a : Argument) (v : String) :
    (r.withValue a v).unknown = r.unknown := by
  cases a <;> rfl

/-- A request for a verb, with no other arguments. -/
def ofVerb (name : String) : Request := { verb := some name }

/-- Take in one pair of a query: the first value of an argument counts, later ones and names
that are no arguments are remembered. -/
def addPair (r : Request) (key value : String) : Request :=
  match Argument.ofName? key with
  | none => { r with unknown := r.unknown ++ [key] }
  | some a =>
    if (r.value? a).isSome then { r with repeated := r.repeated ++ [a] }
    else r.withValue a value

/-- The request that a query's pairs make. -/
def ofPairs (pairs : List (String × String)) : Request :=
  pairs.foldl (fun r p => r.addPair p.1 p.2) {}

/-- The arguments that are present, with their values, in canonical order. -/
def arguments (r : Request) : List (Argument × String) :=
  Argument.all.filterMap fun a => (r.value? a).map fun v => (a, v)

/-- The arguments that are present beside the verb, in canonical order. -/
def present (r : Request) : List Argument :=
  Argument.all.filter fun a => a ≠ .verb ∧ (r.value? a).isSome

/-- Insist on an argument. -/
def require (r : Request) (a : Argument) : Except Fault Unit :=
  if (r.value? a).isSome then .ok () else .error (.missingArgument a.name)

/-- The arguments a verb cannot do without.  A listing is continued by its token alone. -/
def requireFor (r : Request) : Verb → Except Fault Unit
  | .identify | .listMetadataFormats | .listSets => .ok ()
  | .getRecord => do
    r.require .identifier
    r.require .metadataPrefix
  | .listIdentifiers | .listRecords =>
    if r.resumptionToken.isSome then
      if r.present.length > 1 then .error .tokenIsExclusive else .ok ()
    else r.require .metadataPrefix

/-- The verb of a request whose arguments fit it.  Faults of the verb come first, then repeated
and unknown arguments, then those the verb does not allow, then missing ones. -/
def validate (r : Request) : Except Fault Verb := do
  if Argument.verb ∈ r.repeated then throw .repeatedVerb
  let some name := r.verb | throw .missingVerb
  let verb ← Verb.ofName name
  if let a :: _ := r.repeated then throw (.repeatedArgument a.name)
  if let s :: _ := r.unknown then throw (.illegalArgument s)
  if let some a := r.present.find? (· ∉ verb.allowed) then
    throw (.argumentNotAllowed a.name verb.name)
  r.requireFor verb
  return verb

end Request

end Harvest
