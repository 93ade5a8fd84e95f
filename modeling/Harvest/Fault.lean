/-!
# Faults

Everything that can go wrong while answering a harvester.  A fault has a kind and a detail.
Seven kinds belong to the protocol and are part of a normal answer (`Fault.Kind.code?`); the
other four report a failing store, mapper, configuration or disk.

Stores and mappers raise faults of any kind with any detail.  The wordings of the faults this
library raises itself stand below the type, each under the name of its cause.
-/

namespace Harvest

/-- What a fault is about. -/
inductive Fault.Kind where
  /-- The verb is missing, repeated or unknown. -/
  | badVerb
  /-- An argument is missing, repeated, unknown or has an illegal value. -/
  | badArgument
  /-- A resumption token is malformed or conflicts with the request. -/
  | badResumptionToken
  /-- A listing came out empty. -/
  | noRecordsMatch
  /-- An identifier is unknown or not exposed. -/
  | idDoesNotExist
  /-- A set is unknown, or there are no sets at all. -/
  | noSetHierarchy
  /-- A metadata format is not available. -/
  | cannotDisseminateFormat
  /-- The record store failed. -/
  | store
  /-- A mapper could not express a record. -/
  | mapping
  /-- The settings are not acceptable. -/
  | config
  /-- A file could not be read. -/
  | io
  deriving DecidableEq, Repr

namespace Fault.Kind

/-- The protocol's error code, for the kinds that are part of the protocol. -/
def code? : Kind → Option String
  | badVerb => some "badVerb"
  | badArgument => some "badArgument"
  | badResumptionToken => some "badResumptionToken"
  | noRecordsMatch => some "noRecordsMatch"
  | idDoesNotExist => some "idDoesNotExist"
  | noSetHierarchy => some "noSetHierarchy"
  | cannotDisseminateFormat => some "cannotDisseminateFormat"
  | store | mapping | config | io => none

/-- The heading that precedes the detail of a fault in a message. -/
def heading : Kind → String
  | badVerb => "Bad verb"
  | badArgument => "Bad argument"
  | badResumptionToken => "Bad resumption token"
  | noRecordsMatch => "No records match"
  | idDoesNotExist => "Identifier does not exist"
  | noSetHierarchy => "No set hierarchy"
  | cannotDisseminateFormat => "Cannot disseminate format"
  | store => "Record store error"
  | mapping => "Metadata mapping error"
  | config => "Invalid configuration"
  | io => "IO error"

/-- A kind of the protocol is an expected answer, any other one a failure. -/
def isProtocol (k : Kind) : Bool := k.code?.isSome

end Fault.Kind

/-- A fault: what it is about, and a detail for human readers. -/
structure Fault where
  kind : Fault.Kind
  detail : String
  deriving DecidableEq, Repr

namespace Fault

/-- The protocol's error code of a fault, if it has one. -/
def code? (f : Fault) : Option String := f.kind.code?

/-- A fault of the protocol is an expected answer, any other one a failure. -/
def isProtocol (f : Fault) : Bool := f.kind.isProtocol

/-- The full message: heading and detail. -/
def message (f : Fault) : String := f.kind.heading ++ ": " ++ f.detail

/-! ### Verbs and arguments -/

/-- The verb came twice. -/
def repeatedVerb : Fault := ⟨.badVerb, "verb argument is repeated"⟩

/-- There is no verb. -/
def missingVerb : Fault := ⟨.badVerb, "missing verb argument"⟩

/-- The verb is none of the six. -/
def illegalVerb (name : String) : Fault := ⟨.badVerb, "illegal verb '" ++ name ++ "'"⟩

/-- An argument came twice. -/
def repeatedArgument (name : String) : Fault :=
  ⟨.badArgument, "argument '" ++ name ++ "' is repeated"⟩

/-- A name is no argument of the protocol. -/
def illegalArgument (name : String) : Fault := ⟨.badArgument, "illegal argument '" ++ name ++ "'"⟩

/-- The verb does not take an argument. -/
def argumentNotAllowed (name verb : String) : Fault :=
  ⟨.badArgument, "'" ++ name ++ "' is not allowed for " ++ verb⟩

/-- The verb cannot do without an argument. -/
def missingArgument (name : String) : Fault :=
  ⟨.badArgument, "missing required argument '" ++ name ++ "'"⟩

/-- Something was given beside a token. -/
def tokenIsExclusive : Fault := ⟨.badArgument, "resumptionToken is an exclusive argument"⟩

/-- A bound is no datestamp. -/
def invalidDatestamp (text : String) : Fault :=
  ⟨.badArgument, "invalid datestamp '" ++ text ++ "'"⟩

/-- One bound is a day, the other one a second. -/
def mixedGranularity : Fault :=
  ⟨.badArgument, "'from' and 'until' must have the same granularity"⟩

/-- The lower bound is after the upper one. -/
def emptyWindow : Fault := ⟨.badArgument, "'from' must not be later than 'until'"⟩

/-- A listing from the start names no format. -/
def missingPrefix : Fault := ⟨.badArgument, "missing metadataPrefix"⟩

/-- A single record needs identifier and format. -/
def incompleteGetRecord : Fault :=
  ⟨.badArgument, "GetRecord needs identifier and metadataPrefix"⟩

/-! ### Resumption tokens -/

/-- A token is of no use, for a reason. -/
def badToken (detail : String) : Fault := ⟨.badResumptionToken, detail⟩

/-- A token is empty or too long. -/
def tokenLength : Fault := badToken "token length out of range"

/-- A token has more or fewer than three parts. -/
def tokenParts : Fault := badToken "expected three dot-separated parts"

/-- A token is of another version. -/
def tokenVersion : Fault := badToken "unsupported token version"

/-- A token's checksum is wrong. -/
def tokenChecksum : Fault := badToken "integrity check failed"

/-- The payload of a token cannot be decoded. -/
def tokenNotBase64 (detail : String) : Fault := badToken ("payload is not base64: " ++ detail)

/-- The payload of a token is not what it should be, for a reason. -/
def tokenPayload (reason : String) : Fault := badToken ("payload is not a token: " ++ reason)

/-- A token names no format. -/
def tokenWithoutPrefix : Fault := badToken "missing metadata prefix"

/-- What was given beside a token differs from it. -/
def tokenConflict : Fault := badToken "request arguments conflict with the resumption token"

/-- A token names a format that is not there. -/
def tokenFormat (format : String) : Fault :=
  badToken ("token names unknown format '" ++ format ++ "'")

/-- A token points beyond the record types of its format. -/
def tokenPosition : Fault := badToken "token position is outside the format's record types"

/-- A listing of sets was to be continued. -/
def setsNotPaginated : Fault := badToken "set listings are not paginated"

/-! ### Records, sets and formats -/

/-- A listing from the start has no records. -/
def emptyListing : Fault := ⟨.noRecordsMatch, "no records match the request"⟩

/-- There is no record of a URI, or none that may be shown. -/
def noRecord (uri : String) : Fault := ⟨.idDoesNotExist, "no record '" ++ uri ++ "'"⟩

/-- An identifier is not one of the provider's. -/
def unknownIdentifier (identifier : String) : Fault :=
  ⟨.idDoesNotExist, "unknown identifier '" ++ identifier ++ "'"⟩

/-- There is no set of a name. -/
def unknownSet (name : String) : Fault := ⟨.noSetHierarchy, "unknown set '" ++ name ++ "'"⟩

/-- There are no sets. -/
def noSets : Fault := ⟨.noSetHierarchy, "this repository does not support sets"⟩

/-- There is no format of a prefix. -/
def unknownFormat (format : String) : Fault :=
  ⟨.cannotDisseminateFormat, "unknown metadata prefix '" ++ format ++ "'"⟩

/-- A format does not cover the type of a record. -/
def typeNotInFormat (recordType format : String) : Fault :=
  ⟨.cannotDisseminateFormat, recordType ++ " records are not available as " ++ format⟩

/-- There are no formats to list. -/
def noFormats : Fault := ⟨.cannotDisseminateFormat, "no metadata formats available"⟩

/-- There is no mapper for a format. -/
def noMapper (format : String) : Fault :=
  ⟨.cannotDisseminateFormat, "no mapper for '" ++ format ++ "'"⟩

/-! ### Stores -/

/-- Another record holds the place of a record. -/
def positionTaken (uri holder : String) : Fault :=
  ⟨.store, uri ++ " has the same harvest position as " ++ holder⟩

/-- A record came from a source out of order. -/
def outOfOrder (uri : String) : Fault :=
  ⟨.store, "record source returned " ++ uri ++ " out of cursor order"⟩

/-! ### Settings -/

/-- Settings are not acceptable, for a reason. -/
def badSettings (detail : String) : Fault := ⟨.config, detail⟩

/-- A text is not one of settings, for a reason. -/
def unreadableSettings (reason : String) : Fault :=
  badSettings ("failed to parse configuration: " ++ reason)

/-- The namespace of identifiers is empty or has a slash. -/
def badNamespace : Fault :=
  badSettings "identifier_namespace must be non-empty and contain no '/'"

/-- A named set has neither sponsors nor repository codes. -/
def setWithoutRule (name : String) : Fault :=
  badSettings ("set '" ++ name ++ "' must define sponsors or repo_codes")

/-- A named set has both sponsors and repository codes. -/
def setWithTwoRules (name : String) : Fault :=
  badSettings ("set '" ++ name ++ "' defines both sponsors and repo_codes")

/-- A repository is listed twice. -/
def repositoryTwice (id : String) : Fault :=
  badSettings ("repository " ++ id ++ " configured twice")

/-- A format has no record types. -/
def noRecordTypes : Fault := badSettings "format lists no record types"

/-- A format has pages with no room. -/
def emptyPages : Fault := badSettings "page size must be positive"

/-- A format has a record type twice. -/
def recordTypeTwice (name : String) : Fault :=
  badSettings ("record type '" ++ name ++ "' listed twice")

/-- Options are given for a format that is not there. -/
def overrideOfUnknownFormat (format : String) : Fault :=
  badSettings ("unknown metadata prefix '" ++ format ++ "'")

/-- There is no record type of a name. -/
def unknownRecordType (name : String) : Fault :=
  badSettings ("unknown record type '" ++ name ++ "'")

end Fault

end Harvest
