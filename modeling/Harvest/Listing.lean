import Harvest.Settings
import Harvest.Source
import Harvest.Text
import Harvest.Token.Codec

/-!
# Listings

A listing walks through the record types of a format, one after the other, and through the
records of each type in the order of their cursors.  It reads them in batches, keeps those that
may be shown and belong to the set, and stops as soon as it knows whether anything is left beyond
the page.  `Repository.find` gives one page, with a token for the next one unless nothing is
left.

A token holds a cursor, not a count.  So records that come, go or change between two pages never
make a listing skip or repeat a record that stays where it is.

A source is not trusted to keep the order: records that are not after the last one are a fault.
Hence every batch of a type leaves fewer cursors to walk along (`Pass.remaining_sift_lt`), and a
walk ends over any source whatsoever.
-/

namespace Harvest

/-! ### Requests and pages -/

/-- What a listing is asked for: a format, with an optional set and bounds, or a token.  Whatever
is given beside a token must agree with it. -/
structure ListRequest where
  metadataPrefix : Option String := none
  set : Option String := none
  since : Option Instant := none
  upTo : Option Instant := none
  token : Option String := none
  deriving DecidableEq, Repr

namespace ListRequest

/-- A listing from the start. -/
def fresh (metadataPrefix : String) : ListRequest := { metadataPrefix := some metadataPrefix }

/-- A listing that goes on where a token says. -/
def resume (token : String) : ListRequest := { token := some token }

end ListRequest

/-- A page of a listing.  The last page has no token. -/
structure Page where
  records : List Record
  next : Option ResumptionToken
  deriving Repr

/-- Whether a page is the last one. -/
def Page.isTerminal (p : Page) : Bool := p.next.isNone

/-! ### Sifting a batch -/

/-- What stays the same while one page is put together. -/
structure Pass where
  rule : Option SetRule
  since : Option Instant
  upTo : Option Instant
  excluded : List UInt32
  policy : HiddenPolicy
  batchSize : Nat
  batchSize_pos : 0 < batchSize

/-- A reason in words. -/
def HiddenReason.describe : HiddenReason → String
  | .unpublished => "Unpublished"
  | .suppressed => "Suppressed"
  | .unpublishedAncestor uri => "UnpublishedAncestor(" ++ quoted uri ++ ")"

/-- The line logged for a record that must not be shown. -/
def hiddenLine (uri : String) (reason : HiddenReason) : LogLine :=
  ⟨.trace, uri ++ " hidden: " ++ reason.describe⟩

namespace Pass

/-- The query for a batch of a type. -/
def query (p : Pass) (t : RecordType) (after : Option Cursor) : ScanQuery where
  recordType := t
  after := after
  since := p.since
  upTo := p.upTo
  excluded := p.excluded
  limit := p.batchSize

/-- Whether a record belongs to the set, if there is one. -/
def inSet (p : Pass) (r : Record) : Bool := p.rule.all (·.admits r)

/-- A record as it is listed, if it is.  Deleted records always are; hidden ones are left out or
listed as deleted. -/
def listed? (p : Pass) (r : Record) : Option Record :=
  if r.deleted then some r
  else if p.inSet r then
    match r.hiddenReason?, p.policy with
    | none, _ => some r
    | some _, .omit => none
    | some _, .tombstone => some r.tombstone
  else none

/-- The lines that are logged when a record is met. -/
def lines (r : Record) : List LogLine :=
  if r.deleted then []
  else
    match r.hiddenReason? with
    | some reason => [hiddenLine r.uri reason]
    | none => []

end Pass

/-- How the sifting of a batch ended. -/
inductive SiftEnd where
  /-- The batch is used up. -/
  | used
  /-- There is no room for more records. -/
  | full
  | failed (f : Fault)
  deriving DecidableEq, Repr

/-- What a batch gave. -/
structure Sift where
  accepted : List Record
  /-- The cursor of the last record that was looked at. -/
  after : Option Cursor
  ending : SiftEnd
  log : List LogLine

namespace Sift

/-- Put a record and its lines in front. -/
def cons (accepted : List Record) (log : List LogLine) (s : Sift) : Sift :=
  { s with accepted := accepted ++ s.accepted, log := log ++ s.log }

end Sift

/-- Go through a batch until it is used up or `room` records have been accepted. -/
def Pass.sift (p : Pass) (room : Nat) (after : Option Cursor) : List Record → Sift
  | [] => ⟨[], after, .used, []⟩
  | r :: rs =>
    if after.all (· < r.cursor) then
      match p.listed? r with
      | none => (p.sift room (some r.cursor) rs).cons [] (Pass.lines r)
      | some shown =>
        if room ≤ 1 then ⟨[shown], some r.cursor, .full, Pass.lines r⟩
        else (p.sift (room - 1) (some r.cursor) rs).cons [shown] (Pass.lines r)
    else ⟨[], after, .failed (.outOfOrder r.uri), []⟩

theorem Pass.remaining_sift_lt_of_ne_nil {p : Pass} {room : Nat} {after : Option Cursor}
    {rs : List Record} (h : (p.sift room after rs).ending = .used) (hrs : rs ≠ []) :
    Cursor.remaining (p.sift room after rs).after < Cursor.remaining after := by
  induction rs generalizing room after with
  | nil => exact absurd rfl hrs
  | cons r rs ih =>
    have step : ∀ room', (p.sift room' (some r.cursor) rs).ending = .used →
        after.all (· < r.cursor) = true →
        Cursor.remaining (p.sift room' (some r.cursor) rs).after < Cursor.remaining after := by
      intro room' hend hafter
      have hlater : Cursor.remaining (some r.cursor) < Cursor.remaining after :=
        Cursor.remaining_lt fun b hb => by simpa [hb] using hafter
      cases rs with
      | nil => exact hlater
      | cons r' rs => exact Nat.lt_trans (ih hend (by simp)) hlater
    unfold Pass.sift at h ⊢
    split at h
    · rename_i hafter
      simp only [hafter, if_true]
      split at h
      · exact step _ h hafter
      · split at h
        · simp at h
        · rename_i hroom
          simp only [hroom, if_false]
          exact step _ h hafter
    · simp at h

/-! ### Walking -/

/-- What the walk through one type gave. -/
structure TypeWalk where
  accepted : List Record
  /-- How many records were read. -/
  scanned : Nat
  /-- There is no room for more records. -/
  full : Bool

/-- Read a batch; a fault of the source is logged and passed on. -/
def scanBatch {σ : Type} (src : Source σ) (q : ScanQuery) : Engine σ (List Record) := do
  match ← Engine.attempt (Engine.ask (src.scan q)) with
  | .ok batch => return batch
  | .error f =>
    Engine.note .error ("record scan failed for " ++ q.recordType.name ++ ": " ++ f.message)
    Engine.fail f

/-- A walk goes on behind a full batch that is used up, and then has fewer cursors left. -/
theorem Pass.remaining_sift_lt {p : Pass} {room : Nat} {after : Option Cursor}
    {batch : List Record} (h : (p.sift room after batch).ending = .used)
    (hfull : ¬ batch.length < p.batchSize) :
    Cursor.remaining (p.sift room after batch).after < Cursor.remaining after := by
  refine Pass.remaining_sift_lt_of_ne_nil h ?_
  rintro rfl
  exact hfull p.batchSize_pos

/-- Walk through the records of a type after a cursor, until there are no more or `room` records
have been accepted. -/
def Pass.walkType {σ : Type} (p : Pass) (src : Source σ) (t : RecordType) (room : Nat)
    (after : Option Cursor) : Engine σ TypeWalk := do
  let batch ← scanBatch src (p.query t after)
  Engine.tell (p.sift room after batch).log
  let accepted := (p.sift room after batch).accepted
  match h : (p.sift room after batch).ending with
  | .failed f => Engine.fail f
  | .full => return ⟨accepted, batch.length, true⟩
  | .used =>
    if hfull : batch.length < p.batchSize then return ⟨accepted, batch.length, false⟩
    else
      have := Pass.remaining_sift_lt h hfull
      let rest ← p.walkType src t (room - accepted.length) (p.sift room after batch).after
      return ⟨accepted ++ rest.accepted, batch.length + rest.scanned, rest.full⟩
termination_by Cursor.remaining after

/-- What the walk through several types gave: every record with the place of its type. -/
structure Walk where
  accepted : List (Nat × Record)
  scanned : Nat

/-- Walk through types, the first of which has the place `index` and starts after a cursor. -/
def Pass.walk {σ : Type} (p : Pass) (src : Source σ) :
    Nat → List RecordType → Nat → Option Cursor → Engine σ Walk
  | _, [], _, _ => return ⟨[], 0⟩
  | index, t :: ts, room, after => do
    let here ← p.walkType src t room after
    let accepted := here.accepted.map fun r => (index, r)
    if here.full then return ⟨accepted, here.scanned⟩
    else
      let rest ← p.walk src (index + 1) ts (room - accepted.length) none
      return ⟨accepted ++ rest.accepted, here.scanned + rest.scanned⟩

/-! ### Planning -/

/-- What a request comes down to. -/
structure Plan where
  metadataPrefix : String
  set : Option String
  rule : Option SetRule
  since : Option Instant
  upTo : Option Instant
  options : FormatOptions
  start : Option TokenPosition

/-- What listings and lookups go by beside a source: settings, formats, and what is said about the
payloads of tokens that cannot be read. -/
structure Repository where
  settings : Settings
  formats : FormatRegistry
  explain : Explanation

namespace Repository

/-- The codec of the repository's tokens. -/
def codec (r : Repository) : Codec := ⟨r.settings.tokenSecret, r.explain⟩

/-- The rule of a set, if one is asked for. -/
def resolveSet (r : Repository) : Option String → Except Fault (Option SetRule)
  | none => .ok none
  | some name => (r.settings.setDirectory.resolve name).map some

/-- Whether something that is given beside a token differs from it. -/
def conflicts (q : ListRequest) (t : ResumptionToken) : Bool :=
  q.metadataPrefix.any (· ≠ t.metadataPrefix) || q.set.any (some · ≠ t.set) ||
    q.since.any (some · ≠ t.since) || q.upTo.any (some · ≠ t.upTo)

/-- The plan of a listing from the start. -/
def planFresh (r : Repository) (q : ListRequest) : Except Fault Plan := do
  let some metadataPrefix := q.metadataPrefix | throw .missingPrefix
  let options ← r.formats.optionsFor metadataPrefix
  let rule ← r.resolveSet q.set
  return {
    metadataPrefix, set := q.set, rule, since := q.since, upTo := q.upTo, options, start := none }

/-- The plan of a listing that goes on. -/
def planResumed (r : Repository) (q : ListRequest) (t : ResumptionToken) : Except Fault Plan := do
  if conflicts q t then throw .tokenConflict
  let some options := r.formats.options? t.metadataPrefix | throw (.tokenFormat t.metadataPrefix)
  if options.recordTypes.length ≤ t.position.typeIndex.toNat then throw .tokenPosition
  let rule ← r.resolveSet t.set
  return {
    metadataPrefix := t.metadataPrefix, set := t.set, rule, since := t.since, upTo := t.upTo
    options, start := some t.position }

/-- Insist that the lower bound is not after the upper one. -/
def checkWindow (p : Plan) : Except Fault Plan :=
  match p.since, p.upTo with
  | some s, some u => if u < s then .error .emptyWindow else .ok p
  | _, _ => .ok p

/-- The plan of a request.  A token that cannot be read is logged. -/
def plan {σ : Type} (r : Repository) (q : ListRequest) : Engine σ Plan :=
  match q.token with
  | none => Engine.ofExcept (r.planFresh q >>= checkWindow)
  | some raw =>
    match r.codec.deserialize raw with
    | .ok t => Engine.ofExcept (r.planResumed q t >>= checkWindow)
    | .error f => do
      Engine.note .warning ("rejected resumption token: " ++ f.message)
      Engine.fail f

/-- The pass that a plan asks for. -/
def pass (r : Repository) (p : Plan) : Pass where
  rule := p.rule
  since := p.since
  upTo := p.upTo
  excluded := excludedRepositories r.settings.repositories p.set
  policy := r.settings.hiddenPolicy
  batchSize := r.settings.batchSizeFor p.options.pageSize
  batchSize_pos := r.settings.batchSizeFor_pos p.options.pageSize

/-- An optional text in a line of the log. -/
def optionLine : Option String → String
  | none => "None"
  | some s => "Some(" ++ quoted s ++ ")"

/-- The line logged for a page. -/
def pageLine (p : Plan) (w : Walk) : LogLine :=
  ⟨.debug, "find " ++ p.metadataPrefix ++ " set=" ++ optionLine p.set ++ ": scanned " ++
    toString w.scanned ++ ", accepted " ++ toString (min w.accepted.length p.options.pageSize)⟩

/-- The page that a walk has filled.  A record beyond the page says that a token is needed. -/
def page (p : Plan) (w : Walk) : Page :=
  if w.accepted.length ≤ p.options.pageSize then ⟨w.accepted.map Prod.snd, none⟩
  else
    let shown := w.accepted.take p.options.pageSize
    match shown.getLast? with
    | none => ⟨[], none⟩
    | some (index, last) =>
      ⟨shown.map Prod.snd, some {
        metadataPrefix := p.metadataPrefix
        set := p.set
        since := p.since
        upTo := p.upTo
        position := ⟨UInt64.ofNat index, last.cursor⟩ }⟩

/-- The next page of a listing. -/
def find {σ : Type} (r : Repository) (src : Source σ) (q : ListRequest) : Engine σ Page := do
  let p ← r.plan q
  let (index, after) : Nat × Option Cursor := match p.start with
    | some position => (position.typeIndex.toNat, some position.last)
    | none => (0, none)
  let w ← (r.pass p).walk src index (p.options.recordTypes.drop index) (p.options.pageSize + 1)
    after
  Engine.tell [pageLine p w]
  return page p w

/-! ### Single records -/

/-- A single record as harvesters see it.  Hidden records, and those of repositories that take no
part in harvesting, do not exist for them. -/
def locate {σ : Type} (r : Repository) (src : Source σ) (uri : String) : Engine σ Record := do
  let some record ← Engine.ask (src.get uri) | Engine.fail (.noRecord uri)
  if (r.settings.repository? record.repository).any (!·.admits none) then
    Engine.note .debug
      (uri ++ " belongs to repository " ++ toString record.repository ++ " with OAI disabled")
    Engine.fail (.noRecord uri)
  else if record.deleted then return record
  else
    match record.hiddenReason? with
    | none => return record
    | some reason =>
      Engine.tell [hiddenLine uri reason]
      match r.settings.hiddenPolicy with
      | .omit => Engine.fail (.noRecord uri)
      | .tombstone => return record.tombstone

/-- A single record in a format, which must cover the record's type. -/
def fetch {σ : Type} (r : Repository) (src : Source σ) (uri metadataPrefix : String) :
    Engine σ Record := do
  let options ← Engine.ofExcept (r.formats.optionsFor metadataPrefix)
  let record ← r.locate src uri
  if options.supports record.recordType then return record
  else Engine.fail (.typeNotInFormat record.recordType.name metadataPrefix)

end Repository

end Harvest
