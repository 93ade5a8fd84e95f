import Harvest.OrderedMap
import Harvest.Record

/-!
# Sets

A set has a name and a rule that says which records belong to it.  Named sets come from the
settings, with a list of sponsors or of repository codes; in addition every archival level is a
set of the records at that level, unless a named set has its name.

`SetDirectory.resolve` finds the rule of a name, `SetDirectory.descriptions` lists the sets, and
`SetDirectory.memberships` lists the sets of a record.

Apart from the rules, the settings may say of a repository that it takes no part in harvesting, or
only in certain sets (`RepositoryEntry`).  A repository that they do not mention takes part in
everything.
-/

namespace Harvest

/-- Archival levels that are sets unless the settings say otherwise. -/
def defaultLevels : List String :=
  ["class", "collection", "file", "fonds", "item", "otherlevel", "recordgrp", "series",
    "subfonds", "subgrp", "subseries"]

/-- Which records belong to a set. -/
inductive SetRule where
  /-- Records of a hierarchy at this level. -/
  | level (level : String)
  /-- Records with one of these sponsors. -/
  | sponsor (sponsors : List String)
  /-- Records of repositories with one of these codes. -/
  | repositoryCode (codes : List String)
  deriving DecidableEq, Repr

/-- Whether a record belongs to the set of a rule. -/
def SetRule.admits : SetRule → Record → Bool
  | .level l, r => r.recordType.isHierarchical && r.level = some l
  | .sponsor sponsors, r => r.sponsor.any (· ∈ sponsors)
  | .repositoryCode codes, r => r.repositoryCode ∈ codes

/-- A named set.  One of the two lists should be empty. -/
structure SetDefinition where
  sponsors : List String := []
  repositoryCodes : List String := []
  description : Option String := none
  deriving DecidableEq, Repr

namespace SetDefinition

/-- The rule of a definition; sponsors come first. -/
def rule (d : SetDefinition) : SetRule :=
  if d.sponsors.isEmpty then .repositoryCode d.repositoryCodes else .sponsor d.sponsors

/-- Insist that exactly one of the two lists has entries. -/
def validate (d : SetDefinition) (name : String) : Except Fault Unit :=
  match d.sponsors.isEmpty, d.repositoryCodes.isEmpty with
  | true, true => .error (.setWithoutRule name)
  | false, false => .error (.setWithTwoRules name)
  | _, _ => .ok ()

end SetDefinition

/-- A set as a listing of sets shows it. -/
structure SetDescription where
  spec : String
  name : String
  description : Option String
  deriving DecidableEq, Repr

/-- The named sets and the levels in use. -/
structure SetDirectory where
  named : OrderedMap SetDefinition
  levels : List String
  deriving DecidableEq, Repr

namespace SetDirectory

/-- The rule of a set.  A named set hides a level of the same name. -/
def resolve (s : SetDirectory) (name : String) : Except Fault SetRule :=
  match s.named.find? name with
  | some d => .ok d.rule
  | none => if name ∈ s.levels then .ok (.level name) else .error (.unknownSet name)

/-- All sets: the named ones, then the levels that no named set hides. -/
def descriptions (s : SetDirectory) : List SetDescription :=
  s.named.entries.map (fun e => ⟨e.1, e.1, e.2.description⟩) ++
    (s.levels.filter fun l => !s.named.contains l).map fun l => ⟨l, l, none⟩

/-- Whether the record's level is a set it belongs to. -/
def levelSet? (s : SetDirectory) (r : Record) : Option String :=
  r.level.filter fun l => r.recordType.isHierarchical && l ∈ s.levels && !s.named.contains l

/-- The sets a record belongs to. -/
def memberships (s : SetDirectory) (r : Record) : List String :=
  ((s.named.entries.filter fun e => e.2.rule.admits r).map Prod.fst) ++ (s.levelSet? r).toList

end SetDirectory

/-! ### Repositories that take part -/

/-- What the settings say about a repository. -/
structure RepositoryEntry where
  id : UInt32
  code : String
  /-- The repository takes no part in harvesting. -/
  disabled : Bool := false
  /-- The sets the repository takes part in; if there are none, all. -/
  sets : List String := []
  deriving DecidableEq, Repr

namespace RepositoryEntry

/-- Whether a repository takes part in a listing of a set, or of everything. -/
def admits (e : RepositoryEntry) (set : Option String) : Bool :=
  !e.disabled &&
    match set with
    | some s => e.sets.isEmpty || s ∈ e.sets
    | none => true

end RepositoryEntry

/-- The repositories that take no part in a listing. -/
def excludedRepositories (entries : List RepositoryEntry) (set : Option String) : List UInt32 :=
  (entries.filter fun e => !e.admits set).map (·.id)

end Harvest
