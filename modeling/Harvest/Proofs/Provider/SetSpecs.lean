import Harvest.Proofs.Exposure
import Harvest.Proofs.Listing.Lookup
import Harvest.Proofs.Provider.Disclosure
import Harvest.Proofs.Provider.Make
import Harvest.Proofs.Sets

/-!
# Sets in headers

The header of a live record names the sets whose rule admits it.  A listing of a set looks at the
rule too, and besides it leaves out repositories that do not take part in the set.  So a live
record that is listed at all is listed for a set exactly when its header names the set and its
repository takes part in it (`Provider.header_names_iff_mem_harvest`), unless the tokens of that
listing may skip the record.  A header alone does not say so: it also names sets in which the
repository takes no part (`Provider.not_mem_harvest_file`).
-/

namespace Harvest

/-- A repository takes part in a set unless it is restricted to others. -/
def Settings.TakesPart (c : Settings) (repository : UInt32) (set : String) : Prop :=
  ∀ e ∈ c.repositories, e.id = repository → e.sets ≠ [] → set ∈ e.sets

/-- The request for a set in a format. -/
def ListRequest.ofSet (m name : String) : ListRequest where
  metadataPrefix := some m
  set := some name

/-- The plan of a listing of a set. -/
def Plan.ofSet (m : String) (o : FormatOptions) (name : String) (rule : SetRule) : Plan :=
  ⟨m, some name, some rule, none, none, o, none⟩

namespace Repository

variable {r : Repository} {s : Store} {rs : List Record} {m name : String} {o : FormatOptions}
  {rule : SetRule} {pages pages' : List Page} {x : Record}

theorem covers_ofSet_iff : (r.scope (Plan.ofSet m o name rule)).covers x = true ↔
    (∀ e ∈ r.settings.repositories, e.id = x.repository → e.disabled = false) ∧
      r.settings.TakesPart x.repository name := by
  simp [Scope.covers_iff, RepositoryEntry.admits_iff, scope, Plan.ofSet, Settings.TakesPart,
    forall_and]

/-- A live record that is listed is listed for a set if the rule admits it and its repository takes
part. -/
theorem mem_whole_ofSet_iff (hx : x ∈ (r.whole rs (Plan.everything m o)).map Prod.snd)
    (hlive : x.deleted = false) : x ∈ (r.whole rs (Plan.ofSet m o name rule)).map Prod.snd ↔
      rule.admits x = true ∧ r.settings.TakesPart x.repository name := by
  obtain ⟨e, he, rfl⟩ := List.mem_map.1 hx
  obtain ⟨y, hy, htype, hcovers, hshows⟩ := mem_whole.1 he
  obtain ⟨rfl, -, hvisible, -⟩ := Scope.shows?_live_iff.1 ⟨hshows, hlive⟩
  have henabled := covers_everything_iff.1 hcovers
  constructor
  · intro hlisted
    obtain ⟨e', he', heq⟩ := List.mem_map.1 hlisted
    obtain ⟨y', -, -, hcovers', hshows'⟩ := mem_whole.1 he'
    rw [heq] at hshows'
    obtain ⟨rfl, -, -, hrule⟩ := Scope.shows?_live_iff.1 ⟨hshows', hlive⟩
    exact ⟨hrule, (covers_ofSet_iff.1 hcovers').2⟩
  · rintro ⟨hrule, htakes⟩
    have hshown := (Scope.shows?_live_iff (c := r.scope (Plan.ofSet m o name rule)).2
      ⟨rfl, hlive, hvisible, hrule⟩).1
    exact List.mem_map.2 ⟨e, mem_whole.2
      ⟨e.2, hy, htype, covers_ofSet_iff.2 ⟨henabled, htakes⟩, hshown⟩, rfl⟩

theorem resolveSet_some (r : Repository) (name : String) :
    r.resolveSet (some name) = (r.settings.setDirectory.resolve name).map some := rfl

theorem resolveSet_of_resolve (h : r.settings.setDirectory.resolve name = .ok rule) :
    r.resolveSet (some name) = .ok (some rule) := by
  rw [resolveSet_some, h]
  rfl

theorem answer_ofSet_of_unknown (hs : s.WellFormed) (ho : r.formats.options? m = some o) {f : Fault}
    (hresolve : r.settings.setDirectory.resolve name = .error f) :
    r.answer s (.ofSet m name) = .error (.unknownSet name) := by
  obtain rfl := SetDirectory.resolve_eq_error hresolve
  have hset : r.resolveSet (some name) = .error (.unknownSet name) := by
    rw [resolveSet_some]
    exact congrArg (Except.map some) hresolve
  rw [answer_eq hs, planned_of_unresolved rfl rfl ho hset]
  rfl

section Harvests

variable (hs : s.Reachable) (hformats : r.formats.IsStandard)
  (ho : r.formats.options? m = some o)
  (hresolve : r.settings.setDirectory.resolve name = .ok rule)
  (hname : name.utf8ByteSize ≤ 256) (h : r.Harvests s (.fresh m) pages)
  (hx : x ∈ pages.flatMap Page.records) (hlive : x.deleted = false)
  (h' : r.Harvests s (.ofSet m name) pages')
include hs hformats ho hresolve hname h hx hlive h'

/-- A live record of the harvest of everything that is in the harvest of a set is admitted by its
rule, and its repository takes part. -/
theorem of_mem_harvest_ofSet (hin : x ∈ pages'.flatMap Page.records) :
    rule.admits x = true ∧ r.settings.TakesPart x.repository name := by
  have hset := resolveSet_of_resolve hresolve
  have hwhole := (Harvests.records_sublist hs hformats ho rfl (Nat.zero_le _) le_of_undated
    alignedBounds_none h).subset hx
  exact (mem_whole_ofSet_iff hwhole hlive).1 ((Harvests.records_sublist hs hformats ho hset hname
    le_of_undated alignedBounds_none h').subset hin)

/-- A live record of the harvest of everything that the rule of a set admits is in the harvest of
the set if its repository takes part, unless it may be skipped there. -/
theorem mem_harvest_ofSet_or_skippable (hadmits : rule.admits x = true)
    (htakes : r.settings.TakesPart x.repository name) :
    x ∈ pages'.flatMap Page.records ∨ Skippable pages' x := by
  have hset := resolveSet_of_resolve hresolve
  have hwhole := (Harvests.records_sublist hs hformats ho rfl (Nat.zero_le _) le_of_undated
    alignedBounds_none h).subset hx
  exact h'.mem_or_skippable hs hformats ho hset hname le_of_undated alignedBounds_none
    ((mem_whole_ofSet_iff hwhole hlive).2 ⟨hadmits, htakes⟩)

/-- In an archive with aligned times nothing else is in the harvest of a set. -/
theorem mem_harvest_ofSet_iff (haligned : s.IsAligned) : x ∈ pages'.flatMap Page.records ↔
    rule.admits x = true ∧ r.settings.TakesPart x.repository name := by
  have hset := resolveSet_of_resolve hresolve
  rw [Harvests.records_eq hs hformats ho rfl (Nat.zero_le _) le_of_undated alignedBounds_none
    haligned h] at hx
  rw [Harvests.records_eq hs hformats ho hset hname le_of_undated alignedBounds_none haligned h']
  exact mem_whole_ofSet_iff hx hlive

end Harvests

end Repository

namespace Provider

variable {σ : Type} {settings : Settings} {mappers : MapperRegistry} {explain : Explanation}
  {p : Provider} {s₀ : σ} {s : Store} {m name : String} {o : FormatOptions} {x : Record}

theorem part_setSpec_header_iff : Xml.Part (.leaf "setSpec" name) (p.header x) ↔
    x.deleted = false ∧ name ∈ p.settings.setDirectory.memberships x := by
  cases hdeleted : x.deleted <;>
    simp [header, hdeleted, Xml.part_element_iff, Xml.leaf, Xml.node]

/-- **A live record that is harvested is harvested for a set exactly when its header names the set
and its repository takes part in it**, unless the tokens of that harvest may skip it; they
skip nothing if the times of the archive are aligned.  The harvest of a set fails only if there is
no such set. -/
theorem header_names_iff_mem_harvest
    (hmake : ((make settings mappers explain).run s₀).result = .ok p) (hs : s.Reachable)
    (ho : p.formats.options? m = some o) :
    ∃ pages, p.repository.Harvests s (.fresh m) pages ∧
      ∀ x ∈ pages.flatMap Page.records, x.deleted = false → ∀ name : String,
        name.utf8ByteSize ≤ 256 →
          ((∃ pages', p.repository.Harvests s (.ofSet m name) pages') ∨
            p.repository.answer s (.ofSet m name) = .error (.unknownSet name)) ∧
          (∀ pages', p.repository.Harvests s (.ofSet m name) pages' →
            x ∈ pages'.flatMap Page.records →
              Xml.Part (.leaf "setSpec" name) (p.header x) ∧
                p.settings.TakesPart x.repository name) ∧
          (Xml.Part (.leaf "setSpec" name) (p.header x) →
            p.settings.TakesPart x.repository name →
              ∃ pages', p.repository.Harvests s (.ofSet m name) pages' ∧
                (x ∈ pages'.flatMap Page.records ∨ Skippable pages' x)) ∧
          (s.IsAligned →
            (Xml.Part (.leaf "setSpec" name) (p.header x) ∧
                p.settings.TakesPart x.repository name ↔
              ∃ pages', p.repository.Harvests s (.ofSet m name) pages' ∧
                x ∈ pages'.flatMap Page.records)) := by
  have hformats : p.repository.formats.IsStandard := isStandard_of_make hmake
  have hall : p.repository.resolveSet none = .ok none := rfl
  obtain ⟨pages, hpages, -⟩ := Repository.exists_harvests hs hformats ho hall (Nat.zero_le _)
    Repository.le_of_undated alignedBounds_none
  refine ⟨pages, hpages, fun x hx hlive name hname => ?_⟩
  rw [part_setSpec_header_iff, SetDirectory.mem_memberships_iff]
  cases hresolve : p.settings.setDirectory.resolve name with
  | ok rule =>
    have hset : p.repository.resolveSet (some name) = .ok (some rule) :=
      Repository.resolveSet_of_resolve hresolve
    obtain ⟨pages', hpages', -⟩ := Repository.exists_harvests hs hformats ho hset hname
      Repository.le_of_undated alignedBounds_none
    have hmem : (∃ pages', p.repository.Harvests s (.ofSet m name) pages' ∧
        x ∈ pages'.flatMap Page.records) ↔ x ∈ pages'.flatMap Page.records :=
      ⟨fun ⟨_, h, hin⟩ => h.unique hpages' ▸ hin, fun hin => ⟨pages', hpages', hin⟩⟩
    simp only [hlive, true_and, Except.ok.injEq, exists_eq_left', hmem]
    exact ⟨.inl ⟨pages', hpages'⟩,
      fun pages'' h hin => Repository.of_mem_harvest_ofSet hs hformats ho hresolve hname hpages hx
        hlive h hin,
      fun hadmits htakes => ⟨pages', hpages', Repository.mem_harvest_ofSet_or_skippable hs hformats
        ho hresolve hname hpages hx hlive hpages' hadmits htakes⟩,
      fun haligned => (Repository.mem_harvest_ofSet_iff hs hformats ho hresolve hname hpages hx
        hlive hpages' haligned).symm⟩
  | error f =>
    have hanswer := Repository.answer_ofSet_of_unknown (r := p.repository) hs.wellFormed ho hresolve
    have hnone : ∀ pages', ¬ p.repository.Harvests s (.ofSet m name) pages' :=
      fun _ => Repository.not_harvests_of_error hanswer
    refine ⟨.inr hanswer, fun pages' hpages' => absurd hpages' (hnone pages'), ?_, fun _ => ?_⟩
    · rintro ⟨-, rule, ⟨⟩, -⟩
    · refine iff_of_false ?_ fun ⟨pages', hpages', _⟩ => hnone pages' hpages'
      rintro ⟨⟨-, rule, ⟨⟩, -⟩, -⟩

/-! ### A repository that takes part in one set -/

/-- Settings with a named set, the only one in which a repository takes part. -/
def restrictedSettings : Settings where
  tokenSecret := "secret"
  sets := OrderedMap.empty.insert "houston" { repositoryCodes := ["HOU"] }
  repositories := [{ id := 2, code := "HOU", sets := ["houston"] }]

/-- The provider with these settings. -/
def restricted : Provider where
  settings := restrictedSettings
  formats := FormatRegistry.standard.retain sampleMappers.contains
  mappers := sampleMappers
  explain := plainWords

/-- The letter as it is read. -/
def currentLetter : Record := Store.sample.view Store.sampleLetter

theorem make_restricted :
    ((make restrictedSettings sampleMappers plainWords).run ()).result = .ok restricted := by
  refine make_eq_ok_iff.2
    ⟨Settings.validate_eq_ok_iff.2 ⟨⟨by decide, by decide⟩, ?_, rfl, _, rfl⟩, _, rfl, rfl⟩
  intro e he
  cases List.mem_singleton.1 he
  rfl

theorem options?_restricted : restricted.formats.options? "oai_dc" =
    some { recordTypes := [.resource, .archivalObject] } := rfl

theorem letter_mem_harvest {pages : List Page}
    (h : restricted.repository.Harvests Store.sample (.fresh "oai_dc") pages) :
    currentLetter ∈ pages.flatMap Page.records := by
  have hall : restricted.repository.resolveSet none = .ok none := rfl
  have hget : Store.sample.get Store.sampleLetter.uri = some currentLetter := rfl
  obtain ⟨hstored, -⟩ := (Store.get_eq_some_iff Store.sample_reachable.wellFormed).1 hget
  rw [Repository.Harvests.records_eq Store.sample_reachable (isStandard_of_make make_restricted)
    options?_restricted hall (Nat.zero_le _) Repository.le_of_undated alignedBounds_none
    (by decide +kernel) h]
  exact List.mem_map.2
    ⟨(1, currentLetter), Repository.mem_whole.2 ⟨currentLetter, hstored, rfl, rfl, rfl⟩, rfl⟩

/-- The letter is harvested for the set in which its repository takes part. -/
theorem header_names_iff_mem_harvest_houston : ∃ pages,
    restricted.repository.Harvests Store.sample (.ofSet "oai_dc" "houston") pages ∧
    currentLetter ∈ pages.flatMap Page.records := by
  obtain ⟨pages, hpages, hall⟩ := header_names_iff_mem_harvest make_restricted
    Store.sample_reachable options?_restricted
  obtain ⟨-, -, -, hiff⟩ := hall currentLetter (letter_mem_harvest hpages) rfl "houston" (by decide)
  refine (hiff (by decide +kernel)).1 ⟨part_setSpec_header_iff.2 ⟨rfl, by decide⟩, ?_⟩
  intro e he hid hne
  cases List.mem_singleton.1 he
  decide

/-- The header of the letter names the set of files as well, but the letter is not harvested for
it. -/
theorem not_mem_harvest_file :
    ((make restrictedSettings sampleMappers plainWords).run ()).result = .ok restricted ∧
    Store.sample.Reachable ∧
    (∃ pages, restricted.repository.Harvests Store.sample (.fresh "oai_dc") pages ∧
      currentLetter ∈ pages.flatMap Page.records) ∧
    currentLetter.deleted = false ∧ "file".utf8ByteSize ≤ 256 ∧
    Xml.Part (.leaf "setSpec" "file") (restricted.header currentLetter) ∧
    ∀ pages, restricted.repository.Harvests Store.sample (.ofSet "oai_dc" "file") pages →
      currentLetter ∉ pages.flatMap Page.records := by
  have hformats : restricted.repository.formats.IsStandard := isStandard_of_make make_restricted
  have hall : restricted.repository.resolveSet none = .ok none := rfl
  obtain ⟨pages, hpages, -⟩ := Repository.exists_harvests Store.sample_reachable hformats
    options?_restricted hall (Nat.zero_le _) Repository.le_of_undated alignedBounds_none
  have hletter := letter_mem_harvest hpages
  refine ⟨make_restricted, Store.sample_reachable, ⟨pages, hpages, hletter⟩, rfl, by decide,
    part_setSpec_header_iff.2 ⟨rfl, by decide⟩, fun pages' hpages' hmem => ?_⟩
  obtain ⟨-, htakes⟩ := Repository.of_mem_harvest_ofSet Store.sample_reachable hformats
    options?_restricted rfl (by decide) hpages hletter rfl hpages' hmem
  have hfile : "file" ∈ ["houston"] := htakes _ List.mem_cons_self rfl (by decide)
  exact absurd hfile (by decide)

end Provider

end Harvest
