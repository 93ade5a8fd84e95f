import Harvest.Proofs.Provider.Outcome
import Harvest.Proofs.Sets

/-!
# The list of sets

A harvester takes the names of sets from `ListSets` and asks for the records of each.  The list and
the lookup of a name know the same names (`SetDirectory.mem_specs_iff`), so that a listing is told
that there is no such set only if the set is not in the list (`Provider.specs_resolve`).

A level that the settings give twice is **twice in the list**
(`Provider.not_nodup_specs_filesTwice`).
-/

namespace Harvest

namespace Repository

variable {r : Repository} {q : ListRequest} {name : String}

theorem unresolved_some_iff : r.Unresolved (some name) ↔ name ∉ r.settings.setDirectory.specs := by
  simp [Unresolved, SetDirectory.mem_specs_iff]

/-- A listing from the start has no set exactly if it has a format, and the set is unknown. -/
theorem planned_noSetHierarchy_iff (hq : q.token = none) :
    (∃ f, r.planned q = .error f ∧ f.kind = .noSetHierarchy) ↔
      (∃ m o, q.metadataPrefix = some m ∧ r.formats.options? m = some o) ∧
        r.Unresolved q.set := by
  rw [(answers_planned r q).error_iff, complaints, hq]
  cases hm : q.metadataPrefix with
  | none => simp [freshComplaints, FirstIs, hm]
  | some m => simp [freshComplaints, FirstIs, hm, Option.ne_none_iff_exists']

end Repository

namespace Provider

variable {σ : Type} {p : Provider} {src : Source σ} {s : σ} {q : Request} {verb : Verb}
  {name m : String} {f : Fault}

/-- Only the repository says that there is no set, if neither the source nor a mapper does. -/
theorem ListFault.of_noSetHierarchy (h : p.ListFault src s q f)
    (hkind : f.kind = .noSetHierarchy) (hq : q.validate = .ok verb) (hverb : verb.IsListing)
    (hsource : ∀ g, p.SourceFails src s q g → g.kind ≠ .noSetHierarchy)
    (hmappers : ∀ g, p.mappers.Fails g → g.kind ≠ .noSetHierarchy) :
    ∃ l, listRequest q = .ok l ∧ p.repository.planned l = .error f := by
  obtain hplanned | ⟨hempty, -⟩ | hmem :=
    h.own hq hverb (fun h => hsource _ h hkind) fun h => hmappers _ h hkind
  · exact hplanned
  · rw [hkind] at hempty
    cases hempty
  · rw [hkind] at hmem
    exact absurd hmem (by decide)

theorem result_dispatch_of_planned_error {l : ListRequest} (hq : q.validate = .ok verb)
    (hverb : verb.IsListing) (hl : listRequest q = .ok l)
    (h : p.repository.planned l = .error f) : ((p.dispatch src q).run s).result = .error f := by
  rw [result_dispatch_listing hq hverb, result_list, hl, ok_bind,
    Repository.find_of_planned_error h, error_bind]

theorem of_listRequest_of_set (hq : q.validate = .ok verb) (hverb : verb.IsListing)
    (hset : q.set = some name) {l : ListRequest} (hl : listRequest q = .ok l) :
    l.token = none ∧ l.set = some name ∧ l.metadataPrefix = q.metadataPrefix := by
  obtain ⟨raw, -, halone⟩ | ⟨htoken, m, hm⟩ := listing_cases hq hverb
  · have hnone : q.set = none := halone .set nofun nofun
    rw [hset] at hnone
    cases hnone
  · rw [listRequest, htoken] at hl
    obtain ⟨hset', htoken', hformat⟩ := of_freshRequest hl
    exact ⟨htoken', hset'.trans hset, by rw [hformat, hm, Option.getD_some]⟩

/-- **A listing of a set is told that there is no such set exactly if the set is not in the list**,
provided that there is nothing wrong with the bounds and the format. -/
theorem noSetHierarchy_iff (hq : q.validate = .ok verb) (hverb : verb.IsListing)
    (hset : q.set = some name)
    (hsource : ∀ g, p.SourceFails src s q g → g.kind ≠ .noSetHierarchy)
    (hmappers : ∀ g, p.mappers.Fails g → g.kind ≠ .noSetHierarchy) :
    (∃ f, ((p.dispatch src q).run s).result = .error f ∧ f.kind = .noSetHierarchy) ↔
      (∃ l, listRequest q = .ok l) ∧
      (∃ m o, q.metadataPrefix = some m ∧ p.formats.options? m = some o) ∧
      name ∉ p.settings.setDirectory.specs := by
  constructor
  · rintro ⟨f, hf, hkind⟩
    rw [result_dispatch_listing hq hverb] at hf
    obtain ⟨l, hl, hplanned⟩ :=
      (listFault_of_list hq hverb hf).of_noSetHierarchy hkind hq hverb hsource hmappers
    obtain ⟨htoken, hset', hformat⟩ := of_listRequest_of_set hq hverb hset hl
    obtain ⟨hregistered, hunresolved⟩ :=
      (Repository.planned_noSetHierarchy_iff htoken).1 ⟨f, hplanned, hkind⟩
    rw [hformat] at hregistered
    rw [hset'] at hunresolved
    exact ⟨⟨l, hl⟩, hregistered, Repository.unresolved_some_iff.1 hunresolved⟩
  · rintro ⟨⟨l, hl⟩, hregistered, hname⟩
    obtain ⟨htoken, hset', hformat⟩ := of_listRequest_of_set hq hverb hset hl
    rw [← hformat] at hregistered
    have hunresolved : p.repository.Unresolved l.set := by
      rw [hset']
      exact Repository.unresolved_some_iff.2 hname
    obtain ⟨f, hplanned, hkind⟩ :=
      (Repository.planned_noSetHierarchy_iff htoken).2 ⟨hregistered, hunresolved⟩
    exact ⟨f, result_dispatch_of_planned_error hq hverb hl hplanned, hkind⟩

/-- **The list of sets has the sets that can be asked for.**  It begins with the named sets in the
order of the settings.  A name is in it exactly if it stands for a rule, and then a listing is never
told that there is no such set; otherwise it is, if there is nothing wrong with its bounds and its
format.  Names are distinct exactly if no level that is a set of its own comes twice in the
settings. -/
theorem specs_resolve (p : Provider) (src : Source σ) (s : σ) :
    p.settings.sets.names <+: p.settings.setDirectory.specs ∧
    (p.settings.setDirectory.specs.Nodup ↔
      ∀ level, p.settings.sets.find? level = none → p.settings.levels.count level ≤ 1) ∧
    ∀ name, (name ∈ p.settings.setDirectory.specs ↔
        ∃ rule, p.settings.setDirectory.resolve name = .ok rule) ∧
      ∀ q verb, q.validate = .ok verb → verb.IsListing → q.set = some name →
        (∀ g, p.SourceFails src s q g → g.kind ≠ .noSetHierarchy) →
        (∀ g, p.mappers.Fails g → g.kind ≠ .noSetHierarchy) →
          ((∃ f, ((p.dispatch src q).run s).result = .error f ∧ f.kind = .noSetHierarchy) ↔
            (∃ l, listRequest q = .ok l) ∧
            (∃ m o, q.metadataPrefix = some m ∧ p.formats.options? m = some o) ∧
            name ∉ p.settings.setDirectory.specs) := by
  refine ⟨?_, SetDirectory.nodup_specs_iff, fun name => ⟨SetDirectory.mem_specs_iff, ?_⟩⟩
  · rw [SetDirectory.specs_eq]
    exact List.prefix_append _ _
  · intro q verb hq hverb hset hsource hmappers
    exact noSetHierarchy_iff hq hverb hset hsource hmappers

/-- A request for the records of a set. -/
def setRequest (name : String) : Request where
  verb := some "ListRecords"
  metadataPrefix := some "oai_dc"
  set := some name

/-- There is no attic, but there is a list of files. -/
theorem specs_resolve_attic :
    (∃ f, ((readable.dispatch Store.source (setRequest "attic")).run Store.sample).result =
      .error f ∧ f.kind = .noSetHierarchy) ∧
    ¬ ∃ f, ((readable.dispatch Store.source (setRequest "file")).run Store.sample).result =
      .error f ∧ f.kind = .noSetHierarchy := by
  obtain ⟨-, -, hnames⟩ := specs_resolve readable Store.source Store.sample
  have hsource : ∀ q g, readable.SourceFails Store.source Store.sample q g →
      g.kind ≠ .noSetHierarchy := fun q g hg =>
    absurd hg (not_sourceFails Store.sample_reachable.wellFormed)
  have hmappers : ∀ g, readable.mappers.Fails g → g.kind ≠ .noSetHierarchy := fun g hg =>
    absurd hg alwaysSucceeds_uriMappers.not_fails
  have hformat : ∃ o, readable.formats.options? "oai_dc" = some o := ⟨_, rfl⟩
  obtain ⟨o, ho⟩ := hformat
  refine ⟨?_, ?_⟩
  · refine ((hnames "attic").2 _ .listRecords rfl (.inr rfl) rfl (hsource _) hmappers).2
      ⟨⟨_, rfl⟩, ⟨"oai_dc", o, rfl, ho⟩, by decide⟩
  · intro h
    obtain ⟨-, -, hname⟩ :=
      ((hnames "file").2 _ .listRecords rfl (.inr rfl) rfl (hsource _) hmappers).1 h
    exact hname (by decide)

/-- Settings that give a level twice. -/
def filesTwice : Settings where
  levels := ["file", "file"]

/-- These settings are valid, and the level is twice in the list. -/
theorem not_nodup_specs_filesTwice : filesTwice.validate = .ok () ∧
    filesTwice.setDirectory.specs = ["file", "file"] ∧
    ¬ filesTwice.setDirectory.specs.Nodup := by
  refine ⟨?_, rfl, by decide⟩
  exact Settings.validate_eq_ok_iff.2 ⟨⟨by decide, by decide⟩, by rintro e ⟨⟩, rfl, _, rfl⟩

end Provider

end Harvest
