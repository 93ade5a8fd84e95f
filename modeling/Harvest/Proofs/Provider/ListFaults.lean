import Harvest.Proofs.Listing.Origins
import Harvest.Proofs.Provider.Reading
import Harvest.Proofs.Request.Grammar

/-!
# What is wrong with a listing

A request for a listing has a token and nothing else, or a format (`Provider.listing_cases`).  The
format of its page is the one that its plan is for, and is registered (`Provider.formatOfPage_eq`).
So there are four ways for a listing to fail (`Provider.ListFault`): its bounds cannot be read, the
repository has no page, there are no records, or there is no metadata for one.
-/

namespace Harvest

open Engine

/-- The verbs that list records. -/
def Verb.IsListing (v : Verb) : Prop := v = .listIdentifiers ∨ v = .listRecords

namespace MapperRegistry

variable {g : MapperRegistry} {m : String} {r : Record} {f : Fault}

/-- A mapper fails for a record. -/
def Fails (g : MapperRegistry) (f : Fault) : Prop :=
  ∃ m mapper r, g.mappers.find? m = some mapper ∧ mapper r = .error f

/-- Every mapper has metadata for every record. -/
def AlwaysSucceeds (g : MapperRegistry) : Prop :=
  ∀ m mapper, g.mappers.find? m = some mapper → ∀ r, ∃ text, mapper r = .ok text

theorem AlwaysSucceeds.not_fails (h : g.AlwaysSucceeds) : ¬ g.Fails f := by
  rintro ⟨m, mapper, r, hm, hr⟩
  obtain ⟨text, htext⟩ := h m mapper hm r
  rw [hr] at htext
  cases htext

theorem map_eq_error (h : g.map m r = .error f) : f = .noMapper m ∨ g.Fails f := by
  unfold map at h
  cases hm : g.mappers.find? m with
  | none =>
    rw [hm] at h
    exact .inl (Except.error.inj h).symm
  | some mapper =>
    rw [hm] at h
    exact .inr ⟨m, mapper, r, hm, h⟩

end MapperRegistry

namespace Provider

variable {σ : Type} {p : Provider} {src : Source σ} {s : σ} {q : Request} {verb : Verb}
  {l : ListRequest} {page : Page} {m : String} {x : Record} {f : Fault}

/-! ### Requests for listings -/

theorem answer_of_isListing (hverb : verb.IsListing) :
    p.answer src q verb = p.list src verb q := by
  obtain rfl | rfl := hverb <;> rfl

theorem result_dispatch_listing (hq : q.validate = .ok verb) (hverb : verb.IsListing) :
    ((p.dispatch src q).run s).result = ((p.list src verb q).run s).result := by
  rw [result_dispatch, hq, ok_bind, answer_of_isListing hverb]

/-- A request for a listing has a token and nothing else, or a format and no token. -/
theorem listing_cases (hq : q.validate = .ok verb) (hverb : verb.IsListing) :
    (∃ raw, q.resumptionToken = some raw ∧
      ∀ a, a ≠ .verb → a ≠ .resumptionToken → q.value? a = none) ∨
    q.resumptionToken = none ∧ ∃ m, q.metadataPrefix = some m := by
  obtain ⟨-, -, -, hallowed, hrequire⟩ := Request.validate_eq_ok_iff.1 hq
  have htakes : q.present.map Argument.name = ["resumptionToken"] ∨
      "metadataPrefix" ∈ q.present.map Argument.name ∧
        q.present.map Argument.name ⊆ ["metadataPrefix", "from", "until", "set"] := by
    have htakes := (Request.takes_present_iff q).2 ⟨hallowed, hrequire⟩
    obtain rfl | rfl := hverb <;> exact htakes
  have hpresent : ∀ a, a ≠ .verb → (a.name ∈ q.present.map Argument.name ↔
      (q.value? a).isSome) := fun a ha => by
    rw [List.mem_map_of_injective Request.name_injective, Request.mem_present_iff]
    exact and_iff_right ha
  rcases htakes with halone | ⟨hformat, hlimits⟩
  · rw [halone] at hpresent
    obtain ⟨raw, hraw⟩ := Option.isSome_iff_exists.1
      ((hpresent .resumptionToken nofun).1 (List.mem_singleton_self _))
    refine .inl ⟨raw, hraw, fun a ha hne => Option.not_isSome_iff_eq_none.1 fun hsome => ?_⟩
    exact hne (Request.name_injective (List.mem_singleton.1 ((hpresent a ha).2 hsome)))
  · refine .inr ⟨Option.not_isSome_iff_eq_none.1 fun hsome => ?_,
      Option.isSome_iff_exists.1 ((hpresent .metadataPrefix nofun).1 hformat)⟩
    exact absurd (hlimits ((hpresent .resumptionToken nofun).2 hsome)) (by decide)

theorem kind_of_bound? {read : String → Except Fault Datestamp}
    (hread : ∀ text f, read text = .error f → f.kind = .badArgument) {text : Option String}
    (h : bound? read text = .error f) : f.kind = .badArgument := by
  cases text with
  | none => cases h
  | some text => exact hread text f (map_eq_error_iff.1 h)

theorem kind_of_readLower {text : String} (h : Datestamp.readLower text = .error f) :
    f.kind = .badArgument := by
  unfold Datestamp.readLower at h
  split at h
  · cases h
  · cases h
    rfl

theorem kind_of_readUpper {text : String} (h : Datestamp.readUpper text = .error f) :
    f.kind = .badArgument := by
  unfold Datestamp.readUpper at h
  split at h
  · cases h
  · cases h
    rfl

theorem kind_of_listRequest (h : listRequest q = .error f) : f.kind = .badArgument := by
  unfold listRequest at h
  cases htoken : q.resumptionToken with
  | some token =>
    rw [htoken] at h
    cases h
  | none =>
    rw [htoken] at h
    obtain hsince | ⟨since, -, h⟩ := bind_eq_error_iff.1 h
    · exact kind_of_bound? (fun _ _ => kind_of_readLower) hsince
    obtain hupTo | ⟨upTo, -, h⟩ := bind_eq_error_iff.1 h
    · exact kind_of_bound? (fun _ _ => kind_of_readUpper) hupTo
    -- both bounds can be read, but they may not be equally precise
    cases since with
    | none => cases h
    | some a =>
      cases upTo with
      | none => cases h
      | some b =>
        simp only at h
        split_ifs at h
        · cases h
          rfl
        · cases h

/-! ### The format of a page -/

/-- **The format of a page is the one that its plan is for.** -/
theorem formatOfPage_eq (hq : q.validate = .ok verb) (hverb : verb.IsListing)
    (hl : listRequest q = .ok l) {plan : Plan} (hplan : p.repository.planned l = .ok plan)
    (w : Walk) : p.formatOfPage q (Repository.page plan w) = .ok plan.metadataPrefix := by
  unfold formatOfPage
  cases hnext : (Repository.page plan w).next with
  | some t => rw [← Repository.metadataPrefix_of_next hnext]
  | none =>
    obtain ⟨raw, hraw, halone⟩ | ⟨htoken, m, hm⟩ := listing_cases hq hverb
    · have hnone : q.metadataPrefix = none := halone .metadataPrefix nofun nofun
      rw [listRequest, hraw] at hl
      cases hl
      obtain ⟨t, ht, hresumed, -⟩ := (Repository.planned_resumed_eq_ok_iff rfl).1 hplan
      obtain ⟨-, o, rule, -, -, -, rfl⟩ := Repository.planResumed_eq_ok_iff.1 hresumed
      simp only [hnone, hraw, ht]
      rfl
    · rw [listRequest, htoken] at hl
      obtain ⟨-, hfresh, hformat⟩ := of_freshRequest hl
      obtain ⟨hplanned, -⟩ := (Repository.planned_fresh_eq_ok_iff hfresh).1 hplan
      obtain ⟨m', o, rule, hm', -, -, rfl⟩ := Repository.planFresh_eq_ok_iff.1 hplanned
      rw [hformat, hm, Option.getD_some] at hm'
      cases hm'
      simp only [hm]

theorem exists_formatOfPage (hq : q.validate = .ok verb) (hverb : verb.IsListing)
    (hl : listRequest q = .ok l)
    (hpage : ((p.repository.find src l).run s).result = .ok page) :
    ∃ m o, p.formatOfPage q page = .ok m ∧ p.formats.options? m = some o := by
  obtain ⟨f, -, -, hfailed⟩ | ⟨plan, w, hplan, -, hpage⟩ := Repository.run_of_find hpage
  · cases hfailed
  · obtain ⟨walk, -, rfl⟩ := map_eq_ok_iff.1 hpage.symm
    exact ⟨_, _, formatOfPage_eq hq hverb hl hplan walk, Repository.options_of_planned hplan⟩

/-! ### Elements -/

theorem map_of_recordElement_error (h : p.recordElement m x = .error f) :
    p.mappers.map m x = .error f := by
  unfold recordElement at h
  split_ifs at h
  obtain hmap | ⟨text, -, h⟩ := bind_eq_error_iff.1 h
  · exact hmap
  · cases h

theorem exists_recordElement (hmappers : p.mappers.AlwaysSucceeds)
    (hm : p.mappers.contains m = true) (x : Record) :
    ∃ element, p.recordElement m x = .ok element := by
  obtain ⟨mapper, hmapper⟩ := Option.isSome_iff_exists.1 hm
  obtain ⟨text, htext⟩ := hmappers m mapper hmapper x
  have hmap : p.mappers.map m x = .ok text := by
    rw [MapperRegistry.map, hmapper]
    exact htext
  unfold recordElement
  split_ifs
  · exact ⟨_, rfl⟩
  · exact ⟨_, by rw [hmap]; rfl⟩

theorem exists_listElement (hmappers : p.mappers.AlwaysSucceeds)
    (hm : p.mappers.contains m = true) (verb : Verb) (x : Record) :
    ∃ element, p.listElement verb m x = .ok element := by
  unfold listElement
  split_ifs
  · exact exists_recordElement hmappers hm x
  · exact ⟨_, rfl⟩

theorem map_of_listElement_error (h : p.listElement verb m x = .error f) :
    p.mappers.map m x = .error f := by
  unfold listElement at h
  split_ifs at h
  exact map_of_recordElement_error h

theorem tag?_of_listElement {doc : Xml} (h : p.listElement verb m x = .ok doc) :
    doc.tag? = some "record" ∨ doc.tag? = some "header" := by
  unfold listElement at h
  split_ifs at h
  · unfold recordElement at h
    split_ifs at h
    · cases h
      exact .inl rfl
    · obtain ⟨text, -, h⟩ := bind_eq_ok_iff.1 h
      cases h
      exact .inl rfl
  · cases h
    exact .inr rfl

/-! ### Faults of listings -/

/-- What is wrong with a listing that fails. -/
inductive ListFault (p : Provider) (src : Source σ) (s : σ) (q : Request) (f : Fault) : Prop
  /-- The bounds cannot be read, or do not go together. -/
  | argument (h : listRequest q = .error f)
  /-- The repository has no page. -/
  | find {l : ListRequest} (hl : listRequest q = .ok l)
    (h : ((p.repository.find src l).run s).result = .error f)
  /-- There are no records. -/
  | empty {l : ListRequest} {page : Page} (hl : listRequest q = .ok l)
    (hpage : ((p.repository.find src l).run s).result = .ok page) (hrecords : page.records = [])
    (hfresh : q.resumptionToken = none) (h : f = .emptyListing)
  /-- There is no metadata for a record. -/
  | mapper {m : String} {x : Record} (h : p.mappers.map m x = .error f)

theorem listFault_of_listed (hq : q.validate = .ok verb) (hverb : verb.IsListing)
    (hl : listRequest q = .ok l) (hpage : ((p.repository.find src l).run s).result = .ok page)
    (h : p.listed q verb page = .error f) : p.ListFault src s q f := by
  obtain ⟨m, -, hm, -⟩ := exists_formatOfPage hq hverb hl hpage
  rw [listed, hm, ok_bind] at h
  split_ifs at h with hempty
  · rw [Bool.and_eq_true, List.isEmpty_iff, Option.isNone_iff_eq_none] at hempty
    exact .empty hl hpage hempty.1 hempty.2 (Except.error.inj h).symm
  · obtain helements | ⟨elements, -, h⟩ := bind_eq_error_iff.1 h
    · obtain ⟨x, -, hx⟩ := exists_of_mapM_eq_error helements
      exact .mapper (map_of_listElement_error hx)
    · cases h

/-- **A listing that fails has one of these faults.** -/
theorem listFault_of_list (hq : q.validate = .ok verb) (hverb : verb.IsListing)
    (h : ((p.list src verb q).run s).result = .error f) : p.ListFault src s q f := by
  rw [result_list] at h
  obtain hargument | ⟨l, hl, h⟩ := bind_eq_error_iff.1 h
  · exact .argument hargument
  obtain hfind | ⟨page, hpage, h⟩ := bind_eq_error_iff.1 h
  · exact .find hl hfind
  · exact listFault_of_listed hq hverb hl hpage h

end Provider

end Harvest
