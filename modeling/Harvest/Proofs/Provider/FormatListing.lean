import Harvest.Proofs.Listing.Lookup
import Harvest.Proofs.Provider.Outcome

/-!
# The formats of a record

`ListMetadataFormats` looks a record up and goes through all formats, asking each whether it covers
the record's type.  `GetRecord` looks a format up first, then the record, then asks that one format,
and at last a mapper.  **The formats that are listed for an identifier are those in which the record
can be had**, every one once, in the order of registration; and the faults agree as well
(`Provider.listed_formats_have_record`).

Both go through the same lookup (`Provider.lookup`), and a format is known by the prefix under which
it is registered (`FormatRegistry.IsKeyed`).
-/

namespace Harvest

open Engine

/-! ### Prefixes -/

namespace FormatRegistry

/-- Formats are registered under their prefixes. -/
def IsKeyed (g : FormatRegistry) : Prop :=
  ∀ m e, g.entries.find? m = some e → e.format.metadataPrefix = m

variable {g g' : FormatRegistry} {m : String} {o : FormatOptions}

theorem isKeyed_standard : standard.IsKeyed := by
  have hentries : ∀ e ∈ standard.entries.entries, e.2.format.metadataPrefix = e.1 := by decide
  intro m e he
  exact hentries _ (OrderedMap.mem_of_look he)

theorem IsKeyed.override (hg : g.IsKeyed) (h : g.override m o = .ok g') : g'.IsKeyed := by
  obtain ⟨_, -, h⟩ := bind_eq_ok_iff.1 h
  cases hm : g.entries.find? m with
  | none =>
    rw [hm] at h
    cases h
  | some e =>
    rw [hm] at h
    cases h
    intro k e' he'
    rw [OrderedMap.find?_insert] at he'
    split_ifs at he' with hk
    · cases he'
      rw [hk]
      exact hg m e hm
    · exact hg k e' he'

theorem IsKeyed.retain (hg : g.IsKeyed) (keep : String → Bool) : (g.retain keep).IsKeyed := by
  intro m e he
  rw [FormatRegistry.retain, OrderedMap.find?_filterNames] at he
  split_ifs at he
  exact hg m e he

theorem IsKeyed.map_formats (hg : g.IsKeyed) :
    g.formats.map (·.metadataPrefix) = g.entries.names := by
  rw [formats, OrderedMap.values, OrderedMap.names, List.map_map, List.map_map]
  refine List.map_congr_left fun e he => hg e.1 e.2 ?_
  exact OrderedMap.find?_eq_some_iff.2 he

theorem mem_names_iff : m ∈ g.entries.names ↔ ∃ o, g.options? m = some o := by
  rw [OrderedMap.mem_names_iff, Option.isSome_iff_exists]
  simp [options?]

end FormatRegistry

theorem Provider.isKeyed_of_make {σ : Type} {settings : Settings} {mappers : MapperRegistry}
    {explain : Explanation} {p : Provider} {s : σ}
    (h : ((make settings mappers explain).run s).result = .ok p) :
    p.formats.IsKeyed := by
  obtain ⟨-, g, hg, rfl⟩ := make_eq_ok_iff.1 h
  have hkeyed : g.IsKeyed := Settings.formatRegistry_induction FormatRegistry.isKeyed_standard
    (fun _ _ _ _ => .override) hg
  exact hkeyed.retain _

/-! ### Listed formats -/

/-- The prefix in an element that stands for a format. -/
def Xml.formatPrefix? : Xml → Option String
  | .element "metadataFormat" _ (.element "metadataPrefix" _ [.text m] :: _) => some m
  | _ => none

/-- The prefixes in a list of formats, as a harvester reads it. -/
def Xml.formatPrefixes : Xml → List String
  | .element _ _ content => content.filterMap formatPrefix?
  | _ => []

namespace Provider

variable {p : Provider} {s : Store} {identifier m : String} {t : RecordType} {x : Record}
  {o : FormatOptions} {f : Fault}

theorem formatPrefixes_node (fs : List MetadataFormat) (tag : String) :
    (Xml.node tag (fs.map formatElement)).formatPrefixes = fs.map (·.metadataPrefix) := by
  have hread : Xml.formatPrefix? ∘ formatElement = some ∘ (·.metadataPrefix) := rfl
  rw [Xml.node, Xml.formatPrefixes, List.filterMap_map, hread, List.filterMap_eq_map]

/-- A format covers a record type. -/
def covers (p : Provider) (t : RecordType) (m : String) : Bool :=
  (p.formats.options? m).any (·.supports t)

theorem map_formatsFor (hp : p.formats.IsKeyed) (t : RecordType) :
    (p.formatsFor (some t)).map (·.metadataPrefix) =
      p.formats.entries.names.filter (p.covers t) := by
  rw [← hp.map_formats, List.filter_map]
  rfl

/-! ### Requests -/

/-- A request for the formats of a record. -/
def formatsRequest (identifier : String) : Request where
  verb := some "ListMetadataFormats"
  identifier := some identifier

/-- A request for a record in a format. -/
def recordRequest (identifier m : String) : Request where
  verb := some "GetRecord"
  identifier := some identifier
  metadataPrefix := some m

/-- What a request for the formats of a record comes to. -/
def formatsAnswer (p : Provider) (s : Store) (identifier : String) : Except Fault Xml :=
  ((p.dispatch Store.source (formatsRequest identifier)).run s).result

/-- What a request for a record in a format comes to. -/
def recordAnswer (p : Provider) (s : Store) (identifier m : String) : Except Fault Xml :=
  ((p.dispatch Store.source (recordRequest identifier m)).run s).result

/-- What there is under an identifier. -/
def lookup (p : Provider) (s : Store) (identifier : String) : Except Fault Record :=
  p.uriOf identifier >>= p.repository.located s

theorem result_typeAskedFor (hv : p.settings.validate = .ok ()) (s : Store) (identifier : String) :
    ((p.typeAskedFor Store.source (formatsRequest identifier)).run s).result =
      (p.lookup s identifier).map fun x => some x.recordType := by
  have hask : p.typeAskedFor Store.source (formatsRequest identifier) = (do
      let uri ← ofExcept (p.uriOf identifier)
      let record ← p.repository.locate Store.source uri
      return some record.recordType) := rfl
  rw [hask, result_ofExcept_bind, lookup]
  cases p.uriOf identifier with
  | error f => rfl
  | ok uri =>
    rw [ok_bind, ok_bind, result_bind, (Repository.ensures_locate hv s uri s rfl).1]
    cases p.repository.located s uri <;> rfl

theorem formatsAnswer_eq (hv : p.settings.validate = .ok ()) (s : Store) (identifier : String) :
    p.formatsAnswer s identifier = p.lookup s identifier >>= fun x =>
      if (p.formatsFor (some x.recordType)).isEmpty then .error .noFormats
      else .ok (.node Verb.listMetadataFormats.name
        ((p.formatsFor (some x.recordType)).map formatElement)) := by
  have hvalid : (formatsRequest identifier).validate = .ok .listMetadataFormats := rfl
  rw [formatsAnswer, result_dispatch, hvalid, ok_bind, answer, listMetadataFormats, result_bind,
    result_typeAskedFor hv]
  cases p.lookup s identifier with
  | error f => rfl
  | ok x =>
    rw [Except.map, ok_bind, ok_bind]
    simp only
    split_ifs <;> rfl

theorem recordAnswer_eq (hv : p.settings.validate = .ok ()) (s : Store) (identifier m : String) :
    p.recordAnswer s identifier m = p.uriOf identifier >>= fun uri =>
      p.repository.fetched s uri m >>= fun x =>
        (p.recordElement m x).map fun element => .node Verb.getRecord.name [element] := by
  have hvalid : (recordRequest identifier m).validate = .ok .getRecord := rfl
  have hget : p.getRecord Store.source (recordRequest identifier m) = (do
      let uri ← ofExcept (p.uriOf identifier)
      let record ← p.repository.fetch Store.source uri m
      let element ← ofExcept (p.recordElement m record)
      return .node Verb.getRecord.name [element]) := rfl
  rw [recordAnswer, result_dispatch, hvalid, ok_bind, answer, hget, result_ofExcept_bind]
  refine congrArg _ (funext fun uri => ?_)
  rw [result_bind, (Repository.ensures_fetch hv s uri m s rfl).1]
  refine congrArg _ (funext fun x => ?_)
  rw [result_ofExcept_bind]
  cases p.recordElement m x <;> rfl

/-- In a format that is registered it is only the type of the record that may be wrong. -/
theorem recordAnswer_of_options (hv : p.settings.validate = .ok ()) (s : Store)
    (identifier : String) (ho : p.formats.options? m = some o) :
    p.recordAnswer s identifier m = p.lookup s identifier >>= fun x =>
      if o.supports x.recordType then
        (p.recordElement m x).map fun element => .node Verb.getRecord.name [element]
      else .error (.typeNotInFormat x.recordType.name m) := by
  have hoptions : p.repository.formats.optionsFor m = .ok o := by
    rw [FormatRegistry.optionsFor, show p.repository.formats.options? m = some o from ho]
  rw [recordAnswer_eq hv, lookup]
  cases p.uriOf identifier with
  | error f => rfl
  | ok uri =>
    rw [ok_bind, ok_bind, Repository.fetched, hoptions, ok_bind]
    cases p.repository.located s uri with
    | error f => rfl
    | ok x =>
      rw [ok_bind, ok_bind]
      split_ifs <;> rfl

theorem kind_of_lookup (h : p.lookup s identifier = .error f) : f.kind = .idDoesNotExist := by
  obtain huri | ⟨uri, -, hlocated⟩ := bind_eq_error_iff.1 h
  · rw [uriOf_eq_error huri]
    rfl
  · have hnone := Repository.located_eq_error hlocated
    rw [hlocated] at hnone
    cases hnone
    rfl

/-- Lookups find the stored records that are reported, with their types. -/
theorem lookup_iff_isReported (hv : p.settings.validate = .ok ()) :
    (∃ x, p.lookup s identifier = .ok x ∧ x.recordType = t) ↔
      ∃ uri r, p.uriOf? identifier = some uri ∧ s.get uri = some r ∧
        p.settings.isReported r = true ∧ r.recordType = t := by
  have huri : ∀ uri, p.uriOf identifier = .ok uri ↔ p.uriOf? identifier = some uri := by
    intro uri
    unfold uriOf
    cases p.uriOf? identifier <;> simp
  constructor
  · rintro ⟨x, hx, rfl⟩
    obtain ⟨uri, hu, hlocated⟩ := bind_eq_ok_iff.1 hx
    obtain ⟨r, hr, hcovers, hshows⟩ := Repository.located_eq_ok_iff.1 hlocated
    refine ⟨uri, r, (huri uri).1 hu, hr, ?_, (Scope.of_shows? hshows).2.1.symm⟩
    exact (Repository.isReported_iff (r := p.repository) hv r).2 ⟨hcovers, by rw [hshows]; rfl⟩
  · rintro ⟨uri, r, hu, hr, hreported, rfl⟩
    obtain ⟨x, hx, htype⟩ :=
      Repository.located_of_isReported (r := p.repository) hv hr hreported
    exact ⟨x, by rw [lookup, (huri uri).2 hu, ok_bind, hx], htype⟩

/-! ### Agreement -/

theorem isEmpty_formatsFor_iff (hp : p.formats.IsKeyed) (t : RecordType) :
    (p.formatsFor (some t)).isEmpty = true ↔
      ∀ m o, p.formats.options? m = some o → t ∉ o.recordTypes := by
  have hprefixes := map_formatsFor hp t
  rw [List.isEmpty_iff, ← List.map_eq_nil_iff (f := (·.metadataPrefix)), hprefixes,
    List.filter_eq_nil_iff]
  constructor
  · intro h m o ho hcovered
    refine h m (FormatRegistry.mem_names_iff.2 ⟨o, ho⟩) ?_
    simp [covers, ho, FormatOptions.supports, hcovered]
  · intro h m hm
    obtain ⟨o, ho⟩ := FormatRegistry.mem_names_iff.1 hm
    simp [covers, ho, FormatOptions.supports, h m o ho]

theorem covers_eq_true_iff : p.covers t m = true ↔
    ∃ o, p.formats.options? m = some o ∧ o.supports t = true := by
  rw [covers, Option.any_eq_true]

theorem formatsAnswer_idDoesNotExist_iff (hv : p.settings.validate = .ok ()) :
    (∃ f, p.formatsAnswer s identifier = .error f ∧ f.kind = .idDoesNotExist) ↔
      ∃ f, p.lookup s identifier = .error f := by
  rw [formatsAnswer_eq hv]
  cases hx : p.lookup s identifier with
  | error f => simp [kind_of_lookup hx]
  | ok x =>
    rw [ok_bind]
    split_ifs <;> simp [Fault.noFormats]

theorem formatsAnswer_cannotDisseminateFormat_iff (hv : p.settings.validate = .ok ()) :
    (∃ f, p.formatsAnswer s identifier = .error f ∧ f.kind = .cannotDisseminateFormat) ↔
      ∃ x, p.lookup s identifier = .ok x ∧ (p.formatsFor (some x.recordType)).isEmpty = true := by
  rw [formatsAnswer_eq hv]
  cases hx : p.lookup s identifier with
  | error f => simp [kind_of_lookup hx]
  | ok x =>
    simp only [ok_bind, Except.ok.injEq, exists_eq_left']
    split_ifs with hempty
    · exact iff_of_true ⟨_, rfl, rfl⟩ hempty
    · exact iff_of_false (by simp) hempty

theorem formatPrefixes_of_formatsAnswer (hv : p.settings.validate = .ok ())
    (hkeyed : p.formats.IsKeyed) {body : Xml} (h : p.formatsAnswer s identifier = .ok body) :
    ∃ x, p.lookup s identifier = .ok x ∧
      body.formatPrefixes = p.formats.entries.names.filter (p.covers x.recordType) := by
  rw [formatsAnswer_eq hv] at h
  obtain ⟨x, hx, h⟩ := bind_eq_ok_iff.1 h
  split_ifs at h
  cases h
  exact ⟨x, hx, by rw [formatPrefixes_node, map_formatsFor hkeyed]⟩

theorem formatsAnswer_eq_ok_iff (hv : p.settings.validate = .ok ()) (hkeyed : p.formats.IsKeyed) :
    (∃ body, p.formatsAnswer s identifier = .ok body ∧ m ∈ body.formatPrefixes) ↔
      ∃ x, p.lookup s identifier = .ok x ∧ p.covers x.recordType m = true := by
  constructor
  · rintro ⟨body, hbody, hm⟩
    obtain ⟨x, hx, hprefixes⟩ := formatPrefixes_of_formatsAnswer hv hkeyed hbody
    rw [hprefixes] at hm
    exact ⟨x, hx, (List.mem_filter.1 hm).2⟩
  · rintro ⟨x, hx, hcovers⟩
    have hm : m ∈ (p.formatsFor (some x.recordType)).map (·.metadataPrefix) := by
      obtain ⟨o, ho, -⟩ := covers_eq_true_iff.1 hcovers
      rw [map_formatsFor hkeyed]
      exact List.mem_filter.2 ⟨FormatRegistry.mem_names_iff.2 ⟨o, ho⟩, hcovers⟩
    have hempty : ¬ (p.formatsFor (some x.recordType)).isEmpty = true := by
      rw [List.isEmpty_iff]
      intro hnone
      rw [hnone] at hm
      cases hm
    refine ⟨_, by rw [formatsAnswer_eq hv, hx, ok_bind, if_neg hempty], ?_⟩
    rw [formatPrefixes_node]
    exact hm

section Made

variable {σ : Type} {settings : Settings} {mappers : MapperRegistry} {explain : Explanation}
  {s₀ : σ}

theorem exists_recordAnswer_iff (hp : ((make settings mappers explain).run s₀).result = .ok p)
    (hmappers : p.mappers.AlwaysSucceeds) (hv : p.settings.validate = .ok ()) :
    (∃ body, p.recordAnswer s identifier m = .ok body) ↔
      ∃ x, p.lookup s identifier = .ok x ∧ p.covers x.recordType m = true := by
  constructor
  · rintro ⟨body, hbody⟩
    rw [recordAnswer_eq hv] at hbody
    obtain ⟨uri, huri, hbody⟩ := bind_eq_ok_iff.1 hbody
    obtain ⟨x, hx, -⟩ := bind_eq_ok_iff.1 hbody
    obtain ⟨o, ho, hlocated, hsupports⟩ := Repository.fetched_eq_ok_iff.1 hx
    exact ⟨x, bind_eq_ok_iff.2 ⟨uri, huri, hlocated⟩, covers_eq_true_iff.2 ⟨o, ho, hsupports⟩⟩
  · rintro ⟨x, hx, hcovers⟩
    obtain ⟨o, ho, hsupports⟩ := covers_eq_true_iff.1 hcovers
    obtain ⟨element, helement⟩ := exists_recordElement hmappers (contains_of_make hp ho) x
    rw [recordAnswer_of_options hv s identifier ho, hx, ok_bind, if_pos hsupports, helement]
    exact ⟨_, rfl⟩

theorem recordAnswer_idDoesNotExist_iff
    (hp : ((make settings mappers explain).run s₀).result = .ok p)
    (hmappers : p.mappers.AlwaysSucceeds) (hv : p.settings.validate = .ok ())
    (ho : p.formats.options? m = some o) :
    (∃ f, p.recordAnswer s identifier m = .error f ∧ f.kind = .idDoesNotExist) ↔
      ∃ f, p.lookup s identifier = .error f := by
  rw [recordAnswer_of_options hv s identifier ho]
  cases hx : p.lookup s identifier with
  | error f => simp [kind_of_lookup hx]
  | ok x =>
    obtain ⟨element, helement⟩ := exists_recordElement hmappers (contains_of_make hp ho) x
    rw [ok_bind, helement]
    by_cases hsupports : o.supports x.recordType = true
    · simp [hsupports, Except.map]
    · simp [hsupports, Fault.typeNotInFormat]

/-- **The formats that are listed for an identifier are those in which its record can be had**, each
once and in the order of registration.  The identifier is not known exactly if it is not known in
any format, and no format is available exactly if harvesters are told of the record but none covers
its type. -/
theorem listed_formats_have_record (hp : ((make settings mappers explain).run s₀).result = .ok p)
    (hmappers : mappers.AlwaysSucceeds) (s : Store) (identifier : String) :
    (∀ m, (∃ body, p.formatsAnswer s identifier = .ok body ∧ m ∈ body.formatPrefixes) ↔
      ∃ body, p.recordAnswer s identifier m = .ok body) ∧
    (∀ body, p.formatsAnswer s identifier = .ok body → body.formatPrefixes.Nodup ∧
      body.formatPrefixes =
        p.formats.entries.names.filter fun m => (p.recordAnswer s identifier m).isOk) ∧
    (p.formats.entries.names ≠ [] →
      ((∃ f, p.formatsAnswer s identifier = .error f ∧ f.kind = .idDoesNotExist) ↔
        ∀ m ∈ p.formats.entries.names,
          ∃ f, p.recordAnswer s identifier m = .error f ∧ f.kind = .idDoesNotExist)) ∧
    ((∃ f, p.formatsAnswer s identifier = .error f ∧ f.kind = .cannotDisseminateFormat) ↔
      ∃ uri r, p.uriOf? identifier = some uri ∧ s.get uri = some r ∧
        p.settings.isReported r = true ∧
        ∀ m o, p.formats.options? m = some o → r.recordType ∉ o.recordTypes) := by
  have hv : p.settings.validate = .ok () := by
    obtain ⟨hvalid, hsettings⟩ := of_make hp
    rw [hsettings, hvalid]
  have hkeyed := isKeyed_of_make hp
  rw [← mappers_of_make hp] at hmappers
  have hrecord : ∀ m, (∃ body, p.recordAnswer s identifier m = .ok body) ↔
      ∃ x, p.lookup s identifier = .ok x ∧ p.covers x.recordType m = true :=
    fun m => exists_recordAnswer_iff hp hmappers hv
  refine ⟨fun m => (formatsAnswer_eq_ok_iff hv hkeyed).trans (hrecord m).symm, ?_, ?_, ?_⟩
  · intro body hbody
    obtain ⟨x, hx, hprefixes⟩ := formatPrefixes_of_formatsAnswer hv hkeyed hbody
    refine ⟨hprefixes ▸ p.formats.entries.nodup.filter _, hprefixes.trans ?_⟩
    refine List.filter_congr fun m _ => ?_
    have hok : (p.recordAnswer s identifier m).isOk = true ↔
        ∃ body, p.recordAnswer s identifier m = .ok body := by
      cases p.recordAnswer s identifier m <;> simp [Except.isOk, Except.toBool]
    rw [Bool.eq_iff_iff, hok, hrecord m, hx]
    simp
  · intro hnames
    rw [formatsAnswer_idDoesNotExist_iff hv]
    constructor
    · intro h m hm
      obtain ⟨o, ho⟩ := FormatRegistry.mem_names_iff.1 hm
      exact (recordAnswer_idDoesNotExist_iff hp hmappers hv ho).2 h
    · intro h
      obtain ⟨m, hm⟩ := List.exists_mem_of_ne_nil _ hnames
      obtain ⟨o, ho⟩ := FormatRegistry.mem_names_iff.1 hm
      exact (recordAnswer_idDoesNotExist_iff hp hmappers hv ho).1 (h m hm)
  · rw [formatsAnswer_cannotDisseminateFormat_iff hv]
    simp only [isEmpty_formatsFor_iff hkeyed]
    constructor
    · rintro ⟨x, hx, hnone⟩
      obtain ⟨uri, r, hu, hr, hreported, htype⟩ := (lookup_iff_isReported hv).1 ⟨x, hx, rfl⟩
      exact ⟨uri, r, hu, hr, hreported, htype ▸ hnone⟩
    · rintro ⟨uri, r, hu, hr, hreported, hnone⟩
      obtain ⟨x, hx, htype⟩ := (lookup_iff_isReported hv).2 ⟨uri, r, hu, hr, hreported, rfl⟩
      exact ⟨x, hx, htype ▸ hnone⟩

end Made

/-- The letter can be had in the one format that is listed for it, and nothing is known about the
attic. -/
theorem listed_formats_have_record_letter :
    ((make sampleSettings uriMappers plainWords).run ()).result = .ok readable ∧
    uriMappers.AlwaysSucceeds ∧
    (∃ body, readable.formatsAnswer Store.sample
      "oai:archivesspace//repositories/2/archival_objects/3" = .ok body ∧
        "oai_dc" ∈ body.formatPrefixes ∧ body.formatPrefixes.Nodup) ∧
    ∃ f, readable.formatsAnswer Store.sample "oai:attic" = .error f ∧
      f.kind = .idDoesNotExist := by
  have hmake : ((make sampleSettings uriMappers plainWords).run ()).result = .ok readable :=
    make_eq_ok_iff.2 ⟨validate_sampleSettings, _, rfl, rfl⟩
  obtain ⟨hlisted, honce, -⟩ := listed_formats_have_record hmake alwaysSucceeds_uriMappers
    Store.sample "oai:archivesspace//repositories/2/archival_objects/3"
  obtain ⟨-, -, hunknown, -⟩ := listed_formats_have_record hmake alwaysSucceeds_uriMappers
    Store.sample "oai:attic"
  refine ⟨hmake, alwaysSucceeds_uriMappers, ?_, ?_⟩
  · obtain ⟨body, hbody, hm⟩ := (hlisted "oai_dc").2 ⟨_, rfl⟩
    exact ⟨body, hbody, hm, (honce body hbody).1⟩
  · have hnames : readable.formats.entries.names = ["oai_dc"] := by decide
    refine (hunknown (by rw [hnames]; exact List.cons_ne_nil _ _)).2 fun m hm => ?_
    rw [hnames] at hm
    obtain rfl := List.mem_singleton.1 hm
    exact ⟨_, rfl, rfl⟩

end Provider

end Harvest
