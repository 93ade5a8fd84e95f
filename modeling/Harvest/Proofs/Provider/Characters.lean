import Harvest.Proofs.Listing.Characters
import Harvest.Proofs.Provider.Namespaces
import Harvest.Proofs.Provider.Outcome
import Harvest.Proofs.Provider.Setup

/-!
# The characters of responses

Texts are escaped before they are written, but there are characters that XML does not have at all,
and escaping leaves these as they are.  Let what a provider is made of be legal: its settings, the
records of its source and the metadata of its mappers (`Provider.Legal`, `Source.Legal`).  Then
answers are legal, and faults are told in the words of the request
(`Provider.ensures_dispatch_legal`).  A response repeats the arguments of its request or tells of a
fault (`Provider.said`), so **the illegal characters of a response come with its request**
(`Provider.illegal_comes_with_request`).

What comes with a request is listed by `Provider.Brings`; what is said about the payload of its
token is part of it, in the words of a library that may quote the payload.  Nothing keeps the
characters of these texts out: a control character in the place of a verb is repeated in the fault
that it makes.
-/

namespace Harvest

open Engine
open Xml (Alphabet)
open Xml.Alphabet

theorem Argument.legal_name (a : Argument) : legal.Spells a.name := by cases a <;> decide

theorem Verb.legal_name (v : Verb) : legal.Spells v.name := by cases v <;> decide

theorem Fault.legal_code {f : Fault} {code : String} (h : f.code? = some code) :
    legal.Spells code := by
  unfold Fault.code? at h
  cases hkind : f.kind <;> rw [hkind] at h <;> cases h <;> decide

/-! ### Legal providers -/

/-- The settings that responses show are legal. -/
structure Settings.Legal (c : Settings) : Prop where
  repositoryName : legal.Spells c.repositoryName
  baseUrl : legal.Spells c.baseUrl
  adminEmail : legal.Spells c.adminEmail
  identifierNamespace : legal.Spells c.identifierNamespace
  levels : ∀ l ∈ c.levels, legal.Spells l
  sets : ∀ e ∈ c.sets.entries, legal.Spells e.1 ∧
    ∀ text, e.2.description = some text → legal.Spells text

/-- What a listing of formats shows of a format is legal. -/
structure MetadataFormat.Legal (f : MetadataFormat) : Prop where
  metadataPrefix : legal.Spells f.metadataPrefix
  schema : legal.Spells f.schema
  xmlNamespace : legal.Spells f.xmlNamespace

/-- Mappers make legal metadata of records of a kind, and the faults of the protocol that they raise
are legal. -/
def MapperRegistry.Legal (g : MapperRegistry) (Stored : Record → Prop) : Prop :=
  ∀ m mapper x, g.mappers.find? m = some mapper → Stored x →
    Tells legal.Spells legal.Spells (mapper x)

/-- What a provider shows beside records is legal. -/
structure Provider.Legal (p : Provider) (Stored : Record → Prop) : Prop where
  settings : p.settings.Legal
  formats : ∀ f ∈ p.formats.formats, f.Legal
  mappers : p.mappers.Legal Stored

theorem FormatRegistry.legal_of_mem_standardFormats {f : MetadataFormat}
    (hf : f ∈ standardFormats.map Prod.fst) : f.Legal := by
  have hall : ∀ f ∈ standardFormats.map Prod.fst, legal.Spells f.metadataPrefix ∧
      legal.Spells f.schema ∧ legal.Spells f.xmlNamespace := by decide +kernel
  obtain ⟨hname, hschema, hnamespace⟩ := hall f hf
  exact ⟨hname, hschema, hnamespace⟩

namespace Provider

variable {σ : Type} {src : Source σ} {I : σ → Prop} {Stored : Record → Prop} {A : Alphabet}
  {p : Provider} {q : Request} {x : Record} {m : String} {verb : Verb}

theorem mem_standardFormats_of_make {τ : Type} {settings : Settings} {mappers : MapperRegistry}
    {explain : Explanation} {s₀ : τ}
    (hp : ((make settings mappers explain).run s₀).result = .ok p) {f : MetadataFormat}
    (hf : f ∈ p.formats.formats) : f ∈ FormatRegistry.standardFormats.map Prod.fst := by
  obtain ⟨-, g, hg, rfl⟩ := make_eq_ok_iff.1 hp
  obtain ⟨-, rfl⟩ := Settings.formatRegistry_eq_ok_iff.1 hg
  simp only [FormatRegistry.formats, FormatRegistry.retain, OrderedMap.values,
    OrderedMap.filterNames, FormatRegistry.withOptions, FormatRegistry.entries_standard,
    List.mem_map, List.mem_filter] at hf
  obtain ⟨_, ⟨_, ⟨⟨_, ⟨f, hf, rfl⟩, rfl⟩, -⟩, rfl⟩, rfl⟩ := hf
  exact List.mem_map_of_mem hf

theorem legal_of_make {τ : Type} {settings : Settings} {mappers : MapperRegistry}
    {explain : Explanation} {s₀ : τ}
    (hp : ((make settings mappers explain).run s₀).result = .ok p) (hsettings : settings.Legal)
    (hmappers : mappers.Legal Stored) : p.Legal Stored where
  settings := by rwa [(of_make hp).2]
  formats _ hf := FormatRegistry.legal_of_mem_standardFormats (mem_standardFormats_of_make hp hf)
  mappers := by rwa [mappers_of_make hp]

/-! ### Texts of requests -/

/-- A text that comes with a request: the value of an argument, a name that is no argument, what its
token stands for, or what is said about the token's payload if that is none. -/
inductive Brings (p : Provider) (q : Request) : String → Prop
  | value {a : Argument} {text : String} (h : q.value? a = some text) : Brings p q text
  | name {text : String} (h : text ∈ q.unknown) : Brings p q text
  | format {raw : String} {t : ResumptionToken} (hq : q.resumptionToken = some raw)
    (ht : p.repository.codec.deserialize raw = .ok t) : Brings p q t.metadataPrefix
  | set {raw name : String} {t : ResumptionToken} (hq : q.resumptionToken = some raw)
    (ht : p.repository.codec.deserialize raw = .ok t) (hset : t.set = some name) :
    Brings p q name
  | payload {raw reason : String} (hq : q.resumptionToken = some raw)
    (ht : p.repository.codec.deserialize raw = .error (.tokenPayload reason)) : Brings p q reason

/-- The legal characters and those that come with a request. -/
def alphabet (p : Provider) (q : Request) : Alphabet := joined (p.Brings q)

theorem spells_value {a : Argument} {text : String} (h : q.value? a = some text) :
    (p.alphabet q).Spells text := joined_spells (.value h)

/-! ### Requests at fault -/

theorem tells_verbOnce : Tells (p.alphabet q).Spells (fun _ => True) q.verbOnce := by
  unfold Request.verbOnce
  split_ifs
  · exact fun _ => spells_of_legal (by decide)
  · cases hverb : q.verb with
    | none => exact fun _ => spells_of_legal (by decide)
    | some name =>
      simp only [Verb.ofName]
      split
      · trivial
      · exact fun _ => spells_between (by decide) (by decide) (spells_value (a := .verb) hverb)

theorem tells_require (a : Argument) : Tells A.Spells (fun _ => True) (q.require a) := by
  unfold Request.require
  split_ifs
  · trivial
  · exact fun _ => spells_between (by decide) (by decide) (spells_of_legal a.legal_name)

theorem tells_requireFor (v : Verb) : Tells A.Spells (fun _ => True) (q.requireFor v) := by
  have hlisting : Tells A.Spells (fun _ => True) (if q.resumptionToken.isSome then
      if q.present.length > 1 then .error .tokenIsExclusive else .ok ()
      else q.require .metadataPrefix) := by
    split_ifs
    · exact fun _ => spells_of_legal (by decide)
    · trivial
    · exact tells_require _
  cases v with
  | identify | listMetadataFormats | listSets => trivial
  | getRecord => exact (tells_require _).bind fun _ _ => tells_require _
  | listIdentifiers | listRecords => exact hlisting

theorem tells_fit (v : Verb) : Tells (p.alphabet q).Spells (fun _ => True) (q.fit v) := by
  unfold Request.fit
  cases q.repeated with
  | cons a _ => exact fun _ => spells_between (by decide) (by decide) (spells_of_legal a.legal_name)
  | nil =>
    cases hunknown : q.unknown with
    | cons name _ =>
      have hname : name ∈ q.unknown := hunknown ▸ List.mem_cons_self
      exact fun _ => spells_between (by decide) (by decide) (joined_spells (.name hname))
    | nil =>
      cases q.present.find? (· ∉ v.allowed) with
      | some a =>
        exact fun _ => spells_append_iff.2 ⟨spells_between (by decide) (by decide)
          (spells_of_legal a.legal_name), spells_of_legal v.legal_name⟩
      | none => exact tells_requireFor v

theorem tells_validate : Tells (p.alphabet q).Spells (fun _ => True) q.validate := by
  rw [Request.validate_eq]
  exact tells_verbOnce.bind fun v _ => (tells_fit v).map fun _ _ => trivial

theorem tells_bound? {read : String → Except Fault Datestamp} {text : Option String}
    (hread : ∀ s, A.Spells s → Tells A.Spells (fun _ => True) (read s))
    (h : ∀ s, text = some s → A.Spells s) : Tells A.Spells (fun _ => True) (bound? read text) := by
  cases text with
  | none => trivial
  | some s => exact (hread s (h s rfl)).map fun _ _ => trivial

theorem tells_readLower (s : String) (hs : A.Spells s) :
    Tells A.Spells (fun _ => True) (Datestamp.readLower s) := by
  unfold Datestamp.readLower
  split
  · trivial
  · exact fun _ => spells_between (by decide) (by decide) hs

theorem tells_readUpper (s : String) (hs : A.Spells s) :
    Tells A.Spells (fun _ => True) (Datestamp.readUpper s) := by
  unfold Datestamp.readUpper
  split
  · trivial
  · exact fun _ => spells_between (by decide) (by decide) hs

theorem tells_listRequest : Tells (p.alphabet q).Spells
    (fun l => l.SpelledIn (p.alphabet q) p.repository) (listRequest q) := by
  unfold listRequest
  cases htoken : q.resumptionToken with
  | some token =>
    refine ⟨nofun, nofun, ?_, ?_⟩
    · rintro raw t ⟨⟩ ht
      exact ⟨joined_spells (.format htoken ht), fun name hname =>
        joined_spells (.set htoken ht hname)⟩
    · rintro raw reason ⟨⟩ ht
      exact joined_spells (.payload htoken ht)
  | none =>
    refine (tells_bound? tells_readLower fun s hs =>
      spells_value (a := .since) hs).bind fun since _ => ?_
    refine (tells_bound? tells_readUpper fun s hs =>
      spells_value (a := .upTo) hs).bind fun upTo _ => ?_
    have hfresh : ∀ since upTo, ListRequest.SpelledIn (p.alphabet q) p.repository
        { metadataPrefix := some (q.metadataPrefix.getD ""), set := q.set, since, upTo } := by
      refine fun since upTo => ⟨?_, fun name hname => spells_value (a := .set) hname, ?_, ?_⟩
      · rintro m ⟨⟩
        cases hm : q.metadataPrefix with
        | none => exact spells_of_legal (by decide)
        | some m => exact spells_value (a := .metadataPrefix) hm
      · rintro raw t ⟨⟩
      · rintro raw reason ⟨⟩
    cases since with
    | none => exact hfresh _ _
    | some s =>
      cases upTo with
      | none => exact hfresh _ _
      | some u =>
        simp only
        split_ifs
        · have hdetail : legal.Spells "'from' and 'until' must have the same granularity" := by
            decide +kernel
          exact fun _ => spells_of_legal hdetail
        · exact hfresh _ _

theorem tells_uriOf {identifier : String} (h : A.Spells identifier) :
    Tells A.Spells A.Spells (p.uriOf identifier) := by
  cases huri : p.uriOf identifier with
  | ok uri =>
    obtain ⟨rfl, -⟩ := uriOf_eq_ok_iff.1 huri
    exact (spells_append_iff.1 h).2
  | error f =>
    obtain rfl := uriOf_eq_error huri
    exact fun _ => spells_between (by decide) (by decide) h

/-! ### Elements -/

section Elements

variable (hp : p.Legal Stored)

include hp

theorem legal_of_mem_memberships {name : String}
    (h : name ∈ p.settings.setDirectory.memberships x) : legal.Spells name := by
  rcases List.mem_append.1 h with h | h
  · obtain ⟨e, he, rfl⟩ := List.mem_map.1 h
    exact (hp.settings.sets e (List.mem_filter.1 he).1).1
  · rw [SetDirectory.levelSet?, Option.mem_toList, Option.filter_eq_some_iff] at h
    simp only [Bool.and_eq_true, decide_eq_true_eq] at h
    exact hp.settings.levels name h.2.1.2

theorem writes_header (hx : legal.Spells x.uri) : legal.Writes (p.header x) := by
  have hidentifier : legal.Spells (p.identifierOf x.uri) := by
    refine spells_append_iff.2 ⟨spells_append_iff.2 ⟨spells_append_iff.2
      ⟨by decide, hp.settings.identifierNamespace⟩, by decide⟩, hx⟩
  refine writes_element_iff.2 ⟨by decide, fun a ha => ?_, fun y hy => ?_⟩
  · split_ifs at ha
    · rw [List.mem_singleton.1 ha]
      decide
    · cases ha
  · simp only [List.mem_cons, List.mem_map] at hy
    obtain rfl | rfl | ⟨name, hname, rfl⟩ := hy
    · exact (writes_leaf_iff (by decide)).2 hidentifier
    · exact (writes_leaf_iff (by decide)).2 (Instant.legal_datestamp _)
    · refine (writes_leaf_iff (by decide)).2 ?_
      split_ifs at hname
      · cases hname
      · exact legal_of_mem_memberships hp hname

theorem tells_map (hm : A.Spells m) (hx : Stored x) :
    Tells A.Spells legal.Spells (p.mappers.map m x) := by
  unfold MapperRegistry.map
  split
  · rename_i mapper hmapper
    exact (hp.mappers m mapper x hmapper hx).imp (fun _ => spells_of_legal) fun _ h => h
  · exact fun _ => spells_between (by decide) (by decide) hm

theorem tells_recordElement (hm : A.Spells m) (hx : x.Shown Stored) :
    Tells A.Spells legal.Writes (p.recordElement m x) := by
  unfold recordElement
  split_ifs with hdeleted
  · refine (writes_node_iff (by decide)).2 fun y hy => ?_
    rw [List.mem_singleton.1 hy]
    exact writes_header hp hx.uri
  · refine (tells_map hp hm (hx.stored (Bool.eq_false_iff.2 hdeleted))).bind fun text htext => ?_
    refine (writes_node_iff (by decide)).2 fun y hy => ?_
    simp only [List.mem_cons, List.not_mem_nil, or_false] at hy
    obtain rfl | rfl := hy
    · exact writes_header hp hx.uri
    · exact (writes_node_iff (by decide)).2 (by simpa using htext)

theorem tells_listElement (hm : A.Spells m) (hx : x.Shown Stored) :
    Tells A.Spells legal.Writes (p.listElement verb m x) := by
  unfold listElement
  split_ifs
  · exact tells_recordElement hp hm hx
  · exact writes_header hp hx.uri

theorem writes_formatElement {f : MetadataFormat} (hf : f ∈ p.formats.formats) :
    legal.Writes (formatElement f) := by
  obtain ⟨hm, hschema, hnamespace⟩ := hp.formats f hf
  refine (writes_node_iff (by decide)).2 ?_
  simp only [List.mem_cons, List.not_mem_nil, or_false, forall_eq_or_imp, forall_eq]
  exact ⟨(writes_leaf_iff (by decide)).2 hm, (writes_leaf_iff (by decide)).2 hschema,
    (writes_leaf_iff (by decide)).2 hnamespace⟩

theorem writes_setElement {d : SetDescription}
    (hd : d ∈ p.settings.setDirectory.descriptions) : legal.Writes (setElement d) := by
  have hlegal : legal.Spells d.spec ∧ legal.Spells d.name ∧
      ∀ text, d.description = some text → legal.Spells text := by
    rcases List.mem_append.1 hd with h | h
    · obtain ⟨e, he, rfl⟩ := List.mem_map.1 h
      obtain ⟨hname, hdescription⟩ := hp.settings.sets e he
      exact ⟨hname, hname, hdescription⟩
    · obtain ⟨l, hl, rfl⟩ := List.mem_map.1 h
      have hname := hp.settings.levels l (List.mem_filter.1 hl).1
      exact ⟨hname, hname, nofun⟩
  obtain ⟨hspec, hname, hdescription⟩ := hlegal
  refine (writes_node_iff (by decide)).2 fun x hx => ?_
  simp only [List.mem_cons] at hx
  obtain rfl | rfl | hx := hx
  · exact (writes_leaf_iff (by decide)).2 hspec
  · exact (writes_leaf_iff (by decide)).2 hname
  · split at hx
    · rename_i text htext
      rw [List.mem_singleton.1 hx]
      refine (writes_node_iff (by decide)).2 fun y hy => ?_
      rw [List.mem_singleton.1 hy]
      exact (writes_leaf_iff (by decide)).2 (hdescription text htext)
    · cases hx

end Elements

theorem writes_of_mem_tokenElements {page : Page} {y : Xml} (hy : y ∈ p.tokenElements q page) :
    legal.Writes y := by
  unfold tokenElements at hy
  split at hy
  · rw [List.mem_singleton.1 hy]
    exact (writes_leaf_iff (by decide)).2 (Codec.legal_serialize _ _)
  · split_ifs at hy
    · rw [List.mem_singleton.1 hy]
      exact writes_void (by decide)
    · cases hy

/-! ### Answers -/

section Answers

variable (hp : p.Legal Stored) (hsrc : src.Legal I Stored)

include hp hsrc

theorem ensures_identify_legal : Ensures I (p.identify src) (Tells A.Spells legal.Writes) := by
  have hask : Ensures I (ask src.earliest) (Tells A.Spells fun _ => True) := fun s hs =>
    ⟨(hsrc.earliest s hs).1.imp (fun _ => spells_of_legal) fun _ h => h, (hsrc.earliest s hs).2⟩
  unfold identify
  refine hask.tells_bind fun earliest _ => ensures_pure ?_
  refine (writes_node_iff (Verb.legal_name _)).2 ?_
  simp only [List.mem_cons, List.not_mem_nil, or_false, forall_eq_or_imp, forall_eq]
  exact ⟨(writes_leaf_iff (by decide)).2 hp.settings.repositoryName,
    (writes_leaf_iff (by decide)).2 hp.settings.baseUrl,
    (writes_leaf_iff (by decide)).2 (by decide),
    (writes_leaf_iff (by decide)).2 hp.settings.adminEmail,
    (writes_leaf_iff (by decide)).2 (Instant.legal_datestamp _),
    (writes_leaf_iff (by decide)).2 (by decide), (writes_leaf_iff (by decide)).2 (by decide)⟩

omit hp in
theorem ensures_typeAskedFor_legal : Ensures I (p.typeAskedFor src q)
    (Tells (p.alphabet q).Spells fun _ => True) := by
  unfold typeAskedFor
  cases hidentifier : q.identifier with
  | none => exact ensures_pure trivial
  | some identifier =>
    have hspells := spells_value (p := p) (a := .identifier) hidentifier
    refine (ensures_ofExcept (tells_uriOf hspells)).tells_bind fun uri huri => ?_
    exact (Repository.ensures_locate_shown hsrc huri).tells_bind fun x _ => ensures_pure trivial

theorem ensures_listMetadataFormats_legal : Ensures I (p.listMetadataFormats src q)
    (Tells (p.alphabet q).Spells legal.Writes) := by
  unfold listMetadataFormats
  refine (ensures_typeAskedFor_legal hsrc).tells_bind fun t _ => ?_
  simp only
  split_ifs
  · exact ensures_fail fun _ => spells_of_legal (by decide)
  · refine ensures_pure ((writes_node_iff (Verb.legal_name _)).2 fun y hy => ?_)
    obtain ⟨f, hf, rfl⟩ := List.mem_map.1 hy
    exact writes_formatElement hp (List.mem_filter.1 hf).1

omit hsrc in
theorem tells_listSets : Tells A.Spells legal.Writes (p.listSets q) := by
  unfold listSets
  simp only
  split_ifs
  · exact fun _ => spells_of_legal (by decide)
  · exact fun _ => spells_of_legal (by decide)
  · refine (writes_node_iff (Verb.legal_name _)).2 fun y hy => ?_
    obtain ⟨d, hd, rfl⟩ := List.mem_map.1 hy
    exact writes_setElement hp hd

theorem ensures_getRecord_legal : Ensures I (p.getRecord src q)
    (Tells (p.alphabet q).Spells legal.Writes) := by
  unfold getRecord
  split
  · rename_i identifier m hidentifier hm
    have hspells := spells_value (p := p) (a := .identifier) hidentifier
    have hformat := spells_value (p := p) (a := .metadataPrefix) hm
    refine (ensures_ofExcept (tells_uriOf hspells)).tells_bind fun uri huri => ?_
    refine (Repository.ensures_fetch_shown hsrc huri hformat).tells_bind fun x hx => ?_
    refine (ensures_ofExcept (tells_recordElement hp hformat hx)).tells_bind fun y hy => ?_
    refine ensures_pure ((writes_node_iff (Verb.legal_name _)).2 fun z hz => ?_)
    rwa [List.mem_singleton.1 hz]
  · have hdetail : legal.Spells "GetRecord needs identifier and metadataPrefix" := by
      decide +kernel
    exact ensures_fail fun _ => spells_of_legal hdetail

omit hp hsrc in
theorem tells_formatOfPage {page : Page}
    (hnext : ∀ t, page.next = some t → (p.alphabet q).Spells t.metadataPrefix) :
    Tells (p.alphabet q).Spells (p.alphabet q).Spells (p.formatOfPage q page) := by
  unfold formatOfPage
  split
  · exact hnext _ ‹_›
  · rename_i hm
    exact spells_value (a := .metadataPrefix) hm
  · rename_i hraw
    exact (Codec.tells_deserialize fun reason h => joined_spells (.payload hraw h)).map
      fun t ht => joined_spells (.format hraw ht)
  · exact fun _ => spells_of_legal (by decide)

theorem ensures_list_legal (verb : Verb) : Ensures I (p.list src verb q)
    (Tells (p.alphabet q).Spells legal.Writes) := by
  unfold list
  refine (ensures_ofExcept tells_listRequest).tells_bind fun l hl => ?_
  refine (Repository.ensures_find_shown hsrc hl).tells_bind fun page hpage => ?_
  obtain ⟨hrecords, hnext⟩ := hpage
  refine (ensures_ofExcept (tells_formatOfPage hnext)).tells_bind fun m hm => ?_
  split_ifs
  · exact ensures_fail fun _ => spells_of_legal (by decide)
  · have helements : Tells (p.alphabet q).Spells (fun ys => ∀ y ∈ ys, legal.Writes y)
        (page.records.mapM (p.listElement verb m)) :=
      tells_mapM fun x hx => tells_listElement hp hm (hrecords x hx)
    refine (ensures_ofExcept helements).tells_bind fun elements helements => ensures_pure ?_
    refine (writes_node_iff (Verb.legal_name _)).2 fun y hy => ?_
    exact (List.mem_append.1 hy).elim (helements y) writes_of_mem_tokenElements

/-- **Answers are legal, and faults are told in the words of the request.** -/
theorem ensures_dispatch_legal : Ensures I (p.dispatch src q)
    (Tells (p.alphabet q).Spells legal.Writes) := by
  unfold dispatch
  refine (ensures_ofExcept tells_validate).tells_bind fun verb _ => ?_
  cases verb with
  | identify => exact ensures_identify_legal hp hsrc
  | listMetadataFormats => exact ensures_listMetadataFormats_legal hp hsrc
  | listSets => exact ensures_ofExcept (tells_listSets hp)
  | getRecord => exact ensures_getRecord_legal hp hsrc
  | listIdentifiers => exact ensures_list_legal hp hsrc _
  | listRecords => exact ensures_list_legal hp hsrc _

end Answers

/-! ### Responses -/

/-- What a response says of its request: the values that it repeats, and the detail of its fault. -/
def said (p : Provider) (src : Source σ) (s : σ) (q : Request) : List String :=
  match ((p.dispatch src q).run s).result with
  | .ok _ => q.arguments.map Prod.snd
  | .error f => f.detail :: (echoed q f).map Prod.snd

theorem spells_rootAttributes : ∀ a ∈ [("xmlns", responseNamespace),
    ("xmlns:xsi", schemaNamespace),
    ("xsi:schemaLocation", responseNamespace ++ " " ++ responseSchema)],
      A.Spells a.1 ∧ A.Spells a.2 := by
  have hresponse : legal.Spells responseNamespace := by decide +kernel
  have hschemas : legal.Spells schemaNamespace := by decide +kernel
  have hschema : legal.Spells responseSchema := by decide +kernel
  simp only [List.mem_cons, List.not_mem_nil, or_false, forall_eq_or_imp, forall_eq,
    spells_append_iff, spells_of_legal hresponse, spells_of_legal hschemas,
    spells_of_legal hschema, and_true, true_and]
  refine ⟨?_, ?_, ?_, ?_⟩ <;> exact spells_of_legal (by decide)

theorem writes_envelope_iff (hp : p.settings.Legal) {echoed : List (Argument × String)}
    {now : Instant} {body : Xml} : A.Writes (p.envelope echoed now body) ↔
      (∀ t ∈ echoed.map Prod.snd, A.Spells t) ∧ A.Writes body := by
  have hattributes : (∀ a ∈ echoed.map fun a => (a.1.name, a.2), A.Spells a.1 ∧ A.Spells a.2) ↔
      ∀ t ∈ echoed.map Prod.snd, A.Spells t := by
    simp only [List.forall_mem_map, spells_of_legal (Argument.legal_name _), true_and]
  have hdate : A.Writes (.leaf "responseDate" now.datestamp) :=
    (writes_leaf_iff (by decide)).2 (spells_of_legal (Instant.legal_datestamp now))
  have hrequest : A.Writes (.element "request" (echoed.map fun a => (a.1.name, a.2))
      [.text p.settings.baseUrl]) ↔ ∀ t ∈ echoed.map Prod.snd, A.Spells t := by
    rw [writes_element_iff, hattributes]
    simp only [List.mem_singleton, forall_eq, writes_text_iff, spells_of_legal hp.baseUrl,
      and_true]
    exact and_iff_right (spells_of_legal (by decide))
  rw [envelope, writes_element_iff]
  constructor
  · rintro ⟨-, -, hcontent⟩
    obtain ⟨-, hcontent⟩ := List.forall_mem_cons.1 hcontent
    obtain ⟨hechoed, hbody⟩ := List.forall_mem_cons.1 hcontent
    exact ⟨hrequest.1 hechoed, hbody body List.mem_cons_self⟩
  · rintro ⟨hechoed, hbody⟩
    refine ⟨spells_of_legal (by decide), spells_rootAttributes, ?_⟩
    exact List.forall_mem_cons.2 ⟨hdate, List.forall_mem_cons.2
      ⟨hrequest.2 hechoed, List.forall_mem_singleton.2 hbody⟩⟩

theorem writes_errorElement_iff {f : Fault} {code : String} (h : f.code? = some code) :
    A.Writes (errorElement code f) ↔ A.Spells f.detail := by
  rw [errorElement, writes_element_iff]
  simp only [List.mem_singleton, forall_eq, writes_text_iff]
  refine ⟨fun h => h.2.2, fun hdetail => ⟨spells_of_legal (by decide), ?_, hdetail⟩⟩
  exact ⟨spells_of_legal (by decide), spells_of_legal (Fault.legal_code h)⟩

theorem brings_of_mem_echoed {f : Fault} {t : String} (h : t ∈ (echoed q f).map Prod.snd) :
    p.Brings q t := by
  obtain ⟨⟨a, value⟩, ha, rfl⟩ := List.mem_map.1 h
  unfold echoed at ha
  split_ifs at ha
  · cases ha
  · split at ha
    · exact .value (Request.mem_arguments_iff.1 ha)
    · cases ha

section Responses

variable (hp : p.Legal Stored) (hsrc : src.Legal I Stored) {s : σ} (hs : I s) {now : Instant}
  {text : String} (htext : ((p.respond src q now).run s).result = .ok text)

include hp hsrc hs htext

/-- **A response is spelled in an alphabet if what it says of its request is.** -/
theorem spells_respond_iff : A.Spells text ↔ ∀ t ∈ p.said src s q, A.Spells t := by
  have hdispatch := (ensures_dispatch_legal (q := q) hp hsrc s hs).1
  rw [result_respond, result_response] at htext
  obtain ⟨doc, hdoc, rfl⟩ := map_eq_ok_iff.1 htext
  rw [spells_document_iff, said]
  obtain ⟨body, hresult, rfl⟩ | ⟨f, code, hresult, hcode, rfl⟩ := replied_eq_ok_iff.1 hdoc
  · rw [hresult] at hdispatch
    have hbody : A.Writes body := covers_of_legal hdispatch
    rw [hresult, writes_envelope_iff hp.settings]
    exact and_iff_left hbody
  · rw [hresult, writes_envelope_iff hp.settings, writes_errorElement_iff hcode,
      List.forall_mem_cons]
    exact and_comm

/-- What a response says of its request is spelled in the texts of the request. -/
theorem spells_of_mem_said : ∀ t ∈ p.said src s q, (p.alphabet q).Spells t := by
  have hdispatch := (ensures_dispatch_legal (q := q) hp hsrc s hs).1
  rw [result_respond, result_response] at htext
  obtain ⟨doc, hdoc, -⟩ := map_eq_ok_iff.1 htext
  rw [said]
  obtain ⟨body, hresult, rfl⟩ | ⟨f, code, hresult, hcode, rfl⟩ := replied_eq_ok_iff.1 hdoc
  · rw [hresult]
    intro t ht
    obtain ⟨⟨a, value⟩, ha, rfl⟩ := List.mem_map.1 ht
    exact spells_value (Request.mem_arguments_iff.1 ha)
  · rw [hresult] at hdispatch
    rw [hresult]
    have hown : f.isProtocol = true := Option.isSome_iff_exists.2 ⟨code, hcode⟩
    refine List.forall_mem_cons.2 ⟨hdispatch hown, fun t ht => ?_⟩
    exact joined_spells (brings_of_mem_echoed ht)

end Responses

/-! ### The small archive -/

theorem legal_store {store : Store} (h : store.WellFormed)
    (huris : ∀ x ∈ store.records, legal.Spells x.uri) :
    Store.source.Legal (· = store) (· ∈ store.records) where
  uri := huris
  scan q s hs := by
    subst hs
    obtain ⟨hscan, hkept⟩ := (Store.serves h).scan q s rfl
    rw [hscan]
    exact ⟨fun x hx => (List.mem_filter.1 (List.mem_of_mem_take hx)).1, hkept⟩
  get uri s hs := by
    subst hs
    exact ⟨fun x hx => ((Store.get_eq_some_iff h).1 hx).1, rfl⟩
  earliest s hs := ⟨trivial, hs⟩

theorem legal_uriMappers (huri : ∀ x, Stored x → legal.Spells x.uri) :
    uriMappers.Legal Stored := by
  intro m mapper x hm hx
  rw [uriMappers, MapperRegistry.register, OrderedMap.find?_insert] at hm
  split_ifs at hm
  · cases hm
    exact spells_ofList_iff.2 ((writes_leaf_iff (A := legal) (by decide)).2 (huri x hx))
  · cases hm

theorem legal_sampleSettings : sampleSettings.Legal where
  repositoryName := by decide
  baseUrl := by decide
  adminEmail := by decide
  identifierNamespace := by decide
  levels := (by decide +kernel : ∀ l ∈ defaultLevels, legal.Spells l)
  sets := by rintro e ⟨⟩

theorem legal_sample : Store.source.Legal (· = Store.sample) (· ∈ Store.sample.records) := by
  have husual : ∀ x ∈ Store.sample.records,
      x.uri = Record.uriOf x.repository x.recordType x.id := by
    decide +kernel
  refine legal_store Store.sample_reachable.wellFormed fun x hx => ?_
  rw [husual x hx]
  exact Record.legal_uriOf _ _ _

/-- A request with a control character in the place of a verb. -/
def controlRequest : Request := .ofPairs [("verb", "\x01")]

/-- The response to it. -/
def controlResponse : String :=
  (readable.envelope [] (Store.sampleTime 60)
    (errorElement "badVerb" (.illegalVerb "\x01"))).document

theorem control_mem_controlResponse : '\x01' ∈ controlResponse.toList := by
  by_contra hnot
  have hspells : (without '\x01' (by decide)).Spells controlResponse := without_spells_iff.2 hnot
  rw [controlResponse, spells_document_iff, writes_envelope_iff legal_sampleSettings,
    writes_errorElement_iff rfl, without_spells_iff] at hspells
  exact hspells.2 (by decide)

theorem respond_controlRequest : ((readable.respond Store.source controlRequest
    (Store.sampleTime 60)).run Store.sample).result = .ok controlResponse := rfl

/-! ### Where illegal characters come from -/

/-- **The illegal characters of a response come with its request.**  Let what a provider is made of
be legal: its settings, the URIs of the records that its source gives, the metadata that its mappers
make of these, and the faults of the protocol that source and mappers raise.  Then a response has an
illegal character exactly if one of the values that it repeats has it, or the detail of its fault.
Every such character stands in a text that comes with the request, and there is none if these are
legal. -/
theorem illegal_comes_with_request {τ : Type} {s₀ : τ} {settings : Settings}
    {mappers : MapperRegistry} {explain : Explanation}
    (hp : ((make settings mappers explain).run s₀).result = .ok p)
    (hsettings : settings.Legal) (hmappers : mappers.Legal Stored) (hsrc : src.Legal I Stored)
    {s : σ} (hs : I s) {now : Instant} {text : String}
    (htext : ((p.respond src q now).run s).result = .ok text) :
    (∀ c, ¬ Xml.IsChar c → (c ∈ text.toList ↔ ∃ t ∈ p.said src s q, c ∈ t.toList)) ∧
    (∀ c ∈ text.toList, ¬ Xml.IsChar c → ∃ t, p.Brings q t ∧ c ∈ t.toList) ∧
    ((∀ t, p.Brings q t → legal.Spells t) → legal.Spells text) := by
  have hlegal := legal_of_make hp hsettings hmappers
  have hsaid := spells_of_mem_said hlegal hsrc hs htext
  have hspells : (p.alphabet q).Spells text := (spells_respond_iff hlegal hsrc hs htext).2 hsaid
  refine ⟨fun c hc => ?_, fun c hc hillegal => (hspells c hc).resolve_left hillegal,
    legal_spells_of_joined hspells⟩
  -- the character is in the text if the alphabet without it does not do
  have hwithout := spells_respond_iff (A := without c hc) hlegal hsrc hs htext
  simpa [without_spells_iff] using not_congr hwithout

/-- The request for the letter has a legal response.  The control character in the other response
comes with its request. -/
theorem illegal_comes_with_request_letter :
    (∃ text, ((readable.respond Store.source letterRequest (Store.sampleTime 60)).run
      Store.sample).result = .ok text ∧ legal.Spells text) ∧
    ((readable.respond Store.source controlRequest (Store.sampleTime 60)).run
      Store.sample).result = .ok controlResponse ∧
    ¬ legal.Spells controlResponse ∧
    ∃ t, readable.Brings controlRequest t ∧ '\x01' ∈ t.toList := by
  have hletter : ((readable.respond Store.source letterRequest (Store.sampleTime 60)).run
      Store.sample).result = .ok (readable.envelope letterRequest.arguments (Store.sampleTime 60)
        (.node "GetRecord" [.node "record" [readable.header Store.sampleLetter,
          .node "metadata" [.markup (String.ofList
            (Xml.leaf "dc" Store.sampleLetter.uri).chars)]]])).document := rfl
  obtain ⟨-, -, hclean⟩ := illegal_comes_with_request make_readable legal_sampleSettings
    (legal_uriMappers legal_sample.uri) legal_sample rfl hletter
  obtain ⟨-, hillegal, -⟩ := illegal_comes_with_request make_readable legal_sampleSettings
    (legal_uriMappers legal_sample.uri) legal_sample rfl respond_controlRequest
  refine ⟨⟨_, hletter, hclean ?_⟩, respond_controlRequest,
    fun h => absurd (h _ control_mem_controlResponse) (by decide : ¬ Xml.IsChar '\x01'),
    hillegal _ control_mem_controlResponse (by decide)⟩
  rintro t (h | h | h | h | h)
  · rename_i a
    cases a <;> cases h <;> decide +kernel
  all_goals cases h

/-- **A control character is repeated in a fault** as it is, although everything else is legal. -/
theorem control_character_is_repeated :
    ((make sampleSettings uriMappers plainWords).run ()).result = .ok readable ∧
    sampleSettings.Legal ∧ uriMappers.Legal (· ∈ Store.sample.records) ∧
    Store.source.Legal (· = Store.sample) (· ∈ Store.sample.records) ∧
    ((readable.respond Store.source controlRequest (Store.sampleTime 60)).run
      Store.sample).result = .ok controlResponse ∧
    '\x01' ∈ controlResponse.toList ∧ ¬ Xml.IsChar '\x01' := by
  exact ⟨make_readable, legal_sampleSettings, legal_uriMappers legal_sample.uri, legal_sample,
    respond_controlRequest, control_mem_controlResponse, by decide⟩

end Provider

end Harvest
