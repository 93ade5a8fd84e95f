import Harvest.Proofs.Provider.Disclosure
import Harvest.Proofs.Provider.Make
import Harvest.Proofs.Secrecy

/-!
# What a provider keeps secret

All that a provider learns of a store, apart from the time of its earliest change, it learns from
listings and lookups.  So if hidden records are left out, two stores with the same open records
cannot be told apart: **every response but that to `Identify` is the same**, text or fault
(`Provider.respond_eq_of_open`).
-/

namespace Harvest.Provider

open Engine

section Agree

variable {p : Provider} {a b : Store} {q : Request}
  (ha : a.WellFormed) (hb : b.WellFormed) (hv : p.settings.validate = .ok ())
  (homit : p.settings.hiddenPolicy = .omit)
  (hopen : ∀ uri, a.open? p.settings uri = b.open? p.settings uri)

include ha hb homit hopen

theorem agree_list (verb : Verb) : Agree (· = a) (· = b) (p.list Store.source verb q)
    (p.list Store.source verb q) := by
  unfold list
  refine (agree_ofExcept _).bind fun l => ?_
  refine (Repository.agree_find (r := p.repository) ha hb homit hopen l).bind fun page => ?_
  refine (agree_ofExcept _).bind fun m => ?_
  split_ifs
  · exact agree_fail _
  · exact (agree_ofExcept _).bind fun elements => agree_pure _

include hv

theorem agree_typeAskedFor : Agree (· = a) (· = b) (p.typeAskedFor Store.source q)
    (p.typeAskedFor Store.source q) := by
  unfold typeAskedFor
  cases q.identifier with
  | none => exact agree_pure none
  | some identifier =>
    refine (agree_ofExcept _).bind fun uri => ?_
    exact (Repository.agree_locate (r := p.repository) ha hb homit hopen hv uri).bind fun x =>
      agree_pure _

theorem agree_listMetadataFormats : Agree (· = a) (· = b) (p.listMetadataFormats Store.source q)
    (p.listMetadataFormats Store.source q) := by
  unfold listMetadataFormats
  refine (agree_typeAskedFor ha hb hv homit hopen).bind fun t => ?_
  simp only
  split_ifs
  · exact agree_fail _
  · exact agree_pure _

theorem agree_getRecord : Agree (· = a) (· = b) (p.getRecord Store.source q)
    (p.getRecord Store.source q) := by
  unfold getRecord
  split
  · refine (agree_ofExcept _).bind fun uri => ?_
    refine (Repository.agree_fetch (r := p.repository) ha hb homit hopen hv uri _).bind fun x => ?_
    exact (agree_ofExcept _).bind fun element => agree_pure _
  · exact agree_fail _

theorem agree_dispatch (hq : q.verb ≠ some "Identify") : Agree (· = a) (· = b)
    (p.dispatch Store.source q) (p.dispatch Store.source q) := by
  unfold dispatch
  cases hvalid : q.validate with
  | error f => exact agree_fail f
  | ok v =>
    show Agree (· = a) (· = b) (p.answer Store.source q v) (p.answer Store.source q v)
    cases v with
    -- this verb alone asks for the time of the earliest change, be it that of a hidden record
    | identify => exact absurd (Request.validate_eq_ok_iff.1 hvalid).1 hq
    | listMetadataFormats => exact agree_listMetadataFormats ha hb hv homit hopen
    | listSets => exact agree_ofExcept _
    | getRecord => exact agree_getRecord ha hb hv homit hopen
    | listIdentifiers => exact agree_list ha hb homit hopen _
    | listRecords => exact agree_list ha hb homit hopen _

theorem agree_response (hq : q.verb ≠ some "Identify") (now : Instant) : Agree (· = a) (· = b)
    (p.response Store.source q now) (p.response Store.source q now) := by
  unfold response
  refine (agree_dispatch ha hb hv homit hopen hq).attempt.bind fun x => ?_
  cases x with
  | ok body => exact agree_pure _
  | error f =>
    cases hcode : f.code? with
    | some code =>
      simp only [hcode]
      exact Agree.tell_bind (agree_pure _)
    | none =>
      simp only [hcode]
      exact Agree.tell_bind (agree_fail f)

end Agree

/-- **If hidden records are left out, stores with the same open records give the same responses**,
to every request but `Identify`. -/
theorem respond_eq_of_open {σ : Type} {settings : Settings} {mappers : MapperRegistry}
    {explain : Explanation} {p : Provider} {s : σ}
    (hp : ((make settings mappers explain).run s).result = .ok p)
    (homit : settings.hiddenPolicy = .omit) {a b : Store} (ha : a.Reachable) (hb : b.Reachable)
    (hopen : ∀ uri, a.open? settings uri = b.open? settings uri) {q : Request}
    (hq : q.verb ≠ some "Identify") (now : Instant) :
    ((p.respond Store.source q now).run a).result =
      ((p.respond Store.source q now).run b).result := by
  obtain ⟨hv, rfl⟩ := of_make hp
  have hagree := agree_response ha.wellFormed hb.wellFormed hv homit hopen hq now a b rfl rfl
  rw [result_respond, result_respond, hagree.1]

/-- The small archive without its drawer and without what other repositories hold. -/
def bareArchive : Store := Store.empty.writes
  [.upsert Store.sampleCollection, .upsert Store.sampleLetter]

/-- A request for all records. -/
def allRecords : Request where
  verb := some "ListRecords"
  metadataPrefix := some "oai_dc"

/-- Nobody can see that the drawer is missing. -/
theorem respond_bareArchive :
    ((sample.respond Store.source allRecords (Store.sampleTime 60)).run Store.sample).result =
      ((sample.respond Store.source allRecords (Store.sampleTime 60)).run bareArchive).result := by
  have hbare : bareArchive.Reachable := ⟨_, rfl⟩
  have hmake : ((make sampleSettings sampleMappers plainWords).run ()).result = .ok sample := by
    unfold make
    rw [validate_sampleSettings]
    rfl
  have hrecords : Store.sample.records.filter sampleSettings.isOpen =
      bareArchive.records.filter sampleSettings.isOpen := rfl
  refine respond_eq_of_open hmake rfl Store.sample_reachable hbare (fun uri => ?_) (by decide) _
  apply Option.ext
  intro x
  rw [Store.open?_eq_some_iff Store.sample_reachable.wellFormed,
    Store.open?_eq_some_iff hbare.wellFormed, hrecords]

end Harvest.Provider
