import Harvest.Proofs.Listing.Complete
import Harvest.Proofs.Provider.Disclosure
import Harvest.Proofs.Provider.Make

/-!
# Redeeming tokens

A page that leaves records behind comes with a token.  Whoever sends the token's text back gets the
next page, as long as the text can be read: a text of more than 4096 bytes is refused
(`Provider.redeem`).  The page is not empty, unless the token is read back further behind because
its times are not aligned.  Nothing keeps a long text from being issued, since it repeats the name
of the set, and settings put no limit on that.  So a harvest of a set with a very long name ends
with its first page (`Provider.not_redeemed_longName`).
-/

namespace Harvest

namespace Repository

variable {r : Repository} {s : Store} {p : Plan} {q : ListRequest} {e : Entry}

theorem supports_of_planned (hformats : r.formats.IsStandard) (h : r.planned q = .ok p)
    (hbounds : AlignedBounds p.since p.upTo) : r.Supports p := by
  have hsupports : ∀ m o set rule since upTo start, r.formats.options? m = some o →
      r.resolveSet set = .ok rule → (∀ s u, since = some s → upTo = some u → s ≤ u) →
        AlignedBounds since upTo → r.Supports ⟨m, set, rule, since, upTo, o, start⟩ :=
    fun m o set rule since upTo start ho hrule hwindow hbounds =>
      ⟨(hformats.size_le ho).1, ho, (hformats m o ho).2, hrule, hwindow, hbounds⟩
  cases hq : q.token with
  | none =>
    obtain ⟨hfresh, hwindow⟩ := (planned_fresh_eq_ok_iff hq).1 h
    obtain ⟨m, o, rule, -, ho, hrule, rfl⟩ := planFresh_eq_ok_iff.1 hfresh
    exact hsupports _ _ _ _ _ _ _ ho hrule hwindow hbounds
  | some raw =>
    obtain ⟨t, -, hresumed, hwindow⟩ := (planned_resumed_eq_ok_iff hq).1 h
    obtain ⟨-, o, rule, ho, -, hrule, rfl⟩ := planResumed_eq_ok_iff.1 hresumed
    exact hsupports _ _ _ _ _ _ _ ho hrule hwindow hbounds

/-- A token that can be read is answered with what its page left behind, or with the end of it. -/
theorem answer_resume (hs : s.WellFormed) (h : r.Supports p) (hp : p.InRange) {n : Nat}
    (he : ((r.due s.records p).take n).getLast? = some e)
    (hfit : (r.codec.serialize (p.tokenAt e)).utf8ByteSize ≤ Codec.maxLength) :
    r.answer s (.resume (r.codec.serialize (p.tokenAt e))) =
        .ok (r.pageOver s.records (p.after e)) ∧
      (e.2.modified.IsAligned →
        r.due s.records (p.after e) = (r.due s.records p).drop n) := by
  obtain ⟨hmem, -⟩ := mem_whole_of_last hp he
  have hplan := planned_resume h hmem hfit
  exact ⟨answer_of_planned hs hplan, due_after_of_isAligned (Store.shelved_records hs) hp
    (inRange_of_planned hplan) he (h.index_le hmem)⟩

theorem answer_resume_of_long (hs : s.WellFormed) {t : ResumptionToken}
    (hlong : Codec.maxLength < (r.codec.serialize t).utf8ByteSize) :
    r.answer s (.resume (r.codec.serialize t)) = .error .tokenLength := by
  have hread : r.codec.deserialize (r.codec.serialize t) = .error .tokenLength := by
    rw [Codec.deserialize_wire, if_pos hlong]
  have hplanned : r.planned (.resume (r.codec.serialize t)) = .error .tokenLength := by
    simp only [planned, ListRequest.resume, hread, error_bind]
  rw [answer_eq hs, hplanned]
  rfl

/-- A page with an aligned token leaves records for the next one. -/
theorem exists_next (hs : s.WellFormed) (h : r.Supports p) (hp : p.InRange) {t : ResumptionToken}
    (ht : (r.pageOver s.records p).next = some t)
    (hfit : (r.codec.serialize t).utf8ByteSize ≤ Codec.maxLength) :
    ∃ page, r.answer s (.resume (r.codec.serialize t)) = .ok page ∧
      (t.IsAligned → page.records ≠ []) := by
  obtain ⟨hnone, -⟩ | ⟨e, hlast, hnext, hlt⟩ := pageOver_cases r s.records h.pageSize_pos
  · rw [hnone] at ht
    cases ht
  · obtain rfl : p.tokenAt e = t := Option.some.inj (hnext.symm.trans ht)
    obtain ⟨hanswer, hleft⟩ := answer_resume hs h hp hlast hfit
    refine ⟨_, hanswer, fun haligned => ?_⟩
    have hsize := h.pageSize_pos
    rw [← List.length_pos_iff, pageOver, List.length_map, List.length_take, hleft haligned.2,
      List.length_drop]
    exact Nat.lt_min.2 ⟨hsize, Nat.sub_pos_of_lt hlt⟩

end Repository

namespace Provider

variable {σ : Type} {settings : Settings} {mappers : MapperRegistry} {p : Provider} {s₀ : σ}
  {explain : Explanation} {s : Store} {q : ListRequest} {page : Page} {t : ResumptionToken}

/-- The text of a token is short if the name of its set is. -/
theorem serialize_le_of_set (hmake : ((make settings mappers explain).run s₀).result = .ok p)
    (hs : s.WellFormed) (hpage : p.repository.answer s q = .ok page) (ht : page.next = some t)
    (hset : Codec.optionSize t.set ≤ 256) :
    (p.repository.codec.serialize t).utf8ByteSize ≤ Codec.maxLength := by
  obtain ⟨plan, hplan, hname, -⟩ := Repository.names_of_answer hs hpage ht
  obtain ⟨-, hsize⟩ := (isStandard_of_make hmake).size_le (Repository.options_of_planned hplan)
  have hwire := Codec.utf8ByteSize_serialize_le p.repository.codec t
  rw [hname] at hwire
  rw [Codec.maxLength]
  omega

/-- **An issued token is good for a further page, unless its text is too long to be read**, if the
bounds of its window are aligned.  The page is not empty if the token's position is aligned as well.
The text of a token is short whenever the name of the set is. -/
theorem redeem (hmake : ((make settings mappers explain).run s₀).result = .ok p) (hs : s.Reachable)
    (hpage : ((p.repository.find Store.source q).run s).result = .ok page)
    (ht : page.next = some t) :
    ((p.repository.codec.serialize t).utf8ByteSize ≤ Codec.maxLength →
      AlignedBounds t.since t.upTo →
      ∃ page', ((p.repository.find Store.source
          (.resume (p.repository.codec.serialize t))).run s).result = .ok page' ∧
        (t.IsAligned → page'.records ≠ [])) ∧
    (Codec.maxLength < (p.repository.codec.serialize t).utf8ByteSize →
      ((p.repository.find Store.source
        (.resume (p.repository.codec.serialize t))).run s).result = .error .tokenLength) ∧
    (Codec.optionSize t.set ≤ 256 →
      (p.repository.codec.serialize t).utf8ByteSize ≤ Codec.maxLength) := by
  have hwell := hs.wellFormed
  refine ⟨fun hfit hbounds => ?_, Repository.answer_resume_of_long hwell,
    serialize_le_of_set hmake hwell hpage ht⟩
  have hanswer : p.repository.answer s q = .ok page := hpage
  rw [Repository.answer_eq hwell] at hanswer
  obtain ⟨plan, hplan, rfl⟩ := map_eq_ok_iff.1 hanswer
  have hwindow : t.since = plan.since ∧ t.upTo = plan.upTo := by
    unfold Repository.pageOver at ht
    simp only at ht
    split_ifs at ht
    obtain ⟨e, -, rfl⟩ := Option.map_eq_some_iff.1 ht
    exact ⟨rfl, rfl⟩
  rw [hwindow.1, hwindow.2] at hbounds
  exact Repository.exists_next hwell
    (Repository.supports_of_planned (isStandard_of_make hmake) hplan hbounds)
    (Repository.inRange_of_planned hplan) ht hfit

/-! ### A set under any name -/

/-- Settings with one set, of the records of a repository, and pages of one record. -/
def namedSettings (name : String) : Settings where
  tokenSecret := "secret"
  sets := OrderedMap.empty.insert name { repositoryCodes := ["HOU"] }
  formats := OrderedMap.empty.insert "oai_dc"
    { recordTypes := [.resource, .archivalObject], pageSize := 1 }

/-- The provider with these settings. -/
def named (name : String) : Provider where
  settings := namedSettings name
  formats := (FormatRegistry.standard.resize "oai_dc" 1).retain sampleMappers.contains
  mappers := sampleMappers
  explain := plainWords

/-- The plan of a listing of the set. -/
def namedPlan (name : String) : Plan where
  metadataPrefix := "oai_dc"
  set := some name
  rule := some (.repositoryCode ["HOU"])
  since := none
  upTo := none
  options := { recordTypes := [.resource, .archivalObject], pageSize := 1 }
  start := none

theorem make_named (name : String) :
    ((make (namedSettings name) sampleMappers plainWords).run s₀).result = .ok (named name) := by
  have hnamespace : "archivesspace" ≠ "" ∧ '/' ∉ "archivesspace".toList := by decide
  refine make_eq_ok_iff.2
    ⟨Settings.validate_eq_ok_iff.2 ⟨hnamespace, ?_, rfl, _, rfl⟩, _, rfl, rfl⟩
  intro e he
  cases List.mem_singleton.1 he
  rfl

theorem planned_named (name : String) :
    (named name).repository.planned (namedPlan name).request = .ok (namedPlan name) := by
  have hname : (namedSettings name).sets.find? name = some { repositoryCodes := ["HOU"] } :=
    if_pos rfl
  have hnamed : "oai_dc" ≠ "" := by decide
  refine Repository.planned_request (p := namedPlan name)
    ⟨hnamed, rfl, rfl, ?_, by rintro s u ⟨⟩, alignedBounds_none⟩
  change ((named name).settings.setDirectory.resolve name).map some = _
  have hfind : (named name).settings.setDirectory.named.find? name = _ := hname
  rw [SetDirectory.resolve, hfind]
  rfl

theorem exists_page_named (name : String) : ∃ page t,
    ((((named name).repository.find Store.source (namedPlan name).request).run
      Store.sample).result = .ok page) ∧ page.next = some t ∧ t.set = some name ∧
    t.IsAligned := by
  have hanswer := Repository.answer_of_planned Store.sample_reachable.wellFormed
    (planned_named name)
  -- no repository is restricted to some sets, so the name makes no difference
  have hdue : (named name).repository.due Store.sample.records (namedPlan name) =
      (named "").repository.due Store.sample.records (namedPlan "") := rfl
  have hmore : 1 < ((named "").repository.due Store.sample.records (namedPlan "")).length := by
    decide +kernel
  obtain ⟨-, hrecords⟩ | ⟨e, -, hnext, -⟩ := Repository.pageOver_cases (p := namedPlan name)
    (named name).repository Store.sample.records Nat.one_pos
  · have hlength := congrArg List.length hrecords
    have hsize : (namedPlan name).options.pageSize = 1 := rfl
    rw [Repository.pageOver, List.length_map, List.length_map, List.length_take, hdue, hsize]
      at hlength
    omega
  · exact ⟨_, _, hanswer, hnext, rfl, Repository.isAligned_of_answer
      Store.sample_reachable.wellFormed (by decide +kernel) alignedBounds_none hanswer hnext⟩

/-- Under a short name the token is good for the next page. -/
theorem redeem_houston : ∃ page t page',
    (((named "houston").repository.find Store.source (namedPlan "houston").request).run
      Store.sample).result = .ok page ∧ page.next = some t ∧
    (((named "houston").repository.find Store.source
      (.resume ((named "houston").repository.codec.serialize t))).run Store.sample).result =
        .ok page' ∧ page'.records ≠ [] := by
  obtain ⟨page, t, hpage, hnext, hset, haligned⟩ := exists_page_named "houston"
  have hmake : ((make (namedSettings "houston") sampleMappers plainWords).run ()).result =
      .ok (named "houston") := make_named "houston"
  obtain ⟨hredeemed, -, hshort⟩ := redeem hmake Store.sample_reachable hpage hnext
  have hfit := hshort (by rw [hset]; decide)
  obtain ⟨page', hpage', hne⟩ := hredeemed hfit haligned.1
  exact ⟨page, t, page', hpage, hnext, hpage', hne haligned⟩

/-- A name of some length. -/
def nameOfLength (n : Nat) : String := String.ofList (List.replicate n 'x')

theorem utf8ByteSize_nameOfLength (n : Nat) : (nameOfLength n).utf8ByteSize = n := by
  have hone : ∀ c ∈ List.replicate n 'x', c.utf8Size = 1 := by
    intro c hc
    rw [List.eq_of_mem_replicate hc]
    rfl
  rw [nameOfLength, String.utf8ByteSize_ofList, utf8Len_eq_length hone, List.length_replicate]

/-- A name that is too long for a token. -/
def longName : String := nameOfLength 4097

/-- Under a long name the first page comes with a token that is refused. -/
theorem not_redeemed_longName :
    ((make (namedSettings longName) sampleMappers plainWords).run ()).result =
      .ok (named longName) ∧
    Store.sample.Reachable ∧ ∃ page t,
      (((named longName).repository.find Store.source (namedPlan longName).request).run
        Store.sample).result = .ok page ∧ page.next = some t ∧
      (((named longName).repository.find Store.source
        (.resume ((named longName).repository.codec.serialize t))).run Store.sample).result =
          .error .tokenLength := by
  obtain ⟨page, t, hpage, hnext, hset, -⟩ := exists_page_named longName
  refine ⟨make_named longName, Store.sample_reachable, page, t, hpage, hnext, ?_⟩
  refine Repository.answer_resume_of_long (r := (named longName).repository)
    Store.sample_reachable.wellFormed ?_
  have hwire := Codec.optionSize_le_serialize (named longName).repository.codec t
  rw [hset, Codec.optionSize, Option.map_some, Option.getD_some, longName,
    utf8ByteSize_nameOfLength] at hwire
  exact hwire

end Provider

end Harvest
