import Harvest.Proofs.Listing.Origins
import Harvest.Proofs.Listing.Visits
import Harvest.Proofs.Markup.Characters

/-!
# The characters of pages

Numbers, times and tokens have legal characters only.  So the repository adds no illegal character
to what it is given: if a source gives records with legal URIs (`Source.Legal`), the records of its
pages have legal URIs as well, and the details of its faults are spelled in any alphabet in which
the request is (`Repository.ensures_find_shown`, `Repository.ensures_fetch_shown`).  The request
includes what is in its token, and what is said about the payload of one that cannot be read.

Details matter only if harvesters are told of them, that is, those of faults of the protocol
(`Tells`).
-/

namespace Harvest

open Engine
open Xml (IsChar Alphabet)
open Xml.Alphabet

/-! ### Numbers, times and tokens -/

theorem legal_toString (n : Nat) : legal.Spells (toString n) := by
  intro c hc
  rw [Nat.toString_eq_repr, Nat.toList_repr] at hc
  exact Xml.isChar_of_isDigit (Nat.isDigit_of_mem_toDigits (by decide) (by decide) hc)

theorem Base64.Flaw.legal_message (flaw : Base64.Flaw) : legal.Spells flaw.message := by
  have hnumbers : ∀ {before between after : String} (m n : Nat), legal.Spells before →
      legal.Spells between → legal.Spells after →
        legal.Spells (before ++ toString m ++ between ++ toString n ++ after) :=
    fun m n hbefore hbetween hafter => spells_append_iff.2 ⟨spells_append_iff.2
      ⟨spells_between hbefore hbetween (legal_toString m), legal_toString n⟩, hafter⟩
  cases flaw with
  | symbol b n => exact hnumbers b.toNat n (by decide) (by decide) (by decide)
  | length n => exact spells_append_iff.2 ⟨by decide, legal_toString n⟩
  | lastSymbol b n => exact hnumbers b.toNat n (by decide) (by decide) (by decide)
  | padding => decide

namespace Instant

theorem legal_padded (width n : Nat) : legal.Covers (padded width n) := fun _ hc =>
  Xml.isChar_of_isDigit (isDigit_of_mem_padded hc)

theorem legal_datestamp (t : Instant) : legal.Spells t.datestamp := by
  have hfixed : legal.Has '-' ∧ legal.Has '+' ∧ legal.Has 'T' ∧ legal.Has ':' ∧ legal.Has 'Z' := by
    decide
  have hyear : legal.Covers (yearChars t.date.year) := by
    unfold yearChars
    split_ifs <;> simp [hfixed, legal_padded]
  rw [datestamp, spells_ofList_iff, baseChars]
  simp [hfixed, hyear, legal_padded]

end Instant

theorem RecordType.legal_name (t : RecordType) : legal.Spells t.name := by cases t <;> decide

namespace Codec

variable {A : Alphabet} {c : Codec} {raw encoded : String} {f : Fault}

theorem isChar_of_isUrlSafe {ch : Char} (h : IsUrlSafe ch) : IsChar ch := by
  obtain h | rfl | rfl := h
  · exact Xml.isChar_of_isAlphanum h
  · decide
  · decide

/-- **Tokens have legal texts**, whatever they stand for. -/
theorem legal_serialize (c : Codec) (t : ResumptionToken) : legal.Spells (c.serialize t) := by
  have hpayload : legal.Spells
      (String.ofList (Base64.encode (bytesOf (payload t).render))) :=
    spells_ofList_iff.2 fun _ hch => isChar_of_isUrlSafe (isUrlSafe_of_mem_encode _ hch)
  have hchecksum : ∀ encoded, legal.Spells (c.checksum encoded) := fun encoded _ hch =>
    isChar_of_isUrlSafe (isUrlSafe_of_mem_checksumWith _ c encoded _ hch)
  unfold serialize
  simp only [spells_append_iff]
  exact ⟨⟨⟨⟨by decide, by decide⟩, hpayload⟩, by decide⟩, hchecksum _⟩

theorem legal_of_unwrapWith {digest : List UInt8 → Sha256.Words}
    (h : c.unwrapWith digest raw = .error f) : legal.Spells f.detail := by
  unfold unwrapWith at h
  split at h
  · cases h
    decide
  · split at h
    · split_ifs at h <;> cases h <;> decide
    · cases h
      decide

theorem spells_of_decodePayload (h : c.decodePayload encoded = .error f)
    (hreason : ∀ reason, f = .tokenPayload reason → A.Spells reason) : A.Spells f.detail := by
  unfold decodePayload at h
  split at h
  · cases h
    exact spells_of_legal (spells_append_iff.2 ⟨by decide, Base64.Flaw.legal_message _⟩)
  · split at h
    · cases h
      exact spells_append_iff.2 ⟨spells_of_legal (by decide), hreason _ rfl⟩
    · split_ifs at h
      cases h
      exact spells_of_legal (by decide)

/-- The fault of a token does not repeat it, but explains its payload. -/
theorem tells_deserialize (hreason : ∀ reason,
    c.deserialize raw = .error (.tokenPayload reason) → A.Spells reason) :
    Tells A.Spells (fun t => c.deserialize raw = .ok t) (c.deserialize raw) := by
  cases h : c.deserialize raw with
  | ok t => exact rfl
  | error f =>
    obtain hunwrap | ⟨e, -, hdecode⟩ := bind_eq_error_iff.1 h
    · exact fun _ => spells_of_legal (legal_of_unwrapWith hunwrap)
    · refine fun _ => spells_of_decodePayload hdecode ?_
      rintro reason rfl
      exact hreason reason h

end Codec

/-! ### What a source gives -/

/-- From states with `I` on, a source gives nothing but records of a kind, which have legal URIs,
and the faults of the protocol that it raises are legal. -/
structure Source.Legal {σ : Type} (src : Source σ) (I : σ → Prop) (Stored : Record → Prop) :
    Prop where
  uri : ∀ x, Stored x → legal.Spells x.uri
  scan : ∀ q s, I s → Tells legal.Spells (fun batch => ∀ x ∈ batch, Stored x) (src.scan q s).1 ∧
    I (src.scan q s).2
  get : ∀ uri s, I s →
    Tells legal.Spells (fun found => ∀ x, found = some x → Stored x) (src.get uri s).1 ∧
      I (src.get uri s).2
  earliest : ∀ s, I s → Tells legal.Spells (fun _ => True) (src.earliest s).1 ∧
    I (src.earliest s).2

theorem Record.legal_uriOf (repository : UInt32) (t : RecordType) (id : UInt64) :
    legal.Spells (uriOf repository t id) := by
  have hsegment : legal.Spells t.segment := by cases t <;> decide
  unfold uriOf
  refine spells_append_iff.2 ⟨spells_append_iff.2 ⟨?_, by decide⟩, legal_toString id.toNat⟩
  have hrepository := legal_toString repository.toNat
  exact spells_append_iff.2 ⟨spells_between (by decide) (by decide) hrepository, hsegment⟩

/-- A record as it is shown.  It is one that the source has, or the mark of a deleted one. -/
structure Record.Shown (Stored : Record → Prop) (x : Record) : Prop where
  uri : legal.Spells x.uri
  stored : x.deleted = false → Stored x

namespace Record

variable {Stored : Record → Prop} {x y : Record} (huri : ∀ x, Stored x → legal.Spells x.uri)

include huri

theorem shown_of_stored (hx : Stored x) : x.Shown Stored := ⟨huri x hx, fun _ => hx⟩

theorem shown_tombstone (hx : Stored x) : x.tombstone.Shown Stored := ⟨huri x hx, nofun⟩

theorem shown_of_listed? {p : Pass} (hx : Stored x) (h : p.listed? x = some y) :
    y.Shown Stored := by
  unfold Pass.listed? at h
  split_ifs at h
  · cases h
    exact shown_of_stored huri hx
  · split at h
    · cases h
      exact shown_of_stored huri hx
    · cases h
    · cases h
      exact shown_tombstone huri hx

end Record

/-! ### Pages -/

/-- What a listing is asked for is spelled in an alphabet. -/
structure ListRequest.SpelledIn (A : Alphabet) (r : Repository) (q : ListRequest) : Prop where
  format : ∀ m, q.metadataPrefix = some m → A.Spells m
  set : ∀ name, q.set = some name → A.Spells name
  token : ∀ raw t, q.token = some raw → r.codec.deserialize raw = .ok t →
    A.Spells t.metadataPrefix ∧ ∀ name, t.set = some name → A.Spells name
  payload : ∀ raw reason, q.token = some raw →
    r.codec.deserialize raw = .error (.tokenPayload reason) → A.Spells reason

namespace Repository

variable {σ : Type} {src : Source σ} {I : σ → Prop} {Stored : Record → Prop} {A : Alphabet}
  {r : Repository} {q : ListRequest} {m uri : String} {set : Option String}

theorem tells_optionsFor (hm : A.Spells m) :
    Tells A.Spells (fun _ => True) (r.formats.optionsFor m) := by
  unfold FormatRegistry.optionsFor
  split
  · trivial
  · exact fun _ => spells_between (by decide) (by decide) hm

theorem tells_resolveSet (hset : ∀ name, set = some name → A.Spells name) :
    Tells A.Spells (fun _ => True) (r.resolveSet set) := by
  cases set with
  | none => trivial
  | some name =>
    refine Tells.map (R := fun _ => True) ?_ fun _ _ => trivial
    unfold SetDirectory.resolve
    split
    · trivial
    · split_ifs
      · trivial
      · exact fun _ => spells_between (by decide) (by decide) (hset name rfl)

theorem tells_checkWindow {p : Plan} (hp : A.Spells p.metadataPrefix) :
    Tells A.Spells (fun p => A.Spells p.metadataPrefix) (checkWindow p) := by
  unfold checkWindow
  split
  · split_ifs
    · exact fun _ => spells_of_legal (by decide)
    · exact hp
  · exact hp

theorem tells_planFresh (hq : q.SpelledIn A r) :
    Tells A.Spells (fun p => A.Spells p.metadataPrefix) (r.planFresh q) := by
  unfold planFresh
  cases hm : q.metadataPrefix with
  | none => exact fun _ => spells_of_legal (by decide)
  | some m =>
    refine (tells_optionsFor (hq.format m hm)).bind fun options _ => ?_
    exact (tells_resolveSet hq.set).bind fun rule _ => hq.format m hm

theorem tells_planResumed {t : ResumptionToken} (hformat : A.Spells t.metadataPrefix)
    (hset : ∀ name, t.set = some name → A.Spells name) :
    Tells A.Spells (fun p => A.Spells p.metadataPrefix) (r.planResumed q t) := by
  unfold planResumed
  split_ifs
  · exact fun _ => spells_of_legal (by decide)
  · cases r.formats.options? t.metadataPrefix with
    | none => exact fun _ => spells_between (by decide) (by decide) hformat
    | some options =>
      simp only
      split_ifs
      · exact fun _ => spells_of_legal (by decide)
      · exact (tells_resolveSet hset).bind fun rule _ => hformat

theorem tells_planned (hq : q.SpelledIn A r) :
    Tells A.Spells (fun p => A.Spells p.metadataPrefix) (r.planned q) := by
  unfold planned
  cases htoken : q.token with
  | none => exact (tells_planFresh hq).bind fun _ => tells_checkWindow
  | some raw =>
    refine (Codec.tells_deserialize fun reason => hq.payload raw reason htoken).bind
      fun t ht => ?_
    obtain ⟨hformat, hset⟩ := hq.token raw t htoken ht
    exact (tells_planResumed hformat hset).bind fun _ => tells_checkWindow

theorem tells_of_scans (hsrc : src.Legal I Stored) {s : σ} (hs : I s) {e : Exchange}
    (he : e ∈ r.scans src q s) :
    Tells legal.Spells (fun batch => ∀ x ∈ batch, Stored x) e.answer :=
  r.answers_of_scans (A := fun _ => Tells legal.Spells fun batch => ∀ x ∈ batch, Stored x)
    hsrc.scan hs e he

theorem shown_of_mem_listed {pass : Pass} (hsrc : src.Legal I Stored) {s : σ} (hs : I s)
    {e : Exchange} (he : e ∈ r.scans src q s) {x : Record} (hx : x ∈ e.listed pass) :
    x.Shown Stored := by
  have hanswer := tells_of_scans hsrc hs he
  unfold Exchange.listed at hx
  split at hx
  · rename_i batch hbatch
    rw [hbatch] at hanswer
    obtain ⟨y, hy, hshown⟩ := List.mem_filterMap.1 hx
    exact Record.shown_of_listed? hsrc.uri (hanswer y hy) hshown
  · cases hx

/-- **A page shows what the source gives, and its fault is told in the words of the request.** -/
theorem ensures_find_shown (hsrc : src.Legal I Stored) (hq : q.SpelledIn A r) :
    Ensures I (r.find src q) (Tells A.Spells fun page => (∀ x ∈ page.records, x.Shown Stored) ∧
      ∀ t, page.next = some t → A.Spells t.metadataPrefix) := by
  intro s hs
  refine ⟨?_, (ensures_find_kept (fun q s hs => (hsrc.scan q s hs).2) r q s hs).2⟩
  have hplanned := tells_planned hq
  cases hresult : ((r.find src q).run s).result with
  | error f =>
    obtain hf | ⟨e, he, hrefuses | ⟨batch, -, -, x, -, rfl⟩⟩ := find_eq_error hresult
    · rwa [hf] at hplanned
    · have hanswer := tells_of_scans hsrc hs he
      rw [hrefuses] at hanswer
      exact fun hown => spells_of_legal (hanswer hown)
    · exact nofun
  | ok page =>
    obtain ⟨f, -, -, hf⟩ | ⟨p, w, hp, hrun, hpage⟩ := run_of_find hresult
    · cases hf
    · obtain ⟨walk, rfl, rfl⟩ := map_eq_ok_iff.1 hpage.symm
      rw [hp] at hplanned
      refine ⟨fun x hx => ?_, fun t ht => metadataPrefix_of_next ht ▸ hplanned⟩
      have hrecords := hrun.records_eq (Nat.succ_pos _) rfl
      rw [page_eq_take, List.map_take, hrecords] at hx
      obtain ⟨e, he, hx⟩ := List.mem_flatMap.1 (List.mem_of_mem_take (List.mem_of_mem_take hx))
      exact shown_of_mem_listed hsrc hs he hx

/-! ### Lookups -/

theorem ensures_locate_shown (hsrc : src.Legal I Stored) (huri : A.Spells uri) :
    Ensures I (r.locate src uri) (Tells A.Spells fun x => x.Shown Stored) := by
  have hnone : ∀ {α : Type} {R : α → Prop},
      Ensures I (fail (.noRecord uri)) (Tells A.Spells R) :=
    ensures_fail fun _ => spells_between (by decide) (by decide) huri
  have hask : Ensures I (ask (src.get uri))
      (Tells A.Spells fun found => ∀ x, found = some x → Stored x) := fun s hs =>
    ⟨(hsrc.get uri s hs).1.imp (fun _ => spells_of_legal) fun _ h => h, (hsrc.get uri s hs).2⟩
  unfold locate
  refine hask.tells_bind fun found hfound => ?_
  cases found with
  | none => exact hnone
  | some x =>
    have hx : Stored x := hfound x rfl
    simp only
    split_ifs
    · exact Ensures.tell_bind hnone
    · exact ensures_pure (Record.shown_of_stored hsrc.uri hx)
    · split
      · exact ensures_pure (Record.shown_of_stored hsrc.uri hx)
      · refine Ensures.tell_bind ?_
        split
        · exact hnone
        · exact ensures_pure (Record.shown_tombstone hsrc.uri hx)

theorem ensures_fetch_shown (hsrc : src.Legal I Stored) (huri : A.Spells uri) (hm : A.Spells m) :
    Ensures I (r.fetch src uri m) (Tells A.Spells fun x => x.Shown Stored) := by
  unfold fetch
  refine (ensures_ofExcept (tells_optionsFor hm)).tells_bind fun options _ => ?_
  refine (ensures_locate_shown hsrc huri).tells_bind fun x hx => ?_
  split_ifs
  · exact ensures_pure hx
  · exact ensures_fail fun _ => spells_append_iff.2 ⟨spells_append_iff.2
      ⟨spells_of_legal x.recordType.legal_name, spells_of_legal (by decide)⟩, hm⟩

end Repository

end Harvest
