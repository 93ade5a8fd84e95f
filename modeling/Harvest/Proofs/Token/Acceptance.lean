import Harvest.Proofs.Json.Size
import Harvest.Proofs.Token.Payload
import Harvest.Proofs.Token.RoundTrip
import Mathlib.Data.List.Perm.Subperm

/-!
# Which texts are accepted as tokens

Reading a token fails closed, whatever digest and secret its checksum is made with: a text gives a
token or the fault of a bad token, and it gives a token just if it is not too long and consists of
the version, the base64 text of a payload, and the checksum of that text
(`Codec.deserializeWith_fails_closed`).

No token has a second text.  Every part of a text is determined by its payload part, and that is
the only base64 text of its bytes, so that two accepted texts have different payloads.  Whoever
keeps the payload part and changes anything around it has a text that is refused, unless what is
put next to it becomes part of the payload.  The payload part cannot hide in a checksum either, for
it is longer than one (`Codec.checksumLength_lt_length`).

What this does not say: that nobody can make a text with a valid checksum for a payload of his own.
That is up to the digest and the secret.
-/

namespace Harvest.Codec

open Json

variable {digest : List UInt8 → Sha256.Words} {c : Codec} {raw encoded : String}
  {t : ResumptionToken} {f : Fault} {bytes : List UInt8}

/-! ### Faults -/

theorem kind_of_unwrapWith (h : c.unwrapWith digest raw = .error f) :
    f.kind = .badResumptionToken := by
  unfold unwrapWith at h
  split_ifs at h
  · cases h
    rfl
  · split at h
    · split_ifs at h <;> cases h <;> rfl
    · cases h
      rfl

theorem kind_of_decodePayload (h : c.decodePayload encoded = .error f) :
    f.kind = .badResumptionToken := by
  unfold decodePayload at h
  split at h
  · cases h
    rfl
  · split at h
    · cases h
      rfl
    · split_ifs at h
      cases h
      rfl

theorem kind_of_deserializeWith (h : c.deserializeWith digest raw = .error f) :
    f.kind = .badResumptionToken := by
  cases hunwrap : c.unwrapWith digest raw with
  | error g =>
    rw [deserializeWith, hunwrap] at h
    cases h
    exact kind_of_unwrapWith hunwrap
  | ok encoded =>
    rw [deserialize_of_unwrap hunwrap] at h
    exact kind_of_decodePayload h

/-! ### Payloads -/

/-- A tree that spells a token has brackets, and seven values or four keys with a value. -/
theorem width_of_spells {r : Raw} (h : Spells t r) : 15 ≤ r.width := by
  cases h with
  | list p s f u n m i => simp [Raw.width]
  | object given hnodup hknown hp hs hf hu ht hm hi =>
    have hnames : ["p", "t", "m", "i"] ⊆ given.map Prod.fst := by
      obtain ⟨p, hp, -⟩ := hp
      obtain ⟨n, ht, -⟩ := ht
      obtain ⟨m, hm, -⟩ := hm
      obtain ⟨i, hi, -⟩ := hi
      simp only [List.cons_subset, List.nil_subset, and_true]
      exact ⟨List.mem_map_of_mem hp, List.mem_map_of_mem ht, List.mem_map_of_mem hm,
        List.mem_map_of_mem hi⟩
    have hlength := (List.subperm_of_subset (by decide) hnames).length_le
    rw [List.length_map] at hlength
    rw [Raw.width, List.length_map]
    simp only [List.length_cons, List.length_nil] at hlength
    omega

theorem length_of_isPayload (h : IsPayload t bytes) : 15 ≤ bytes.length := by
  obtain ⟨text, r, htext, hr, hspells, -⟩ := h
  have hwidth := width_of_spells hspells
  have htree := width_ofText?_le hr
  have hbytes : text.toList.length ≤ bytes.length := by
    rw [← bytesOf_of_textOf? htext, length_bytesOf, ← String.ofList_toList (s := text),
      String.utf8ByteSize_ofList, String.toList_ofList]
    exact length_le_utf8Len _
  omega

theorem checksumLength_lt_length (h : c.decodePayload encoded = .ok t) :
    checksumLength < encoded.toList.length := by
  obtain ⟨bytes, hbytes, hpayload⟩ := decodePayload_eq_ok_iff.1 h
  have hlength := length_of_isPayload hpayload
  have hencode := (Base64.length_encode_bounds bytes).1
  rw [Base64.decode_eq_ok_iff.1 hbytes, String.toList_ofList, checksumLength]
  omega

/-! ### Texts -/

theorem length_checksumWith (digest : List UInt8 → Sha256.Words) (c : Codec) (encoded : String) :
    (c.checksumWith digest encoded).toList.length = checksumLength := by
  rw [checksumWith, String.toList_ofList, List.length_append, hexWord, hexWord, length_hexDigits,
    length_hexDigits]
  rfl

theorem mem_digits_of_mem_checksumWith : ∀ ch ∈ (c.checksumWith digest encoded).toList,
    ch ∈ "0123456789abcdef".toList := by
  have hall : ∀ m < 16, hexChar m ∈ "0123456789abcdef".toList := by decide
  intro ch hch
  obtain ⟨m, hm, rfl⟩ := exists_of_mem_checksumWith hch
  exact hall m hm

theorem deserializeWith_eq_ok_iff : c.deserializeWith digest raw = .ok t ↔
    ∃ encoded, c.unwrapWith digest raw = .ok encoded ∧ c.decodePayload encoded = .ok t :=
  bind_eq_ok_iff

theorem exists_append_of_dot {cs rest ds rest' : List Char} (hcs : '.' ∉ cs)
    (h : cs ++ rest = ds ++ '.' :: rest') : ∃ b, ds = cs ++ b ∧ rest = b ++ '.' :: rest' := by
  rcases List.append_eq_append_iff.1 h with ⟨b, hds, hrest⟩ | ⟨b, rfl, hb⟩
  · exact ⟨b, hds, hrest⟩
  · -- the dot is not behind the front of the characters
    cases b with
    | nil => exact ⟨[], by simp, hb.symm⟩
    | cons d b =>
      obtain ⟨rfl, -⟩ := List.cons.inj hb
      exact absurd (by simp) hcs

/-- Characters without a dot that are too long for the first and the third part are in the second
one. -/
theorem exists_append_of_parts {xs es ys v m s : List Char} (hes : '.' ∉ es)
    (hv : v.length < es.length) (hs : s.length < es.length)
    (h : xs ++ (es ++ ys) = v ++ '.' :: (m ++ '.' :: s)) :
    ∃ a b, xs = v ++ '.' :: a ∧ m = a ++ (es ++ b) ∧ ys = b ++ '.' :: s := by
  have hnot : ∀ rest, '.' :: rest ≠ es ++ ys := fun rest heq => by
    obtain ⟨b, hb, -⟩ := exists_append_of_dot hes (heq.symm.trans (List.nil_append _).symm)
    rw [(List.append_eq_nil_iff.1 hb.symm).1] at hv
    exact Nat.not_lt_zero _ hv
  rcases List.append_eq_append_iff.1 h with ⟨d, rfl, hd⟩ | ⟨d, rfl, hd⟩
  · -- they would end in the first part
    obtain ⟨b, rfl, -⟩ := exists_append_of_dot hes hd
    simp only [List.length_append] at hv
    omega
  cases d with
  | nil => exact absurd hd (hnot _)
  | cons dot a =>
    obtain ⟨rfl, hrest⟩ := List.cons.inj hd
    rcases List.append_eq_append_iff.1 hrest with ⟨b, rfl, hb⟩ | ⟨b, rfl, hb⟩
    · -- they would start in the third part
      cases b with
      | nil => exact absurd hb (hnot _)
      | cons dot b =>
        have hlength := congrArg List.length hb
        simp only [List.length_cons, List.length_append] at hlength
        omega
    · obtain ⟨b, rfl, rfl⟩ := exists_append_of_dot hes hb
      exact ⟨a, b, rfl, rfl, rfl⟩

/-- **Who puts something else around a payload part has made another payload part**, or the text is
refused. -/
theorem exists_append_of_deserializeWith (h : c.decodePayload encoded = .ok t)
    (hdot : '.' ∉ encoded.toList) {x y : String} {u : ResumptionToken}
    (hread : c.deserializeWith digest (x ++ encoded ++ y) = .ok u) :
    ∃ a b, x = version ++ "." ++ a ∧ y = b ++ "." ++ c.checksumWith digest (a ++ encoded ++ b) := by
  obtain ⟨whole, hunwrap, -⟩ := deserializeWith_eq_ok_iff.1 hread
  obtain ⟨-, -, htext⟩ := unwrapWith_eq_ok_iff.1 hunwrap
  have hlong := checksumLength_lt_length h
  rw [← String.toList_inj, toList_wire, String.toList_append, String.toList_append,
    List.append_assoc] at htext
  have hchecksum : (c.checksumWith digest whole).toList.length < encoded.toList.length := by
    rwa [length_checksumWith]
  have hversion : version.toList.length < encoded.toList.length :=
    Nat.lt_trans (by decide) hlong
  obtain ⟨a, b, hx, hm, hy⟩ := exists_append_of_parts hdot hversion hchecksum htext
  have hwhole : whole = String.ofList a ++ encoded ++ String.ofList b := by
    rw [← String.toList_inj, hm]
    simp only [String.toList_append, String.toList_ofList, List.append_assoc]
  refine ⟨String.ofList a, String.ofList b, ?_, ?_⟩
  · rw [← String.toList_inj, hx]
    simp only [String.toList_append, String.toList_ofList, List.append_assoc]
    rfl
  · rw [← hwhole, ← String.toList_inj, hy]
    simp only [String.toList_append, String.toList_ofList, List.append_assoc]
    rfl

/-! ### Acceptance -/

/-- The bytes of the payload inside a text. -/
def Carries (digest : List UInt8 → Sha256.Words) (c : Codec) (raw : String)
    (bytes : List UInt8) : Prop :=
  ∃ encoded, c.unwrapWith digest raw = .ok encoded ∧ Base64.decode (bytesOf encoded) = .ok bytes

theorem eq_of_carries {raw' : String} (h : c.Carries digest raw bytes)
    (h' : c.Carries digest raw' bytes) : raw = raw' := by
  obtain ⟨e, he, hbytes⟩ := h
  obtain ⟨e', he', hbytes'⟩ := h'
  have hsame : e = e' :=
    (Base64.decode_eq_ok_iff.1 hbytes).trans (Base64.decode_eq_ok_iff.1 hbytes').symm
  obtain ⟨-, -, hraw⟩ := unwrapWith_eq_ok_iff.1 he
  obtain ⟨-, -, hraw'⟩ := unwrapWith_eq_ok_iff.1 he'
  rw [hraw, hraw', hsame]

/-- **Reading tokens fails closed, and no token has a second text.**  Whatever the digest is, a
text gives a token or the fault of a bad token.  It gives a token if and only if it has at most 4096
bytes and is the version, the only base64 text of a payload of the token, and the sixteen digits of
that text's checksum.  Two different texts that are accepted have different payloads.  And what is
put around the payload part of an accepted text is either just what was there, or it makes the
payload part longer, or the text is refused. -/
theorem deserializeWith_fails_closed (digest : List UInt8 → Sha256.Words) (c : Codec) :
    (∀ raw, (∃ t, c.deserializeWith digest raw = .ok t) ∨
      ∃ f, c.deserializeWith digest raw = .error f ∧ f.kind = .badResumptionToken) ∧
    (∀ raw t, c.deserializeWith digest raw = .ok t ↔ raw.utf8ByteSize ≤ 4096 ∧ ∃ e bytes,
      raw = "v1." ++ e ++ "." ++ c.checksumWith digest e ∧
      e = String.ofList (Base64.encode bytes) ∧
      (∀ e', Base64.decode (bytesOf e') = .ok bytes ↔ e' = e) ∧ IsPayload t bytes) ∧
    (∀ e, (c.checksumWith digest e).toList.length = 16 ∧
      ∀ ch ∈ (c.checksumWith digest e).toList, ch ∈ "0123456789abcdef".toList) ∧
    (∀ raw raw' t t', c.deserializeWith digest raw = .ok t →
      c.deserializeWith digest raw' = .ok t' → raw ≠ raw' →
      ∃ bytes bytes', c.Carries digest raw bytes ∧ c.Carries digest raw' bytes' ∧
        bytes ≠ bytes') ∧
    ∀ raw t e, c.deserializeWith digest raw = .ok t → c.unwrapWith digest raw = .ok e →
      ∀ x y, x ++ e ++ y = raw ∨
        (∃ f, c.deserializeWith digest (x ++ e ++ y) = .error f ∧ f.kind = .badResumptionToken) ∨
        ∃ a b, a ++ b ≠ "" ∧ x = "v1." ++ a ∧
          y = b ++ "." ++ c.checksumWith digest (a ++ e ++ b) := by
  have hkind : ∀ raw, (∃ t, c.deserializeWith digest raw = .ok t) ∨
      ∃ f, c.deserializeWith digest raw = .error f ∧ f.kind = .badResumptionToken := by
    intro raw
    cases h : c.deserializeWith digest raw with
    | ok t => exact .inl ⟨t, rfl⟩
    | error f => exact .inr ⟨f, rfl, kind_of_deserializeWith h⟩
  have hdigits : ∀ e, (c.checksumWith digest e).toList.length = 16 ∧
      ∀ ch ∈ (c.checksumWith digest e).toList, ch ∈ "0123456789abcdef".toList := fun e =>
    ⟨length_checksumWith digest c e, mem_digits_of_mem_checksumWith⟩
  refine ⟨hkind, ?_, hdigits, ?_, ?_⟩
  · intro raw t
    simp only [deserializeWith_eq_ok_iff, unwrapWith_eq_ok_iff, decodePayload_eq_ok_iff]
    constructor
    · rintro ⟨e, ⟨hlength, -, hraw⟩, bytes, hbytes, hpayload⟩
      have he := Base64.decode_eq_ok_iff.1 hbytes
      refine ⟨hlength, e, bytes, hraw, he, fun e' => ?_, hpayload⟩
      rw [Base64.decode_eq_ok_iff, ← he]
    · rintro ⟨hlength, e, bytes, hraw, he, -, hpayload⟩
      have hdot : '.' ∉ e.toList := by
        rw [he, String.toList_ofList]
        exact dot_notMem_of_isUrlSafe isUrlSafe_of_mem_encode
      exact ⟨e, ⟨hlength, hdot, hraw⟩, bytes, Base64.decode_eq_ok_iff.2 he, hpayload⟩
  · intro raw raw' t t' h h' hne
    obtain ⟨e, he, hdecode⟩ := deserializeWith_eq_ok_iff.1 h
    obtain ⟨e', he', hdecode'⟩ := deserializeWith_eq_ok_iff.1 h'
    obtain ⟨bytes, hbytes, -⟩ := decodePayload_eq_ok_iff.1 hdecode
    obtain ⟨bytes', hbytes', -⟩ := decodePayload_eq_ok_iff.1 hdecode'
    refine ⟨bytes, bytes', ⟨e, he, hbytes⟩, ⟨e', he', hbytes'⟩, ?_⟩
    rintro rfl
    exact hne (eq_of_carries ⟨e, he, hbytes⟩ ⟨e', he', hbytes'⟩)
  · intro raw t e h he x y
    obtain ⟨e', he', hdecode⟩ := deserializeWith_eq_ok_iff.1 h
    obtain rfl : e = e' := Except.ok.inj (he.symm.trans he')
    obtain ⟨-, hdot, hraw⟩ := unwrapWith_eq_ok_iff.1 he
    rcases hkind (x ++ e ++ y) with ⟨u, hu⟩ | hrefused
    · obtain ⟨a, b, rfl, rfl⟩ := exists_append_of_deserializeWith hdecode hdot hu
      by_cases hnone : a ++ b = ""
      · obtain ⟨rfl, rfl⟩ := String.append_eq_empty_iff.1 hnone
        refine .inl ?_
        rw [hraw]
        simp only [String.append_empty, String.empty_append, String.append_assoc]
      · exact .inr (.inr ⟨a, b, hnone, rfl, rfl⟩)
    · exact .inr (.inl hrefused)

/-! ### A text with another version -/

/-- A token of the whole listing in one format, from its start. -/
def startToken : ResumptionToken where
  metadataPrefix := "oai_dc"
  set := none
  since := none
  upTo := none
  position := ⟨0, ⟨.epoch, 0⟩⟩

/-- A codec whose secret is easy to guess. -/
def plainCodec : Codec := ⟨"secret", plainWords⟩

theorem other_version_ne (a b : String) : "v2." ++ a ≠ "v1." ++ b := by
  intro h
  have hchars := congrArg String.toList h
  rw [String.toList_append, String.toList_append] at hchars
  exact absurd (List.cons.inj (List.cons.inj hchars).2).1 (by decide)

/-- The text of a token is accepted, and with another version in front it is refused. -/
theorem fails_closed_of_other_version : ∃ e,
    plainCodec.deserializeWith Sha256.digest ("v1." ++ e ++ "." ++ plainCodec.checksum e) =
      .ok startToken ∧
    ∃ f, plainCodec.deserializeWith Sha256.digest ("v2." ++ e ++ "." ++ plainCodec.checksum e) =
      .error f ∧ f.kind = .badResumptionToken := by
  have hlength : (plainCodec.serialize startToken).utf8ByteSize ≤ maxLength :=
    Nat.le_trans (utf8ByteSize_serialize_le _ _) (by decide)
  have hread := deserialize_serialize plainCodec startToken (by decide) hlength
  rw [ResumptionToken.carry_eq_self_iff.2 (by decide)] at hread
  obtain ⟨e, hdot, hraw⟩ : ∃ e : String, '.' ∉ e.toList ∧
      plainCodec.serialize startToken = "v1." ++ e ++ "." ++ plainCodec.checksum e := by
    refine ⟨_, ?_, rfl⟩
    rw [String.toList_ofList]
    exact dot_notMem_of_isUrlSafe isUrlSafe_of_mem_encode
  rw [hraw] at hlength hread
  have hunwrap : plainCodec.unwrapWith Sha256.digest _ = .ok e :=
    unwrapWith_eq_ok_iff.2 ⟨hlength, hdot, rfl⟩
  obtain ⟨-, -, -, -, haround⟩ := deserializeWith_fails_closed Sha256.digest plainCodec
  refine ⟨e, hread, ?_⟩
  rw [String.append_assoc]
  rcases haround _ _ e hread hunwrap "v2." ("." ++ plainCodec.checksum e) with
    heq | hrefused | ⟨a, b, -, hx, -⟩
  · simp only [String.append_assoc] at heq
    exact absurd heq (other_version_ne _ _)
  · exact hrefused
  · exact absurd (String.append_empty.trans hx) (other_version_ne "" a)

end Harvest.Codec
