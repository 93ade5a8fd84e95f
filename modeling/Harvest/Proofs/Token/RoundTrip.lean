import Harvest.Proofs.Base64
import Harvest.Proofs.Engine
import Harvest.Proofs.Instant.Text
import Harvest.Proofs.Json.Text
import Harvest.Proofs.Order
import Harvest.Proofs.Token.Length
import Harvest.Proofs.Token.Payload
import Harvest.Token.Codec

/-!
# Reading back tokens

A token that names a format and is not too long for the wire is read back from its text
(`Codec.deserialize_serialize`); any other one is refused (`Codec.deserialize_wire`).  What is read
is the token as it was, if its times are aligned; a leap second inside a minute is carried over into
the next second (`ResumptionToken.carry`), and the position of the token with it.

The text has three parts because symbols and hexadecimal digits are URL-safe and a dot is not, and
no other text gets past the checks of its parts (`Codec.unwrapWith_eq_ok_iff`); the payload is a
flat object, and its members are taken by name.  `Codec.wire_round_trip` says all of this at once,
for any secret and any token.
-/

namespace Harvest

/-! ### Times in tokens -/

/-- The cursor at the time that is read back. -/
def Cursor.carry (c : Cursor) : Cursor := ⟨c.modified.carry, c.id⟩

theorem Cursor.carry_eq_self_iff {c : Cursor} : c.carry = c ↔ c.modified.IsAligned := by
  rw [Cursor.ext_iff, ← Instant.carry_eq_self_iff]
  exact and_iff_left rfl

theorem Cursor.le_carry (c : Cursor) : c ≤ c.carry := by
  obtain hlt | heq := lt_or_eq_of_le c.modified.le_carry
  · exact le_of_lt (.inl hlt)
  · exact le_of_eq (Cursor.ext heq rfl)

/-- The bounds of a window are aligned, those that are given. -/
def AlignedBounds (since upTo : Option Instant) : Prop :=
  (∀ i ∈ since, i.IsAligned) ∧ ∀ i ∈ upTo, i.IsAligned

instance (since upTo : Option Instant) : Decidable (AlignedBounds since upTo) :=
  inferInstanceAs (Decidable (_ ∧ _))

theorem alignedBounds_none : AlignedBounds none none := by simp [AlignedBounds]

namespace ResumptionToken

/-- All times of a token are aligned. -/
def IsAligned (t : ResumptionToken) : Prop :=
  AlignedBounds t.since t.upTo ∧ t.position.last.modified.IsAligned

instance (t : ResumptionToken) : Decidable t.IsAligned := inferInstanceAs (Decidable (_ ∧ _))

/-- A token with its times as they are read back. -/
def carry (t : ResumptionToken) : ResumptionToken :=
  { t with
    since := t.since.map Instant.carry
    upTo := t.upTo.map Instant.carry
    position := ⟨t.position.typeIndex, t.position.last.carry⟩ }

theorem map_carry_eq_self_iff {o : Option Instant} :
    o.map Instant.carry = o ↔ ∀ i ∈ o, i.IsAligned := by
  cases o <;> simp [Instant.carry_eq_self_iff]

theorem carry_eq_self_iff {t : ResumptionToken} : t.carry = t ↔ t.IsAligned := by
  obtain ⟨p, set, since, upTo, typeIndex, last⟩ := t
  simp [carry, IsAligned, AlignedBounds, map_carry_eq_self_iff, Cursor.carry_eq_self_iff,
    and_assoc]

end ResumptionToken

namespace Codec

open Json

variable {digest : List UInt8 → Sha256.Words} {c : Codec} {raw encoded : String}

/-! ### Characters -/

/-- A character that may stand in a URL as it is. -/
def IsUrlSafe (c : Char) : Prop := c.isAlphanum = true ∨ c = '-' ∨ c = '_'

instance (c : Char) : Decidable (IsUrlSafe c) := inferInstanceAs (Decidable (_ ∨ _))

theorem dot_notMem_of_isUrlSafe {cs : List Char} (h : ∀ c ∈ cs, IsUrlSafe c) : '.' ∉ cs :=
  fun hdot => absurd (h '.' hdot) (by decide)

theorem isUrlSafe_of_mem_version : ∀ c ∈ version.toList, IsUrlSafe c := by
  rw [show version.toList = ['v', '1'] from rfl, List.forall_mem_cons, List.forall_mem_singleton]
  exact ⟨by decide, by decide⟩

theorem isUrlSafe_symbolOf {n : Nat} (h : n < 64) : IsUrlSafe (Base64.symbolOf n) := by
  revert n
  decide

theorem isUrlSafe_of_mem_encode {bs : List UInt8} : ∀ c ∈ Base64.encode bs, IsUrlSafe c := by
  intro c hc
  obtain ⟨n, hn, rfl⟩ := Base64.exists_of_mem_encode hc
  exact isUrlSafe_symbolOf hn

theorem isUrlSafe_hexChar {n : Nat} (h : n < 16) : IsUrlSafe (hexChar n) := by
  revert n
  decide

theorem exists_of_mem_checksumWith {ch : Char}
    (h : ch ∈ (c.checksumWith digest encoded).toList) : ∃ m < 16, ch = hexChar m := by
  rw [checksumWith, String.toList_ofList, List.mem_append] at h
  exact h.elim exists_of_mem_hexDigits exists_of_mem_hexDigits

theorem isUrlSafe_of_mem_checksumWith (digest : List UInt8 → Sha256.Words) (c : Codec)
    (encoded : String) : ∀ ch ∈ (c.checksumWith digest encoded).toList, IsUrlSafe ch := by
  intro ch hch
  obtain ⟨m, hm, rfl⟩ := exists_of_mem_checksumWith hch
  exact isUrlSafe_hexChar hm

/-! ### Checksums -/

theorem utf8ByteSize_checksumWith (digest : List UInt8 → Sha256.Words) (c : Codec)
    (encoded : String) : (c.checksumWith digest encoded).utf8ByteSize = checksumLength := by
  simp only [checksumWith, String.utf8ByteSize_ofList, String.utf8Len_append, hexWord,
    utf8Len_hexDigits]
  rfl

/-- The differences of two lists, collected, are nothing if and only if the lists are equal. -/
theorem foldl_xor_eq_zero_iff {as bs : List UInt8} (hlength : as.length = bs.length)
    (diff : UInt8) :
    (as.zip bs).foldl (fun diff p => diff ||| (p.1 ^^^ p.2)) diff = 0 ↔ diff = 0 ∧ as = bs := by
  induction as generalizing bs diff with
  | nil =>
    obtain rfl := List.length_eq_zero_iff.1 hlength.symm
    simp
  | cons a as ih =>
    obtain _ | ⟨b, bs⟩ := bs
    · cases hlength
    · rw [List.zip_cons_cons, List.foldl_cons, ih (Nat.succ.inj hlength), UInt8.or_eq_zero_iff,
        UInt8.xor_eq_zero_iff, List.cons.injEq, and_assoc]

theorem sameBytes_iff {a b : String} : sameBytes a b = true ↔ a = b := by
  rw [sameBytes, Bool.and_eq_true, decide_eq_true_eq, decide_eq_true_eq]
  constructor
  · rintro ⟨hlength, hfold⟩
    exact bytesOf_inj.1 ((foldl_xor_eq_zero_iff hlength 0).1 hfold).2
  · rintro rfl
    exact ⟨rfl, (foldl_xor_eq_zero_iff rfl 0).2 ⟨rfl, rfl⟩⟩

/-! ### Parts -/

theorem parts_of_not_mem {cs : List Char} (h : '.' ∉ cs) : parts cs = [cs] := by
  induction cs with
  | nil => rfl
  | cons c cs ih =>
    obtain ⟨hc, hcs⟩ := not_or.1 (mt List.mem_cons.2 h)
    rw [parts, if_neg (Ne.symm hc), ih hcs]

theorem parts_append {cs : List Char} (h : '.' ∉ cs) (rest : List Char) :
    parts (cs ++ '.' :: rest) = cs :: parts rest := by
  induction cs with
  | nil => rfl
  | cons c cs ih =>
    obtain ⟨hc, hcs⟩ := not_or.1 (mt List.mem_cons.2 h)
    rw [List.cons_append, parts, if_neg (Ne.symm hc), ih hcs]

theorem parts_ne_nil (cs : List Char) : parts cs ≠ [] := by
  unfold parts
  split
  · nofun
  · split_ifs
    · nofun
    · split <;> nofun

theorem intercalate_parts (cs : List Char) :
    (∀ p ∈ parts cs, '.' ∉ p) ∧ ['.'].intercalate (parts cs) = cs := by
  induction cs with
  | nil => exact ⟨by simp [parts], rfl⟩
  | cons c cs ih =>
    obtain ⟨p, ps, hparts⟩ := List.exists_cons_of_ne_nil (parts_ne_nil cs)
    rw [hparts] at ih
    obtain ⟨hdots, hjoin⟩ := ih
    by_cases hc : c = '.'
    · rw [parts, if_pos hc, hparts]
      refine ⟨List.forall_mem_cons.2 ⟨List.not_mem_nil, hdots⟩, ?_⟩
      rw [List.intercalate_cons_cons, hjoin, hc]
      rfl
    · rw [parts, if_neg hc, hparts]
      obtain ⟨hp, hps⟩ := List.forall_mem_cons.1 hdots
      refine ⟨List.forall_mem_cons.2 ⟨List.not_mem_cons_of_ne_of_not_mem (Ne.symm hc) hp, hps⟩, ?_⟩
      rw [← hjoin]
      cases ps <;> simp

theorem parts_eq_three_iff {cs u v w : List Char} : parts cs = [u, v, w] ↔
    '.' ∉ u ∧ '.' ∉ v ∧ '.' ∉ w ∧ cs = u ++ '.' :: (v ++ '.' :: w) := by
  constructor
  · intro h
    obtain ⟨hdots, hjoin⟩ := intercalate_parts cs
    rw [h] at hdots hjoin
    refine ⟨hdots u (by simp), hdots v (by simp), hdots w (by simp), ?_⟩
    rw [← hjoin]
    simp
  · rintro ⟨hu, hv, hw, rfl⟩
    rw [parts_append hu, parts_append hv, parts_of_not_mem hw]

theorem toList_wire (v e s : String) : (v ++ "." ++ e ++ "." ++ s).toList =
    v.toList ++ '.' :: (e.toList ++ '.' :: s.toList) := by
  simp only [String.toList_append, List.append_assoc]
  rw [show ".".toList = ['.'] from rfl, List.singleton_append, List.singleton_append]

theorem checksum_refused_iff {e s : String} :
    (s.utf8ByteSize ≠ checksumLength || !sameBytes (c.checksumWith digest e) s) = true ↔
      s ≠ c.checksumWith digest e := by
  rw [Bool.or_eq_true, decide_eq_true_eq, Bool.not_eq_true', ← Bool.not_eq_true, sameBytes_iff]
  constructor
  · rintro (hlength | hne) rfl
    · exact hlength (utf8ByteSize_checksumWith digest c e)
    · exact hne rfl
  · exact fun hne => .inr hne.symm

/-- Exactly what stands between the version and a checksum made from it is taken out of a text. -/
theorem unwrapWith_eq_ok_iff : c.unwrapWith digest raw = .ok encoded ↔
    raw.utf8ByteSize ≤ maxLength ∧ '.' ∉ encoded.toList ∧
      raw = version ++ "." ++ encoded ++ "." ++ c.checksumWith digest encoded := by
  unfold unwrapWith
  constructor
  · intro h
    split_ifs at h with hlength
    split at h
    · rename_i v e s hparts
      split_ifs at h with hversion hchecksum
      cases h
      obtain ⟨-, he, -, hraw⟩ := parts_eq_three_iff.1 hparts
      have hsame := Classical.not_not.1 (mt checksum_refused_iff.2 hchecksum)
      rw [Bool.or_eq_true, not_or, decide_eq_true_eq] at hlength
      refine ⟨Nat.le_of_not_lt hlength.2, by rwa [String.toList_ofList], ?_⟩
      rw [← Classical.not_not.1 hversion, ← hsame, ← String.toList_inj, toList_wire, hraw]
      simp only [String.toList_ofList]
    · cases h
  · rintro ⟨hlength, hdot, rfl⟩
    -- no dot stands in the version, between the dots or in the checksum
    have hparts := parts_eq_three_iff.2 ⟨dot_notMem_of_isUrlSafe isUrlSafe_of_mem_version, hdot,
      dot_notMem_of_isUrlSafe (isUrlSafe_of_mem_checksumWith digest c encoded), toList_wire _ _ _⟩
    have hnonempty : (version ++ "." ++ encoded ++ "." ++
        c.checksumWith digest encoded).isEmpty = false := by
      rw [String.isEmpty_eq_false_iff]
      intro hempty
      rw [hempty] at hparts
      simp [parts] at hparts
    rw [hnonempty, Bool.false_or, if_neg (by simpa using hlength)]
    simp only [hparts, String.ofList_toList]
    rw [if_neg (fun h => h rfl), if_neg fun h => checksum_refused_iff.1 h rfl]

theorem unwrap_wire (c : Codec) {e : String} (he : '.' ∉ e.toList)
    (hlen : (version ++ "." ++ e ++ "." ++ c.checksum e).utf8ByteSize ≤ maxLength) :
    c.unwrapWith Sha256.digest (version ++ "." ++ e ++ "." ++ c.checksum e) = .ok e :=
  unwrapWith_eq_ok_iff.2 ⟨hlen, he, rfl⟩

/-! ### Payloads -/

/-- The members of a payload. -/
def leaves (t : ResumptionToken) : List (String × Leaf) :=
  ("p", .text t.metadataPrefix) ::
    ((t.set.map fun s => ("s", Leaf.text s)).toList ++
      ((t.since.map fun i => ("f", Leaf.text i.render)).toList ++
        ((t.upTo.map fun i => ("u", Leaf.text i.render)).toList ++
          [("t", .nat t.position.typeIndex.toNat),
            ("m", .text t.position.last.modified.render),
            ("i", .nat t.position.last.id.toNat)])))

theorem payload_eq (t : ResumptionToken) : payload t = .object (leafMembers (leaves t)) := by
  obtain ⟨p, set, since, upTo, position⟩ := t
  cases set <;> cases since <;> cases upTo <;> rfl

theorem id?_nat (n : UInt64) : (Leaf.nat n.toNat).raw.id? = some n := by
  have hlt := n.toNat_lt
  have hinteger : (Leaf.nat n.toNat).raw.integer? = some (n.toNat : Int) := by
    simp [Leaf.raw, Leaf.numeral, Raw.integer?, Numeral.integer?, Nat.ofDigitChars_ten_toDigits]
  have hnat : (Leaf.nat n.toNat).raw.natUpTo? max64 = some n.toNat := by
    have hrange : (0 : Int) ≤ n.toNat ∧ (n.toNat : Int) ≤ max64 := by
      simp only [max64]
      omega
    simp [Raw.natUpTo?, hinteger, hrange.2]
  simp [Raw.id?, hnat]

theorem instant?_text (t : Instant) : (Leaf.text t.render).raw.instant? = some t.carry := by
  simp [Leaf.raw, Raw.instant?, Raw.text?, Instant.ofText?_render]

theorem nullable_text (s : String) :
    Fields.nullable Raw.text? (Leaf.text s).raw = some (some s) := rfl

theorem nullable_instant (t : Instant) :
    Fields.nullable Raw.instant? (Leaf.text t.render).raw = some (some t.carry) := by
  have ht := instant?_text t
  rw [Leaf.raw] at ht ⊢
  rw [Fields.nullable, ht]
  · rfl
  · rintro ⟨⟩

/-- The members of a payload with their values as they are read. -/
def givenOf (t : ResumptionToken) : List (String × Raw) := (leaves t).map fun m => (m.1, m.2.raw)

/-- The names of a payload come in their order, with some of them left out. -/
theorem names_givenOf_sublist (t : ResumptionToken) :
    ((givenOf t).map Prod.fst).Sublist payloadNames := by
  have hoption : ∀ {α : Type} (o : Option α) (k : String) (leaf : α → Leaf),
      ((o.map fun x => (k, leaf x)).toList.map Prod.fst).Sublist [k] := fun o k leaf => by
    cases o <;> simp
  rw [givenOf, List.map_map]
  simp only [leaves, List.map_cons, List.map_append]
  exact .cons_cons _ ((hoption _ "s" _).append ((hoption _ "f" _).append ((hoption _ "u" _).append
    (List.Sublist.refl _))))

theorem mayBeGiven_givenOf {α β : Type} {t : ResumptionToken} {k : String} {o : Option α}
    {leaf : α → Leaf} {value : α → β} {read? : Raw → Option β}
    (hmissing : o = none → k ∉ (givenOf t).map Prod.fst)
    (hgiven : ∀ x, o = some x → (k, leaf x) ∈ leaves t)
    (hread : ∀ x, Fields.nullable read? (leaf x).raw = some (some (value x))) :
    MayBeGiven (givenOf t) k read? (o.map value) := by
  cases o with
  | none => exact .inl ⟨hmissing rfl, rfl⟩
  | some x => exact .inr ⟨(leaf x).raw, List.mem_map_of_mem (hgiven x rfl), hread x⟩

theorem spells_leaves (t : ResumptionToken) :
    Spells t.carry (.object (rawMembers (leaves t))) := by
  have hsublist := names_givenOf_sublist t
  have hgiven : ∀ {k : String} {leaf : Leaf}, (k, leaf) ∈ leaves t → (k, leaf.raw) ∈ givenOf t :=
    fun h => List.mem_map_of_mem h
  have hmembers : rawMembers (leaves t) = (givenOf t).map fun e => (some e.1, e.2) := by
    rw [givenOf, List.map_map]
    rfl
  rw [hmembers]
  refine .object _ (hsublist.nodup (by decide)) (fun name h => hsublist.subset h)
    ?_ ?_ ?_ ?_ ?_ ?_ ?_
  · exact ⟨(Leaf.text t.metadataPrefix).raw, hgiven (by simp [leaves]), rfl⟩
  · have hset : MayBeGiven (givenOf t) "s" Raw.text? (t.set.map fun s => s) :=
      mayBeGiven_givenOf (fun h => by simp [givenOf, leaves, h])
        (fun x h => by simp [leaves, h]) nullable_text
    rwa [Option.map_id'] at hset
  · exact mayBeGiven_givenOf (fun h => by simp [givenOf, leaves, h])
      (fun x h => by simp [leaves, h]) nullable_instant
  · exact mayBeGiven_givenOf (fun h => by simp [givenOf, leaves, h])
      (fun x h => by simp [leaves, h]) nullable_instant
  · exact ⟨(Leaf.nat t.position.typeIndex.toNat).raw, hgiven (by simp [leaves]), id?_nat _⟩
  · exact ⟨(Leaf.text _).raw, hgiven (by simp [leaves]), instant?_text _⟩
  · exact ⟨(Leaf.nat t.position.last.id.toNat).raw, hgiven (by simp [leaves]), id?_nat _⟩

theorem ofPayload?_leaves (t : ResumptionToken) :
    ofPayload? (.object (rawMembers (leaves t))) = some t.carry :=
  ofPayload?_eq_some_iff.2 (spells_leaves t)

/-- The payload of a token is read back, if it names a format. -/
theorem decodePayload_encode (c : Codec) (t : ResumptionToken) :
    c.decodePayload (String.ofList (Base64.encode (bytesOf (payload t).render))) =
      if t.metadataPrefix.isEmpty then .error .tokenWithoutPrefix else .ok t.carry := by
  have hread : (textOf? (bytesOf (payload t).render) >>= Raw.ofText? >>= ofPayload?) =
      some t.carry := by
    simp only [textOf?_bytesOf, payload_eq, Option.bind_eq_bind, Option.bind_some, ofText?_render,
      ofPayload?_leaves]
  simp only [decodePayload, Base64.decode_encode, hread]
  rfl

theorem deserialize_of_unwrap (h : c.unwrapWith digest raw = .ok encoded) :
    c.deserializeWith digest raw = c.decodePayload encoded := by
  rw [deserializeWith, h]
  rfl

/-- **What becomes of a token on the wire**: it is read back, unless its text is too long or it
names no format. -/
theorem deserialize_wire (c : Codec) (t : ResumptionToken) : c.deserialize (c.serialize t) =
    if maxLength < (c.serialize t).utf8ByteSize then .error .tokenLength
    else if t.metadataPrefix.isEmpty then .error .tokenWithoutPrefix else .ok t.carry := by
  by_cases hlen : maxLength < (c.serialize t).utf8ByteSize
  · have hunwrap : c.unwrapWith Sha256.digest (c.serialize t) = .error .tokenLength := by
      rw [unwrapWith, if_pos]
      rw [Bool.or_eq_true]
      exact .inr (decide_eq_true hlen)
    rw [if_pos hlen, deserialize, deserializeWith, hunwrap]
    rfl
  · have hdot : '.' ∉ (String.ofList (Base64.encode (bytesOf (payload t).render))).toList := by
      rw [String.toList_ofList]
      exact dot_notMem_of_isUrlSafe isUrlSafe_of_mem_encode
    have hunwrap := unwrap_wire c hdot (Nat.le_of_not_lt hlen)
    rw [if_neg hlen, serialize, deserialize, deserialize_of_unwrap hunwrap, decodePayload_encode]

/-- **A token that names a format is read back from its text, unless that is too long.** -/
theorem deserialize_serialize (c : Codec) (t : ResumptionToken) (hname : t.metadataPrefix ≠ "")
    (hlen : (c.serialize t).utf8ByteSize ≤ maxLength) :
    c.deserialize (c.serialize t) = .ok t.carry := by
  have hempty : t.metadataPrefix.isEmpty = false := String.isEmpty_eq_false_iff.2 hname
  rw [deserialize_wire, if_neg (Nat.not_lt.2 hlen), hempty]
  rfl

theorem deserialize_serialize_of_short (c : Codec) (t : ResumptionToken)
    (hname : t.metadataPrefix ≠ "")
    (hshort : 1000 + 8 * (t.metadataPrefix.utf8ByteSize + optionSize t.set) ≤ maxLength) :
    c.deserialize (c.serialize t) = .ok t.carry :=
  deserialize_serialize c t hname (Nat.le_trans (utf8ByteSize_serialize_le c t) hshort)

theorem eq_of_deserialize_serialize {c : Codec} {t u : ResumptionToken}
    (h : c.deserialize (c.serialize t) = .ok u) : u = t.carry := by
  rw [deserialize_wire] at h
  split_ifs at h
  exact (Except.ok.inj h).symm

theorem isAligned_of_instant? {r : Raw} {i : Instant} (h : r.instant? = some i) :
    i.IsAligned := by
  obtain ⟨s, -, hs⟩ := Option.bind_eq_some_iff.1 h
  exact Instant.isAligned_of_ofText? hs

theorem isAligned_of_nullable {r : Raw} {o : Option Instant}
    (h : Fields.nullable Raw.instant? r = some o) : ∀ i ∈ o, i.IsAligned := by
  rintro i rfl
  unfold Fields.nullable at h
  split at h
  · cases h
  · obtain ⟨j, hj, hji⟩ := Option.map_eq_some_iff.1 h
    cases hji
    exact isAligned_of_instant? hj

theorem isAligned_of_mayBeGiven {given : List (String × Raw)} {k : String} {o : Option Instant}
    (h : MayBeGiven given k Raw.instant? o) : ∀ i ∈ o, i.IsAligned := by
  obtain ⟨-, rfl⟩ | ⟨r, -, hr⟩ := h
  · rintro i ⟨⟩
  · exact isAligned_of_nullable hr

theorem isAligned_of_spells {t : ResumptionToken} {r : Raw} (h : Spells t r) : t.IsAligned := by
  cases h with
  | object given hnodup hknown hp hs hf hu hn hm hi =>
    obtain ⟨r, -, hr⟩ := hm
    exact ⟨⟨isAligned_of_mayBeGiven hf, isAligned_of_mayBeGiven hu⟩, isAligned_of_instant? hr⟩
  | list p s f u n m i hp hs hf hu hn hm hi =>
    exact ⟨⟨isAligned_of_nullable hf, isAligned_of_nullable hu⟩, isAligned_of_instant? hm⟩

/-- A token that is read names a format, and its times are aligned. -/
theorem named_of_deserialize {c : Codec} {raw : String} {t : ResumptionToken}
    (h : c.deserialize raw = .ok t) : t.metadataPrefix ≠ "" ∧ t.IsAligned := by
  obtain ⟨encoded, -, hdecode⟩ := bind_eq_ok_iff.1 h
  obtain ⟨bytes, -, text, r, -, -, hspells, hname⟩ := decodePayload_eq_ok_iff.1 hdecode
  exact ⟨hname, isAligned_of_spells hspells⟩

/-- **Tokens on the wire.**  The text of a token has three parts, and all of it but the two dots is
URL-safe.  It is read as the token just if that names a format, the text is not too long, and leap
seconds end their minutes; without a name or with a longer text it is a bad token.  Hence a token
that was read from any text can be written and read again, as long as its own text is not too
long. -/
theorem wire_round_trip (c : Codec) (t : ResumptionToken) :
    (∃ v e s, c.serialize t = v ++ "." ++ e ++ "." ++ s ∧
      ∀ part ∈ [v, e, s], ∀ ch ∈ part.toList, IsUrlSafe ch) ∧
    (c.deserialize (c.serialize t) = .ok t ↔
      t.metadataPrefix ≠ "" ∧ (c.serialize t).utf8ByteSize ≤ 4096 ∧ t.IsAligned) ∧
    (¬ (t.metadataPrefix ≠ "" ∧ (c.serialize t).utf8ByteSize ≤ 4096) →
      ∃ f, c.deserialize (c.serialize t) = .error f ∧ f.kind = .badResumptionToken) ∧
    ∀ raw, c.deserialize raw = .ok t → (c.serialize t).utf8ByteSize ≤ 4096 →
      c.deserialize (c.serialize t) = .ok t := by
  have hread : t.metadataPrefix ≠ "" → (c.serialize t).utf8ByteSize ≤ 4096 → t.IsAligned →
      c.deserialize (c.serialize t) = .ok t := fun hname hlen haligned => by
    rw [deserialize_serialize c t hname hlen, ResumptionToken.carry_eq_self_iff.2 haligned]
  have hwire := deserialize_wire c t
  rw [maxLength] at hwire
  refine ⟨?_, ⟨fun h => ?_, fun ⟨hname, hlen, haligned⟩ => hread hname hlen haligned⟩, fun h => ?_,
    fun raw h hlen => hread (named_of_deserialize h).1 hlen (named_of_deserialize h).2⟩
  · refine ⟨_, _, _, rfl, ?_⟩
    rw [List.forall_mem_cons, List.forall_mem_cons, List.forall_mem_singleton,
      String.toList_ofList]
    exact ⟨isUrlSafe_of_mem_version, isUrlSafe_of_mem_encode, isUrlSafe_of_mem_checksumWith _ c _⟩
  · obtain ⟨hname, haligned⟩ := named_of_deserialize h
    refine ⟨hname, Nat.le_of_not_lt fun hlong => ?_, haligned⟩
    rw [hwire, if_pos hlong] at h
    cases h
  · rw [hwire]
    split_ifs with hlong hempty
    · exact ⟨_, rfl, rfl⟩
    · exact ⟨_, rfl, rfl⟩
    · exact absurd ⟨fun hname => hempty (by rw [hname]; rfl), Nat.le_of_not_lt hlong⟩ h

end Codec

end Harvest
