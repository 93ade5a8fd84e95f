import Harvest.Token.Codec
import Mathlib.Data.List.Nodup
import Mathlib.Tactic.SplitIfs

/-!
# What the payload of a token looks like

A payload is an object with a text, an instant and two numbers, and up to three more members, all
under names of one letter; no name comes twice and there is no other one.  It may also be the list
of the seven values in their order, with null for those that are missing.  `Codec.Spells` says so,
and `Codec.ofPayload?_eq_some_iff` that nothing else is read.
-/

namespace Harvest

namespace Codec

open Json

/-- The names in a payload, in order. -/
def payloadNames : List String := ["p", "s", "f", "u", "t", "m", "i"]

/-- A member is there, and it is a certain value. -/
def Given {α : Type} (given : List (String × Raw)) (name : String) (read? : Raw → Option α)
    (x : α) : Prop :=
  ∃ r, (name, r) ∈ given ∧ read? r = some x

/-- A member is missing, or null, or a certain value. -/
def MayBeGiven {α : Type} (given : List (String × Raw)) (name : String) (read? : Raw → Option α)
    (x : Option α) : Prop :=
  name ∉ given.map Prod.fst ∧ x = none ∨ Given given name (Fields.nullable read?) x

/-- A tree is a payload of a token. -/
inductive Spells (t : ResumptionToken) : Raw → Prop
  | object (given : List (String × Raw))
      (nodup : (given.map Prod.fst).Nodup)
      (known : ∀ name ∈ given.map Prod.fst, name ∈ payloadNames)
      (metadataPrefix : Given given "p" Raw.text? t.metadataPrefix)
      (set : MayBeGiven given "s" Raw.text? t.set)
      (since : MayBeGiven given "f" Raw.instant? t.since)
      (upTo : MayBeGiven given "u" Raw.instant? t.upTo)
      (typeIndex : Given given "t" Raw.id? t.position.typeIndex)
      (modified : Given given "m" Raw.instant? t.position.last.modified)
      (id : Given given "i" Raw.id? t.position.last.id) :
      Spells t (.object (given.map fun e => (some e.1, e.2)))
  | list (p s f u n m i : Raw)
      (metadataPrefix : p.text? = some t.metadataPrefix)
      (set : Fields.nullable Raw.text? s = some t.set)
      (since : Fields.nullable Raw.instant? f = some t.since)
      (upTo : Fields.nullable Raw.instant? u = some t.upTo)
      (typeIndex : n.id? = some t.position.typeIndex)
      (modified : m.instant? = some t.position.last.modified)
      (id : i.id? = some t.position.last.id) :
      Spells t (.list [p, s, f, u, n, m, i])

variable {t : ResumptionToken} {r : Raw} {f : Fields}

/-! ### Fields by name -/

/-- The fields of a payload have the values of a token. -/
structure Reads (f : Fields) (t : ResumptionToken) : Prop where
  metadataPrefix : f.required "p" Raw.text? = some t.metadataPrefix
  set : f.defaulted "s" none (Fields.nullable Raw.text?) = some t.set
  since : f.defaulted "f" none (Fields.nullable Raw.instant?) = some t.since
  upTo : f.defaulted "u" none (Fields.nullable Raw.instant?) = some t.upTo
  typeIndex : f.required "t" Raw.id? = some t.position.typeIndex
  modified : f.required "m" Raw.instant? = some t.position.last.modified
  id : f.required "i" Raw.id? = some t.position.last.id

theorem ofPayload?_eq_some_iff_reads : ofPayload? r = some t ↔
    ∃ f, r.fields? payloadNames true = some f ∧ Reads f t := by
  unfold ofPayload?
  rw [Option.bind_eq_bind, Option.bind_eq_some_iff]
  refine exists_congr fun f => and_congr_right fun _ => ?_
  constructor
  · intro h
    simp only [Option.bind_eq_bind, Option.bind_eq_some_iff, Option.pure_def,
      Option.some.injEq] at h
    obtain ⟨p, hp, s, hs, since, hf, u, hu, n, hn, m, hm, i, hi, rfl⟩ := h
    exact ⟨hp, hs, hf, hu, hn, hm, hi⟩
  · rintro ⟨hp, hs, hf, hu, ht, hm, hi⟩
    simp only [hp, hs, hf, hu, ht, hm, hi]
    rfl

section Named

variable {α : Type} {given : List (String × Raw)} {positional : Bool} {name : String}
  {read? : Raw → Option α}

/-- Where no name comes twice, what is found under a name is what is given. -/
theorem look_eq_some_iff (hnodup : (given.map Prod.fst).Nodup) :
    Fields.look ⟨given, positional⟩ name = some r ↔ (name, r) ∈ given :=
  ⟨OrderedMap.mem_of_look, OrderedMap.look_of_mem hnodup⟩

theorem required_eq_some_iff (hnodup : (given.map Prod.fst).Nodup) {x : α} :
    Fields.required ⟨given, positional⟩ name read? = some x ↔ Given given name read? x := by
  rw [Fields.required, Option.bind_eq_bind, Option.bind_eq_some_iff]
  exact exists_congr fun r => and_congr_left fun _ => look_eq_some_iff hnodup

theorem defaulted_eq_some_iff (hnodup : (given.map Prod.fst).Nodup) {x : Option α} :
    Fields.defaulted ⟨given, positional⟩ name none (Fields.nullable read?) = some x ↔
      MayBeGiven given name read? x := by
  unfold Fields.defaulted MayBeGiven
  cases hlook : Fields.look ⟨given, positional⟩ name with
  | none =>
    have hmissing : name ∉ given.map Prod.fst := OrderedMap.look_eq_none_iff.1 hlook
    have hnot : ¬ Given given name (Fields.nullable read?) x := fun ⟨r, hr, _⟩ =>
      hmissing (List.mem_map_of_mem hr)
    rw [Option.some.injEq, or_iff_left hnot, and_iff_right hmissing, eq_comm]
  | some r =>
    have hr := (look_eq_some_iff hnodup).1 hlook
    have hthere : ¬ (name ∉ given.map Prod.fst ∧ x = none) := fun h =>
      h.1 (List.mem_map_of_mem hr)
    rw [or_iff_right hthere]
    refine ⟨fun h => ⟨r, hr, h⟩, fun ⟨r', hr', h⟩ => ?_⟩
    have hfound : Fields.look ⟨given, positional⟩ name = some r' :=
      (look_eq_some_iff hnodup).2 hr'
    rw [hlook] at hfound
    cases hfound
    exact h

theorem mapM_keys_eq_some_iff {members : List (Option String × Raw)} :
    (members.mapM fun (k, r) => k.map fun k => (k, r)) = some given ↔
      members = given.map fun e => (some e.1, e.2) := by
  induction members generalizing given with
  | nil => cases given <;> simp
  | cons e members ih =>
    rw [List.mapM_cons]
    simp only [Option.bind_eq_bind, Option.bind_eq_some_iff, Option.pure_def, Option.some.injEq]
    constructor
    · rintro ⟨e', he, es, hes, rfl⟩
      obtain ⟨k, hk, rfl⟩ := Option.map_eq_some_iff.1 he
      rw [List.map_cons, ← ih.1 hes, ← hk]
    · intro h
      cases given with
      | nil => cases h
      | cons e' es =>
        obtain ⟨rfl, hes⟩ := List.cons.inj h
        exact ⟨e', rfl, es, ih.2 hes, rfl⟩

end Named

/-- The fields of an object are its members, with names that are known and distinct. -/
theorem fields?_object_eq_some_iff {members : List (Option String × Raw)} :
    (Raw.object members).fields? payloadNames true = some f ↔
      ∃ given, members = given.map (fun e => (some e.1, e.2)) ∧ (given.map Prod.fst).Nodup ∧
        (∀ name ∈ given.map Prod.fst, name ∈ payloadNames) ∧ f = ⟨given, false⟩ := by
  unfold Raw.fields?
  rw [Option.bind_eq_bind, Option.bind_eq_some_iff]
  refine exists_congr fun given => ?_
  rw [mapM_keys_eq_some_iff]
  refine and_congr_right fun _ => ?_
  dsimp only
  constructor
  · intro h
    split_ifs at h with htwice hunknown
    cases h
    have hknown : ∀ name ∈ given.map Prod.fst, name ∈ payloadNames := by
      simpa using hunknown
    refine ⟨List.nodup_iff_count_le_one.2 fun name => ?_, hknown, rfl⟩
    by_cases hname : name ∈ given.map Prod.fst
    · refine Nat.le_of_not_lt fun hcount => htwice ?_
      exact List.any_eq_true.2 ⟨name, hknown name hname, decide_eq_true hcount⟩
    · rw [List.count_eq_zero_of_not_mem hname]
      exact Nat.zero_le 1
  · rintro ⟨hnodup, hknown, rfl⟩
    rw [if_neg, if_neg]
    · simpa using hknown
    · simpa using fun name _ => List.nodup_iff_count_le_one.1 hnodup name

/-- A list must have all seven values, as the last one cannot be missing. -/
theorem reads_list_iff {items : List Raw} :
    (∃ f, (Raw.list items).fields? payloadNames true = some f ∧ Reads f t) ↔
      Spells t (.list items) := by
  constructor
  · rintro ⟨f, hfields, hreads⟩
    simp only [Raw.fields?] at hfields
    split_ifs at hfields with hlength
    cases hfields
    have hlast := hreads.id
    obtain _ | ⟨p, _ | ⟨s, _ | ⟨f, _ | ⟨u, _ | ⟨n, _ | ⟨m, _ | ⟨i, rest⟩⟩⟩⟩⟩⟩⟩ := items
    case cons.cons.cons.cons.cons.cons.cons =>
      have hnone : rest.length = 0 := by
        simp only [payloadNames, List.length_cons, List.length_nil] at hlength
        omega
      obtain rfl := List.length_eq_zero_iff.1 hnone
      exact .list p s f u n m i hreads.metadataPrefix hreads.set hreads.since hreads.upTo
        hreads.typeIndex hreads.modified hreads.id
    all_goals cases hlast
  · rintro (_ | ⟨p, s, f, u, n, m, i, hp, hs, hf, hu, hn, hm, hi⟩)
    exact ⟨_, rfl, hp, hs, hf, hu, hn, hm, hi⟩

/-- **Nothing is read as a token but what spells it.** -/
theorem ofPayload?_eq_some_iff : ofPayload? r = some t ↔ Spells t r := by
  rw [ofPayload?_eq_some_iff_reads]
  cases r with
  | null => exact iff_of_false (by simp [Raw.fields?]) nofun
  | bool b => exact iff_of_false (by simp [Raw.fields?]) nofun
  | number n => exact iff_of_false (by simp [Raw.fields?]) nofun
  | text s => exact iff_of_false (by simp [Raw.fields?]) nofun
  | list items => exact reads_list_iff
  | object members =>
    constructor
    · rintro ⟨f, hfields, hreads⟩
      obtain ⟨given, rfl, hnodup, hknown, rfl⟩ := fields?_object_eq_some_iff.1 hfields
      exact .object given hnodup hknown ((required_eq_some_iff hnodup).1 hreads.metadataPrefix)
        ((defaulted_eq_some_iff hnodup).1 hreads.set)
        ((defaulted_eq_some_iff hnodup).1 hreads.since)
        ((defaulted_eq_some_iff hnodup).1 hreads.upTo)
        ((required_eq_some_iff hnodup).1 hreads.typeIndex)
        ((required_eq_some_iff hnodup).1 hreads.modified)
        ((required_eq_some_iff hnodup).1 hreads.id)
    · rintro ⟨given, hnodup, hknown, hp, hs, hf, hu, ht, hm, hi⟩
      refine ⟨_, fields?_object_eq_some_iff.2 ⟨given, rfl, hnodup, hknown, rfl⟩, ?_⟩
      exact ⟨(required_eq_some_iff hnodup).2 hp, (defaulted_eq_some_iff hnodup).2 hs,
        (defaulted_eq_some_iff hnodup).2 hf, (defaulted_eq_some_iff hnodup).2 hu,
        (required_eq_some_iff hnodup).2 ht, (required_eq_some_iff hnodup).2 hm,
        (required_eq_some_iff hnodup).2 hi⟩

/-! ### Bytes -/

variable {c : Codec} {encoded : String} {bytes : List UInt8}

/-- Bytes are one JSON text, which spells a token that names a format. -/
def IsPayload (t : ResumptionToken) (bytes : List UInt8) : Prop :=
  ∃ text r, textOf? bytes = some text ∧ Raw.ofText? text = some r ∧ Spells t r ∧
    t.metadataPrefix ≠ ""

theorem decodePayload_eq_ok_iff : c.decodePayload encoded = .ok t ↔
    ∃ bytes, Base64.decode (bytesOf encoded) = .ok bytes ∧ IsPayload t bytes := by
  have hread : ∀ bytes, (textOf? bytes >>= Raw.ofText? >>= ofPayload?) = some t ↔
      ∃ text r, textOf? bytes = some text ∧ Raw.ofText? text = some r ∧ Spells t r := by
    intro bytes
    simp only [Option.bind_eq_bind, Option.bind_eq_some_iff, ofPayload?_eq_some_iff]
    constructor
    · rintro ⟨r, ⟨text, htext, hr⟩, hspells⟩
      exact ⟨text, r, htext, hr, hspells⟩
    · rintro ⟨text, r, htext, hr, hspells⟩
      exact ⟨r, ⟨text, htext, hr⟩, hspells⟩
  unfold decodePayload
  cases hbytes : Base64.decode (bytesOf encoded) with
  | error flaw => simp
  | ok bytes =>
    simp only [Except.ok.injEq, exists_eq_left', IsPayload]
    constructor
    · intro h
      split at h
      · cases h
      · rename_i u hu
        split_ifs at h with hempty
        cases h
        obtain ⟨text, r, htext, hr, hspells⟩ := (hread bytes).1 hu
        exact ⟨text, r, htext, hr, hspells, fun hname => hempty (by rw [hname]; rfl)⟩
    · rintro ⟨text, r, htext, hr, hspells, hname⟩
      have hnonempty : t.metadataPrefix.isEmpty = false := String.isEmpty_eq_false_iff.2 hname
      simp only [(hread bytes).2 ⟨text, r, htext, hr, hspells⟩, hnonempty]
      rfl

end Codec

/-- What is said of bytes that do not begin with a JSON value. -/
def plainWords : Explanation := fun bytes =>
  if bytes.isEmpty then "EOF while parsing a value at line 1 column 0"
  else "expected value at line 1 column 1"

end Harvest
