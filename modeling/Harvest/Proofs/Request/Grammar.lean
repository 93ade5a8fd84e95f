import Harvest.OrderedMap
import Harvest.Proofs.Request
import Mathlib.Data.List.Induction
import Mathlib.Data.List.Nodup
import Mathlib.Data.List.Perm.Basic

/-!
# The grammar of requests

A query is a list of pairs, in any order and with any repetitions.  Taking them in one after the
other keeps the first value of every argument (`Request.value?_ofPairs`), and remembers what came
twice (`Request.mem_repeated_ofPairs`) and what is no argument (`Request.mem_unknown_ofPairs`).

`Verb.Takes` is the grammar of the protocol: which keys a verb takes beside its own.  Validation
accepts exactly the queries that follow it and have no key twice, faults of the verb are told apart
from all others, and the order of the pairs does not matter (`Request.validate_ofPairs`).
-/

namespace Harvest

/-! ### The grammar -/

/-- The keys that may stand in a query, in canonical order. -/
def knownKeys : List String :=
  ["verb", "identifier", "metadataPrefix", "from", "until", "set", "resumptionToken"]

/-- The keys of a query. -/
def keysOf (pairs : List (String × String)) : List String := pairs.map Prod.fst

/-- Which keys a verb takes beside its own. -/
def Verb.Takes (keys : List String) : Verb → Prop
  | .identify => keys = []
  | .listMetadataFormats => keys = [] ∨ keys = ["identifier"]
  | .listSets => keys = [] ∨ keys = ["resumptionToken"]
  | .getRecord => keys.Perm ["identifier", "metadataPrefix"]
  | .listIdentifiers | .listRecords => keys = ["resumptionToken"] ∨
      "metadataPrefix" ∈ keys ∧ keys ⊆ ["metadataPrefix", "from", "until", "set"]

/-- A query follows the grammar of a verb. -/
structure Verb.Fits (v : Verb) (pairs : List (String × String)) : Prop where
  named : ("verb", v.name) ∈ pairs
  nodup : (keysOf pairs).Nodup
  known : keysOf pairs ⊆ knownKeys
  takes : v.Takes ((keysOf pairs).filter (· ≠ "verb"))

/-- A query has no verb, several, or one that is none of the six. -/
def LacksVerb (pairs : List (String × String)) : Prop :=
  (keysOf pairs).count "verb" ≠ 1 ∨ ∃ name, ("verb", name) ∈ pairs ∧ ∀ v : Verb, v.name ≠ name

/-! ### Arguments and their names -/

namespace Argument

theorem ofName?_eq_some_iff {name : String} {a : Argument} :
    ofName? name = some a ↔ name = a.name := by
  constructor
  · intro h
    simpa [eq_comm] using List.find?_some h
  · rintro rfl
    cases a <;> rfl

theorem name_inj {a b : Argument} : a.name = b.name ↔ a = b := by
  rw [← ofName?_eq_some_iff, ofName?_eq_some_iff.2 rfl, Option.some.injEq]

theorem mem_all (a : Argument) : a ∈ all := by
  cases a <;> decide

theorem map_name_all : all.map name = knownKeys := rfl

theorem mem_knownKeys_iff {key : String} : key ∈ knownKeys ↔ ∃ a : Argument, key = a.name := by
  rw [← map_name_all, List.mem_map]
  exact ⟨fun ⟨a, _, ha⟩ => ⟨a, ha.symm⟩, fun ⟨a, ha⟩ => ⟨a, a.mem_all, ha.symm⟩⟩

end Argument

namespace Request

open Argument (ofName?_eq_some_iff name_inj)

variable {pairs : List (String × String)} {a : Argument} {v : Verb}

/-! ### Taking in one pair -/

theorem value?_addPair (r : Request) (key value : String) (a : Argument) :
    (r.addPair key value).value? a =
      (r.value? a).or (if key = a.name then some value else none) := by
  unfold addPair
  cases hname : Argument.ofName? key with
  | none =>
    have hne : key ≠ a.name := fun h => by simp [ofName?_eq_some_iff.2 h] at hname
    rw [if_neg hne, Option.or_none]
    cases a <;> rfl
  | some b =>
    obtain rfl := ofName?_eq_some_iff.1 hname
    simp only [name_inj]
    split_ifs with hsome hba hba
    · subst hba
      obtain ⟨w, hw⟩ := Option.isSome_iff_exists.1 hsome
      rw [hw]
      cases b <;> exact hw
    · rw [Option.or_none]
      cases a <;> rfl
    · subst hba
      rw [value?_withValue, if_pos rfl, Option.not_isSome_iff_eq_none.1 hsome, Option.none_or]
    · rw [value?_withValue, if_neg (Ne.symm hba), Option.or_none]

theorem mem_repeated_addPair {r : Request} {key value : String} {a : Argument} :
    a ∈ (r.addPair key value).repeated ↔
      a ∈ r.repeated ∨ key = a.name ∧ (r.value? a).isSome := by
  unfold addPair
  cases hname : Argument.ofName? key with
  | none =>
    have hne : key ≠ a.name := fun h => by simp [ofName?_eq_some_iff.2 h] at hname
    simp [hne]
  | some b =>
    obtain rfl := ofName?_eq_some_iff.1 hname
    simp only [name_inj]
    split_ifs with hsome
    · rw [List.mem_append, List.mem_singleton]
      refine or_congr_right ⟨?_, fun h => h.1.symm⟩
      rintro rfl
      exact ⟨rfl, hsome⟩
    · rw [repeated_withValue, or_iff_left]
      rintro ⟨rfl, h⟩
      exact hsome h

theorem mem_unknown_addPair {r : Request} {key value name : String} :
    name ∈ (r.addPair key value).unknown ↔ name ∈ r.unknown ∨ key = name ∧ name ∉ knownKeys := by
  unfold addPair
  cases hname : Argument.ofName? key with
  | none =>
    have hkey : key ∉ knownKeys := by
      rw [Argument.mem_knownKeys_iff]
      rintro ⟨a, ha⟩
      simp [ofName?_eq_some_iff.2 ha] at hname
    rw [List.mem_append, List.mem_singleton]
    refine or_congr_right ⟨?_, fun h => h.1.symm⟩
    rintro rfl
    exact ⟨rfl, hkey⟩
  | some b =>
    have hkey : key ∈ knownKeys := Argument.mem_knownKeys_iff.2 ⟨b, ofName?_eq_some_iff.1 hname⟩
    have hnot : ¬ (key = name ∧ name ∉ knownKeys) := by
      rintro ⟨rfl, h⟩
      exact h hkey
    rw [or_iff_left hnot]
    dsimp only
    split_ifs
    · rfl
    · rw [unknown_withValue]

/-! ### Taking in all pairs -/

theorem ofPairs_append_singleton (pairs : List (String × String)) (p : String × String) :
    ofPairs (pairs ++ [p]) = (ofPairs pairs).addPair p.1 p.2 := by
  rw [ofPairs, List.foldl_append]
  rfl

theorem keysOf_append_singleton (pairs : List (String × String)) (p : String × String) :
    keysOf (pairs ++ [p]) = keysOf pairs ++ [p.1] := List.map_append

/-- The first value of an argument counts. -/
theorem value?_ofPairs (pairs : List (String × String)) (a : Argument) :
    (ofPairs pairs).value? a = OrderedMap.look a.name pairs := by
  induction pairs using List.reverseRecOn with
  | nil => cases a <;> rfl
  | append_singleton pairs p ih =>
    rw [ofPairs_append_singleton, value?_addPair, ih, OrderedMap.look_append]
    rfl

/-- Where no key comes twice, an argument has the one value that is given for it. -/
theorem value?_ofPairs_eq_some_iff (hnodup : (keysOf pairs).Nodup) {value : String} :
    (ofPairs pairs).value? a = some value ↔ (a.name, value) ∈ pairs := by
  rw [value?_ofPairs]
  exact ⟨OrderedMap.mem_of_look, OrderedMap.look_of_mem hnodup⟩

theorem isSome_value?_ofPairs : ((ofPairs pairs).value? a).isSome ↔ a.name ∈ keysOf pairs := by
  rw [value?_ofPairs, ← Option.ne_none_iff_isSome, ne_eq, OrderedMap.look_eq_none_iff,
    Classical.not_not]
  rfl

theorem mem_repeated_ofPairs : a ∈ (ofPairs pairs).repeated ↔ 1 < (keysOf pairs).count a.name := by
  induction pairs using List.reverseRecOn with
  | nil => simp [ofPairs, keysOf]
  | append_singleton pairs p ih =>
    rw [ofPairs_append_singleton, mem_repeated_addPair, ih, isSome_value?_ofPairs,
      keysOf_append_singleton, List.count_append, List.count_singleton, ← List.count_pos_iff]
    by_cases hp : p.1 = a.name
    · simp only [hp, true_and, BEq.rfl, if_true]
      omega
    · simp [hp]

theorem mem_unknown_ofPairs {name : String} :
    name ∈ (ofPairs pairs).unknown ↔ name ∈ keysOf pairs ∧ name ∉ knownKeys := by
  induction pairs using List.reverseRecOn with
  | nil => simp [ofPairs, keysOf]
  | append_singleton pairs p ih =>
    rw [ofPairs_append_singleton, mem_unknown_addPair, ih, keysOf_append_singleton,
      List.mem_append, List.mem_singleton, or_and_right]
    simp only [eq_comm]

theorem repeated_eq_nil_and_unknown_eq_nil_iff :
    (ofPairs pairs).repeated = [] ∧ (ofPairs pairs).unknown = [] ↔
      (keysOf pairs).Nodup ∧ keysOf pairs ⊆ knownKeys := by
  have hunknown : (ofPairs pairs).unknown = [] ↔ keysOf pairs ⊆ knownKeys := by
    simp only [List.eq_nil_iff_forall_not_mem, mem_unknown_ofPairs, not_and_not_right]
    rfl
  rw [hunknown]
  refine and_congr_left fun hknown => ?_
  simp only [List.eq_nil_iff_forall_not_mem, mem_repeated_ofPairs, Nat.not_lt,
    List.nodup_iff_count_le_one]
  constructor
  · intro h key
    by_cases hkey : key ∈ keysOf pairs
    · obtain ⟨a, rfl⟩ := Argument.mem_knownKeys_iff.1 (hknown hkey)
      exact h a
    · rw [List.count_eq_zero_of_not_mem hkey]
      exact Nat.zero_le 1
  · exact fun h a => h a.name

/-! ### Accepted queries -/

theorem require_eq_ok_iff {q : Request} : q.require a = .ok () ↔ (q.value? a).isSome := by
  unfold require
  split_ifs with h <;> simp [h]

theorem exists_of_getRecord {q : Request} (h : q.validate = .ok .getRecord) :
    ∃ identifier m, q.identifier = some identifier ∧ q.metadataPrefix = some m := by
  obtain ⟨-, -, -, -, hrequire⟩ := validate_eq_ok_iff.1 h
  obtain ⟨_, hidentifier, hformat⟩ := bind_eq_ok_iff.1 hrequire
  obtain ⟨identifier, hidentifier⟩ := Option.isSome_iff_exists.1 (require_eq_ok_iff.1 hidentifier)
  obtain ⟨m, hm⟩ := Option.isSome_iff_exists.1 (require_eq_ok_iff.1 hformat)
  exact ⟨identifier, m, hidentifier, hm⟩

theorem nodup_present (q : Request) : q.present.Nodup := by
  have hall : Argument.all.Nodup := by decide
  exact hall.filter _

theorem name_injective : Function.Injective Argument.name := fun _ _ => name_inj.1

theorem map_name_present_perm (hnodup : (keysOf pairs).Nodup) (hknown : keysOf pairs ⊆ knownKeys) :
    ((ofPairs pairs).present.map Argument.name).Perm ((keysOf pairs).filter (· ≠ "verb")) := by
  rw [List.perm_ext_iff_of_nodup ((nodup_present _).map name_injective) (hnodup.filter _)]
  intro key
  simp only [List.mem_map, mem_present_iff, isSome_value?_ofPairs, List.mem_filter]
  constructor
  · rintro ⟨a, ⟨hne, hmem⟩, rfl⟩
    refine ⟨hmem, decide_eq_true fun h => hne ?_⟩
    exact name_injective h
  · rintro ⟨hmem, hne⟩
    obtain ⟨a, rfl⟩ := Argument.mem_knownKeys_iff.1 (hknown hmem)
    refine ⟨a, ⟨?_, hmem⟩, rfl⟩
    rintro rfl
    exact of_decide_eq_true hne rfl

theorem takes_congr {keys keys' : List String} (h : keys.Perm keys') :
    v.Takes keys ↔ v.Takes keys' := by
  have hnil : keys = [] ↔ keys' = [] := by
    rw [← List.perm_nil, ← List.perm_nil]
    exact h.congr_left _
  have hone : ∀ key, keys = [key] ↔ keys' = [key] := fun key => by
    rw [← List.perm_singleton, ← List.perm_singleton]
    exact h.congr_left _
  have hlisting : ("metadataPrefix" ∈ keys ∧ keys ⊆ ["metadataPrefix", "from", "until", "set"]) ↔
      "metadataPrefix" ∈ keys' ∧ keys' ⊆ ["metadataPrefix", "from", "until", "set"] :=
    and_congr h.mem_iff ⟨List.Subset.trans h.symm.subset, List.Subset.trans h.subset⟩
  cases v with
  | identify => exact hnil
  | listMetadataFormats => exact or_congr hnil (hone _)
  | listSets => exact or_congr hnil (hone _)
  | getRecord => exact h.congr_left _
  | listIdentifiers => exact or_congr (hone _) hlisting
  | listRecords => exact or_congr (hone _) hlisting

theorem forall_mem_singleton_iff {l : List Argument} (hl : l.Nodup) :
    (∀ b ∈ l, b ∈ [a]) ↔ l = [] ∨ l = [a] := by
  constructor
  · intro h
    obtain ⟨n, rfl⟩ := List.subset_singleton_iff.1 h
    have hn : n ≤ 1 := List.nodup_replicate.1 hl
    rcases Nat.le_one_iff_eq_zero_or_eq_one.1 hn with rfl | rfl
    · exact .inl rfl
    · exact .inr rfl
  · rintro (rfl | rfl)
    · exact nofun
    · exact fun _ h => h

/-- What a listing takes: its token alone, or else a format with some limits. -/
theorem takes_listing_iff (q : Request) :
    (q.present.map Argument.name = ["resumptionToken"] ∨
        "metadataPrefix" ∈ q.present.map Argument.name ∧
          q.present.map Argument.name ⊆ ["metadataPrefix", "from", "until", "set"]) ↔
      (∀ a ∈ q.present, a ∈ [Argument.metadataPrefix, .since, .upTo, .set, .resumptionToken]) ∧
        (if q.resumptionToken.isSome then
          if q.present.length > 1 then Except.error Fault.tokenIsExclusive else .ok ()
        else q.require .metadataPrefix) = .ok () := by
  have halone : q.present.map Argument.name = ["resumptionToken"] ↔
      q.present = [.resumptionToken] :=
    @List.map_inj_right _ _ _ [.resumptionToken] _ fun _ _ => name_inj.1
  have hprefix : "metadataPrefix" ∈ q.present.map Argument.name ↔ .metadataPrefix ∈ q.present :=
    List.mem_map_of_injective (a := Argument.metadataPrefix) name_injective
  have hlimits : q.present.map Argument.name ⊆ ["metadataPrefix", "from", "until", "set"] ↔
      ∀ a ∈ q.present, a ∈ [Argument.metadataPrefix, .since, .upTo, .set] :=
    @List.map_subset_iff _ _ _ [.metadataPrefix, .since, .upTo, .set] _ name_injective
  rw [halone, hprefix, hlimits]
  by_cases htoken : Argument.resumptionToken ∈ q.present
  · have hsome : q.resumptionToken.isSome := (mem_present_iff.1 htoken).2
    have hnot : ¬ ∀ a ∈ q.present, a ∈ [Argument.metadataPrefix, .since, .upTo, .set] := fun h => by
      simpa using h _ htoken
    rw [if_pos hsome, or_iff_left fun h => hnot h.2]
    constructor
    · intro h
      simp [h]
    · rintro ⟨-, hlength⟩
      have hle : q.present.length ≤ 1 := by
        by_contra hlong
        rw [if_pos (Nat.lt_of_not_le hlong)] at hlength
        cases hlength
      have hone : q.present.length = 1 := Nat.le_antisymm hle (List.length_pos_of_mem htoken)
      obtain ⟨a, ha⟩ := List.length_eq_one_iff.1 hone
      rw [ha, List.mem_singleton] at htoken
      rw [ha, htoken]
  · have hnone : ¬ q.resumptionToken.isSome = true := fun h => htoken (mem_present_iff.2 ⟨nofun, h⟩)
    have hne : q.present ≠ [.resumptionToken] := fun h => htoken (by simp [h])
    have hmem : Argument.metadataPrefix ∈ q.present ↔ (q.value? .metadataPrefix).isSome :=
      mem_present_iff.trans (and_iff_right nofun)
    rw [if_neg hnone, require_eq_ok_iff, or_iff_right hne, hmem, and_comm]
    refine and_congr_left fun _ => forall₂_congr fun a ha => ?_
    have hne : a ≠ .resumptionToken := by
      rintro rfl
      exact htoken ha
    simp [hne]

theorem takes_present_iff (q : Request) : v.Takes (q.present.map Argument.name) ↔
    (∀ a ∈ q.present, a ∈ v.allowed) ∧ q.requireFor v = .ok () := by
  have hmap : ∀ l, q.present.map Argument.name = l.map Argument.name ↔ q.present = l := fun _ =>
    List.map_inj_right fun _ _ => name_inj.1
  have hsingle : ∀ a, q.present.map Argument.name = [] ∨ q.present.map Argument.name = [a.name] ↔
      (∀ b ∈ q.present, b ∈ [a]) := fun a => by
    rw [forall_mem_singleton_iff (nodup_present q)]
    exact or_congr (hmap []) (hmap [a])
  cases v with
  | identify => simp [Verb.Takes, Verb.allowed, requireFor, List.eq_nil_iff_forall_not_mem]
  | listMetadataFormats => exact (hsingle .identifier).trans (and_iff_left rfl).symm
  | listSets => exact (hsingle .resumptionToken).trans (and_iff_left rfl).symm
  | getRecord =>
    have hboth : q.requireFor .getRecord = .ok () ↔
        Argument.identifier ∈ q.present ∧ Argument.metadataPrefix ∈ q.present := by
      simp only [requireFor, bind_eq_ok_iff, require_eq_ok_iff, mem_present_iff]
      constructor
      · rintro ⟨_, hidentifier, hprefix⟩
        exact ⟨⟨by decide, require_eq_ok_iff.1 hidentifier⟩, by decide, hprefix⟩
      · rintro ⟨⟨-, hidentifier⟩, -, hprefix⟩
        exact ⟨(), require_eq_ok_iff.2 hidentifier, hprefix⟩
    have hperm : Verb.getRecord.Takes (q.present.map Argument.name) ↔
        q.present.Perm [.identifier, .metadataPrefix] :=
      @List.map_perm_map_iff _ _ q.present [.identifier, .metadataPrefix] _ name_injective
    rw [hperm, hboth, List.perm_ext_iff_of_nodup (nodup_present q) (by decide)]
    constructor
    · intro h
      exact ⟨fun a ha => (h a).1 ha, (h _).2 (by decide), (h _).2 (by decide)⟩
    · rintro ⟨hallowed, hidentifier, hprefix⟩ a
      refine ⟨hallowed a, fun ha => ?_⟩
      rcases List.mem_pair.1 ha with rfl | rfl
      · exact hidentifier
      · exact hprefix
  | listIdentifiers => exact takes_listing_iff q
  | listRecords => exact takes_listing_iff q

theorem validate_eq_ok_iff_fits : (ofPairs pairs).validate = .ok v ↔ v.Fits pairs := by
  have hkeys := @repeated_eq_nil_and_unknown_eq_nil_iff pairs
  rw [validate_eq_ok_iff]
  constructor
  · rintro ⟨hverb, hrepeated, hunknown, htakes⟩
    obtain ⟨hnodup, hknown⟩ := hkeys.1 ⟨hrepeated, hunknown⟩
    have hnamed := (value?_ofPairs_eq_some_iff (a := .verb) hnodup).1 hverb
    exact ⟨hnamed, hnodup, hknown,
      (takes_congr (map_name_present_perm hnodup hknown)).1 ((takes_present_iff _).2 htakes)⟩
  · rintro ⟨hnamed, hnodup, hknown, htakes⟩
    obtain ⟨hrepeated, hunknown⟩ := hkeys.2 ⟨hnodup, hknown⟩
    have hverb := (value?_ofPairs_eq_some_iff (a := .verb) hnodup).2 hnamed
    exact ⟨hverb, hrepeated, hunknown,
      (takes_present_iff _).1 ((takes_congr (map_name_present_perm hnodup hknown)).2 htakes)⟩

/-! ### Rejected queries -/

theorem kind_of_ofName_eq_error {name : String} {f : Fault} (h : Verb.ofName name = .error f) :
    f.kind = .badVerb := by
  unfold Verb.ofName at h
  cases hname : Verb.ofName? name with
  | some u => simp [hname] at h
  | none =>
    rw [hname] at h
    cases h
    rfl

theorem kind_of_require_eq_error {q : Request} {f : Fault} (h : q.require a = .error f) :
    f.kind = .badArgument := by
  unfold require at h
  split_ifs at h
  cases h
  rfl

theorem kind_of_requireFor_eq_error {q : Request} {f : Fault} (h : q.requireFor v = .error f) :
    f.kind = .badArgument := by
  have hlisting : (if q.resumptionToken.isSome then
      if q.present.length > 1 then Except.error Fault.tokenIsExclusive else .ok ()
      else q.require .metadataPrefix) = .error f → f.kind = .badArgument := by
    intro h
    split_ifs at h
    · cases h
      rfl
    · exact kind_of_require_eq_error h
  cases v with
  | identify => cases h
  | listMetadataFormats => cases h
  | listSets => cases h
  | getRecord =>
    rw [requireFor] at h
    cases hidentifier : q.require .identifier with
    | error g =>
      rw [hidentifier] at h
      cases h
      exact kind_of_require_eq_error hidentifier
    | ok u =>
      rw [hidentifier] at h
      exact kind_of_require_eq_error h
  | listIdentifiers => exact hlisting h
  | listRecords => exact hlisting h

theorem kind_of_verbOnce_eq_error {q : Request} {f : Fault} (h : q.verbOnce = .error f) :
    f.kind = .badVerb := by
  unfold verbOnce at h
  split_ifs at h
  · cases h
    rfl
  · cases hverb : q.verb with
    | none =>
      rw [hverb] at h
      cases h
      rfl
    | some name =>
      rw [hverb] at h
      exact kind_of_ofName_eq_error h

theorem kind_of_fit_eq_error {q : Request} {f : Fault} (h : q.fit v = .error f) :
    f.kind = .badArgument := by
  unfold fit at h
  split at h
  · cases h
    rfl
  · cases h
    rfl
  · cases h
    rfl
  · exact kind_of_requireFor_eq_error h

/-- A fault is the verb's exactly if the verb comes twice, is missing or is none of the six; any
other fault is one of the arguments. -/
theorem kind_of_validate_eq_error {q : Request} {f : Fault} (h : q.validate = .error f) :
    f.kind = .badVerb ∧ (∀ v, q.verbOnce ≠ .ok v) ∨
      f.kind = .badArgument ∧ ∃ v, q.verbOnce = .ok v := by
  rw [validate_eq] at h
  cases hverb : q.verbOnce with
  | error g =>
    rw [hverb] at h
    cases h
    exact .inl ⟨kind_of_verbOnce_eq_error hverb, nofun⟩
  | ok v =>
    rw [hverb, ok_bind] at h
    cases hfit : q.fit v with
    | error g =>
      rw [hfit] at h
      cases h
      exact .inr ⟨kind_of_fit_eq_error hfit, v, rfl⟩
    | ok u =>
      rw [hfit] at h
      cases h

theorem exists_badVerb_iff {q : Request} :
    (∃ f, q.validate = .error f ∧ f.kind = .badVerb) ↔ ∀ v, q.verbOnce ≠ .ok v := by
  constructor
  · rintro ⟨f, hf, hkind⟩
    rcases kind_of_validate_eq_error hf with ⟨-, h⟩ | ⟨hargument, -⟩
    · exact h
    · simp [hkind] at hargument
  · intro h
    cases hverb : q.verbOnce with
    | ok v => exact absurd hverb (h v)
    | error f => exact ⟨f, by rw [validate_eq, hverb]; rfl, kind_of_verbOnce_eq_error hverb⟩

theorem eq_of_count_eq_one {key value value' : String} (h : (keysOf pairs).count key = 1)
    (hmem : (key, value) ∈ pairs) (hmem' : (key, value') ∈ pairs) : value = value' := by
  have hlength : (pairs.filter (·.1 = key)).length = 1 := by
    rw [← List.countP_eq_length_filter, ← h, keysOf, List.count, List.countP_map]
    exact List.countP_congr fun e _ => by simp
  obtain ⟨e, he⟩ := List.length_eq_one_iff.1 hlength
  have hone : ∀ w, (key, w) ∈ pairs → (key, w) = e := fun w hw =>
    List.mem_singleton.1 (he ▸ List.mem_filter.2 ⟨hw, decide_eq_true rfl⟩)
  exact congrArg Prod.snd ((hone value hmem).trans (hone value' hmem').symm)

theorem lacksVerb_iff : LacksVerb pairs ↔ ∀ v, (ofPairs pairs).verbOnce ≠ .ok v := by
  have hrepeated : Argument.verb ∈ (ofPairs pairs).repeated ↔ 1 < (keysOf pairs).count "verb" :=
    mem_repeated_ofPairs
  have hverb : (ofPairs pairs).verb = OrderedMap.look "verb" pairs := value?_ofPairs pairs .verb
  simp only [ne_eq, verbOnce_eq_ok_iff, hrepeated, hverb, not_and', Classical.not_not, LacksVerb]
  cases hlook : OrderedMap.look "verb" pairs with
  | none =>
    have hzero : (keysOf pairs).count "verb" = 0 :=
      List.count_eq_zero_of_not_mem (OrderedMap.look_eq_none_iff.1 hlook)
    simp [hzero]
  | some name =>
    have hmem : ("verb", name) ∈ pairs := OrderedMap.mem_of_look hlook
    have hpos : 0 < (keysOf pairs).count "verb" := List.count_pos_iff.2 (List.mem_map_of_mem hmem)
    by_cases hone : (keysOf pairs).count "verb" = 1
    · constructor
      · rintro (hnot | ⟨other, hother, hnone⟩) v hv
        · exact absurd hone hnot
        · exact absurd ((Option.some.inj hv).symm.trans (eq_of_count_eq_one hone hmem hother))
            (hnone v)
      · refine fun h => .inr ⟨name, hmem, fun v hv => ?_⟩
        have htwice := h v (congrArg some hv.symm)
        omega
    · exact iff_of_true (.inl hone) fun _ _ => by omega

/-! ### Reordered queries -/

theorem fits_congr {pairs' : List (String × String)} (h : pairs.Perm pairs') :
    v.Fits pairs → v.Fits pairs' := by
  have hkeys : (keysOf pairs).Perm (keysOf pairs') := h.map _
  rintro ⟨hnamed, hnodup, hknown, htakes⟩
  exact ⟨h.mem_iff.1 hnamed, hkeys.nodup_iff.1 hnodup, List.Subset.trans hkeys.symm.subset hknown,
    (takes_congr (hkeys.filter _)).1 htakes⟩

theorem mem_arguments_iff {q : Request} {value : String} :
    (a, value) ∈ q.arguments ↔ q.value? a = some value := by
  simp [arguments, a.mem_all]

theorem map_name_arguments_sublist (q : Request) :
    (q.arguments.map fun e => e.1.name).Sublist knownKeys := by
  rw [arguments, ← Argument.map_name_all]
  induction Argument.all with
  | nil => exact .slnil
  | cons a as ih =>
    cases hvalue : q.value? a with
    | none => simpa [hvalue] using ih.cons a.name
    | some w => simpa [hvalue] using ih.cons_cons a.name

theorem arguments_perm (hnodup : (keysOf pairs).Nodup) (hknown : keysOf pairs ⊆ knownKeys) :
    ((ofPairs pairs).arguments.map fun e => (e.1.name, e.2)).Perm pairs := by
  have hleft : ((ofPairs pairs).arguments.map fun e => (e.1.name, e.2)).Nodup := by
    refine List.Nodup.of_map Prod.fst ?_
    rw [List.map_map]
    exact (map_name_arguments_sublist _).nodup (by decide)
  rw [List.perm_ext_iff_of_nodup hleft (hnodup.of_map _)]
  rintro ⟨key, value⟩
  constructor
  · intro h
    obtain ⟨⟨a, w⟩, hmem, heq⟩ := List.mem_map.1 h
    obtain ⟨rfl, rfl⟩ := Prod.mk.inj heq
    exact (value?_ofPairs_eq_some_iff hnodup).1 (mem_arguments_iff.1 hmem)
  · intro h
    obtain ⟨a, rfl⟩ := Argument.mem_knownKeys_iff.1 (hknown (List.mem_map_of_mem h))
    refine List.mem_map.2 ⟨(a, value), ?_, rfl⟩
    exact mem_arguments_iff.2 ((value?_ofPairs_eq_some_iff hnodup).2 h)

theorem arguments_congr {pairs' : List (String × String)} (h : pairs.Perm pairs')
    (hnodup : (keysOf pairs).Nodup) : (ofPairs pairs).arguments = (ofPairs pairs').arguments := by
  have hnodup' : (keysOf pairs').Nodup := (h.map _).nodup_iff.1 hnodup
  have hvalue : ∀ a, (ofPairs pairs).value? a = (ofPairs pairs').value? a := fun a =>
    Option.ext fun value => by
      rw [value?_ofPairs_eq_some_iff hnodup, value?_ofPairs_eq_some_iff hnodup', h.mem_iff]
  simp only [arguments, hvalue]

/-- **Validation accepts exactly the grammar of the protocol.**  A query is accepted for a verb if
and only if it follows the verb's grammar.  It is a fault of the verb if and only if the query has
no verb, several, or one that is none of the six; every other rejected query is a fault of its
arguments.  The arguments of an accepted query are its pairs in canonical order, and its pairs may
come in any order. -/
theorem validate_ofPairs (pairs : List (String × String)) :
    (∀ v, (ofPairs pairs).validate = .ok v ↔ v.Fits pairs) ∧
    ((∃ f, (ofPairs pairs).validate = .error f ∧ f.kind = .badVerb) ↔ LacksVerb pairs) ∧
    (∀ f, (ofPairs pairs).validate = .error f → ¬ LacksVerb pairs → f.kind = .badArgument) ∧
    ∀ v, (ofPairs pairs).validate = .ok v →
      ((ofPairs pairs).arguments.map fun e => (e.1.name, e.2)).Perm pairs ∧
      (((ofPairs pairs).arguments.map fun e => e.1.name).Sublist knownKeys) ∧
      ∀ pairs', pairs'.Perm pairs → (ofPairs pairs').validate = .ok v ∧
        (ofPairs pairs').arguments = (ofPairs pairs).arguments := by
  refine ⟨fun v => validate_eq_ok_iff_fits, exists_badVerb_iff.trans lacksVerb_iff.symm, ?_, ?_⟩
  · intro f hf hverb
    rcases kind_of_validate_eq_error hf with ⟨-, h⟩ | ⟨hkind, -⟩
    · exact absurd (lacksVerb_iff.2 h) hverb
    · exact hkind
  · intro v hv
    have hfits := validate_eq_ok_iff_fits.1 hv
    refine ⟨arguments_perm hfits.nodup hfits.known, map_name_arguments_sublist _, ?_⟩
    intro pairs' hperm
    exact ⟨validate_eq_ok_iff_fits.2 (fits_congr hperm.symm hfits),
      (arguments_congr hperm.symm hfits.nodup).symm⟩

/-- A listing of a set, with its arguments out of order, is accepted; a second verb is not. -/
theorem fits_listing_of_set :
    Verb.listRecords.Fits
        [("set", "houghton"), ("verb", "ListRecords"), ("metadataPrefix", "oai_dc")] ∧
      LacksVerb [("verb", "Identify"), ("verb", "Identify")] :=
  ⟨((validate_ofPairs _).1 _).1 (by decide),
    (validate_ofPairs _).2.1.1 ⟨.repeatedVerb, by decide, by decide⟩⟩

end Request

end Harvest
