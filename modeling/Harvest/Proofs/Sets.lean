import Harvest.Sets
import Mathlib.Data.List.Nodup
import Mathlib.Tactic.SplitIfs

/-!
# Members of sets

A record's sets are found by going through the named sets and looking at its level.  A listing goes
the other way: it resolves one name and applies the rule.  Both agree
(`SetDirectory.mem_memberships_iff`), and so does the list of all sets, which is put together in a
third place (`SetDirectory.mem_specs_iff`).

Names of named sets are distinct and hide levels of the same name.  But nothing keeps the settings
from giving a level twice, and then **the list has it twice** (`SetDirectory.nodup_specs_iff`).  The
sets of a record are never repeated all the same, and stand in the order of the list
(`SetDirectory.memberships_in_order`).
-/

namespace Harvest.SetDirectory

variable {d : SetDirectory} {r : Record} {name : String} {rule : SetRule}

/-- A name stands for a named set, or else for a level. -/
theorem resolve_eq_ok_iff : d.resolve name = .ok rule ↔
    (∃ e, d.named.find? name = some e ∧ rule = e.rule) ∨
      d.named.find? name = none ∧ name ∈ d.levels ∧ rule = .level name := by
  unfold resolve
  cases d.named.find? name with
  | some e => simp [eq_comm]
  | none =>
    by_cases hlevel : name ∈ d.levels <;> simp [hlevel, eq_comm]

theorem resolve_eq_error {f : Fault} (h : d.resolve name = .error f) : f = .unknownSet name := by
  unfold resolve at h
  split at h
  · cases h
  · split_ifs at h
    exact (Except.error.inj h).symm

theorem levelSet?_eq_some_iff : d.levelSet? r = some name ↔
    d.named.find? name = none ∧ name ∈ d.levels ∧ (SetRule.level name).admits r = true := by
  simp only [levelSet?, Option.filter_eq_some_iff, SetRule.admits, Bool.and_eq_true,
    Bool.not_eq_true', decide_eq_true_eq, OrderedMap.contains, Option.isSome_eq_false_iff,
    Option.isNone_iff_eq_none]
  constructor
  · rintro ⟨hlevel, ⟨hkind, hin⟩, hnone⟩
    exact ⟨hnone, hin, hkind, hlevel⟩
  · rintro ⟨hnone, hin, hkind, hlevel⟩
    exact ⟨hlevel, ⟨hkind, hin⟩, hnone⟩

/-- **The sets of a record are the names that stand for a rule which admits it.** -/
theorem mem_memberships_iff : name ∈ d.memberships r ↔
    ∃ rule, d.resolve name = .ok rule ∧ rule.admits r = true := by
  have hnamed : name ∈ (d.named.entries.filter fun e => e.2.rule.admits r).map Prod.fst ↔
      ∃ e, d.named.find? name = some e ∧ e.rule.admits r = true := by
    simp only [List.mem_map, List.mem_filter, OrderedMap.find?_eq_some_iff]
    constructor
    · rintro ⟨⟨k, e⟩, ⟨he, hadmits⟩, rfl⟩
      exact ⟨e, he, hadmits⟩
    · rintro ⟨e, he, hadmits⟩
      exact ⟨(name, e), ⟨he, hadmits⟩, rfl⟩
  rw [memberships, List.mem_append, hnamed, Option.mem_toList, levelSet?_eq_some_iff]
  simp only [resolve_eq_ok_iff]
  constructor
  · rintro (⟨e, he, hadmits⟩ | ⟨hnone, hlevel, hadmits⟩)
    · exact ⟨_, .inl ⟨e, he, rfl⟩, hadmits⟩
    · exact ⟨_, .inr ⟨hnone, hlevel, rfl⟩, hadmits⟩
  · rintro ⟨rule, ⟨e, he, rfl⟩ | ⟨hnone, hlevel, rfl⟩, hadmits⟩
    · exact .inl ⟨e, he, hadmits⟩
    · exact .inr ⟨hnone, hlevel, hadmits⟩

/-! ### The list of all sets -/

/-- The names of the sets in the list. -/
def specs (d : SetDirectory) : List String := d.descriptions.map (·.spec)

/-- The levels that no named set hides. -/
def unhidden (d : SetDirectory) : List String := d.levels.filter fun l => !d.named.contains l

theorem specs_eq (d : SetDirectory) : d.specs = d.named.names ++ d.unhidden := by
  simp [specs, descriptions, unhidden, OrderedMap.names, Function.comp_def]

theorem mem_unhidden_iff : name ∈ d.unhidden ↔ name ∈ d.levels ∧ d.named.find? name = none := by
  simp [unhidden, OrderedMap.contains]

/-- **The names in the list are those that stand for a rule.** -/
theorem mem_specs_iff : name ∈ d.specs ↔ ∃ rule, d.resolve name = .ok rule := by
  rw [specs_eq, List.mem_append, OrderedMap.mem_names_iff, mem_unhidden_iff]
  simp only [resolve_eq_ok_iff]
  constructor
  · rintro (hnamed | ⟨hlevel, hnone⟩)
    · obtain ⟨e, he⟩ := Option.isSome_iff_exists.1 hnamed
      exact ⟨_, .inl ⟨e, he, rfl⟩⟩
    · exact ⟨_, .inr ⟨hnone, hlevel, rfl⟩⟩
  · rintro ⟨rule, ⟨e, he, -⟩ | ⟨hnone, hlevel, -⟩⟩
    · exact .inl (Option.isSome_iff_exists.2 ⟨e, he⟩)
    · exact .inr ⟨hlevel, hnone⟩

theorem nodup_unhidden_iff : d.unhidden.Nodup ↔
    ∀ l, d.named.find? l = none → d.levels.count l ≤ 1 := by
  rw [List.nodup_iff_count_le_one]
  refine forall_congr' fun l => ?_
  by_cases hl : d.named.find? l = none
  · have hcount : d.unhidden.count l = d.levels.count l :=
      List.count_filter (by simp [OrderedMap.contains, hl])
    rw [hcount]
    exact ⟨fun h _ => h, fun h => h hl⟩
  · have hcount : d.unhidden.count l = 0 :=
      List.count_eq_zero.2 fun h => hl (mem_unhidden_iff.1 h).2
    rw [hcount]
    exact iff_of_true (Nat.zero_le 1) fun h => absurd h hl

/-- **Names come twice in the list exactly if they are levels that come twice.** -/
theorem nodup_specs_iff : d.specs.Nodup ↔
    ∀ l, d.named.find? l = none → d.levels.count l ≤ 1 := by
  rw [← nodup_unhidden_iff, specs_eq, List.nodup_append]
  refine ⟨fun h => h.2.1, fun h => ⟨d.named.nodup, h, fun k hk l hl hkl => ?_⟩⟩
  -- a level with the name of a named set is hidden
  have hsome := OrderedMap.mem_names_iff.1 hk
  rw [hkl, (mem_unhidden_iff.1 hl).2] at hsome
  cases hsome

/-! ### The order of the sets of a record -/

/-- In a list without repetitions elements come in the order of their places. -/
theorem pairwise_idxOf {xs : List String} (h : xs.Nodup) :
    xs.Pairwise fun a b => xs.idxOf a < xs.idxOf b := by
  rw [List.pairwise_iff_getElem]
  intro i j hi hj hij
  rwa [h.idxOf_getElem i hi, h.idxOf_getElem j hj]

theorem named_sublist (d : SetDirectory) (r : Record) :
    ((d.named.entries.filter fun e => e.2.rule.admits r).map Prod.fst).Sublist d.named.names :=
  List.filter_sublist.map Prod.fst

theorem notMem_names_of_levelSet? (h : name ∈ (d.levelSet? r).toList) : name ∉ d.named.names := by
  rw [Option.mem_toList, levelSet?_eq_some_iff] at h
  rw [OrderedMap.mem_names_iff, h.1]
  exact Bool.false_ne_true

theorem nodup_memberships (d : SetDirectory) (r : Record) : (d.memberships r).Nodup := by
  refine List.nodup_append.2 ⟨(named_sublist d r).nodup d.named.nodup, ?_, ?_⟩
  · cases d.levelSet? r <;> simp
  · rintro name hname _ hlevel rfl
    exact notMem_names_of_levelSet? hlevel ((named_sublist d r).subset hname)

/-- **The sets of a record come in the order in which the list first has them.** -/
theorem memberships_in_order (d : SetDirectory) (r : Record) :
    (d.memberships r).Pairwise fun a b => d.specs.idxOf a < d.specs.idxOf b := by
  have hnamed : ∀ {name}, name ∈ d.named.names → d.specs.idxOf name = d.named.names.idxOf name :=
    fun hname => by rw [specs_eq, List.idxOf_append_of_mem hname]
  refine List.pairwise_append.2 ⟨?_, ?_, fun a ha b hb => ?_⟩
  · -- among the named sets, which are distinct
    refine ((pairwise_idxOf d.named.nodup).sublist (named_sublist d r)).imp_of_mem ?_
    intro a b ha hb hab
    rwa [hnamed ((named_sublist d r).subset ha), hnamed ((named_sublist d r).subset hb)]
  · cases d.levelSet? r <;> simp
  · -- levels come behind all named sets
    have ha := (named_sublist d r).subset ha
    rw [hnamed ha, specs_eq, List.idxOf_append_of_notMem (notMem_names_of_levelSet? hb)]
    have := List.idxOf_lt_length_of_mem ha
    omega

/-- **The sets of a record are those of the list whose rule admits it**, whatever the named sets and
the levels are: a name is among them exactly if it stands for such a rule.  None is repeated, not
even where the list repeats a level, and they come in the order in which the list first has them. -/
theorem memberships_resolve (d : SetDirectory) (r : Record) :
    (∀ name, name ∈ d.memberships r ↔
      ∃ rule, d.resolve name = .ok rule ∧ rule.admits r = true) ∧
    (d.memberships r).Nodup ∧
    (∀ name ∈ d.memberships r, name ∈ d.specs) ∧
    (d.memberships r).Pairwise fun a b => d.specs.idxOf a < d.specs.idxOf b := by
  refine ⟨fun name => mem_memberships_iff, nodup_memberships d r, fun name hname => ?_,
    memberships_in_order d r⟩
  obtain ⟨rule, hrule, -⟩ := mem_memberships_iff.1 hname
  exact mem_specs_iff.2 ⟨rule, hrule⟩

/-- A named set with the name of a level, and a level that is given twice. -/
def hidingFiles : SetDirectory where
  named := OrderedMap.empty.insert "file" { repositoryCodes := ["HOU"] }
  levels := ["file", "series", "series"]

/-- A series of a repository in the named set. -/
def houstonSeries : Record :=
  { Record.plain .archivalObject 3 2 "HOU" .epoch with level := some "series" }

/-- The series is in both sets, once and in their order, though the list has its level twice. -/
theorem memberships_resolve_houstonSeries :
    hidingFiles.memberships houstonSeries = ["file", "series"] ∧
    hidingFiles.specs = ["file", "series", "series"] ∧
    (hidingFiles.memberships houstonSeries).Nodup ∧ "series" ∈ hidingFiles.specs ∧
    ∃ rule, hidingFiles.resolve "file" = .ok rule ∧ rule.admits houstonSeries = true := by
  obtain ⟨hresolve, honce, hlisted, -⟩ := memberships_resolve hidingFiles houstonSeries
  have hsets : hidingFiles.memberships houstonSeries = ["file", "series"] := by decide
  refine ⟨hsets, by decide, honce, hlisted "series" ?_, (hresolve "file").1 ?_⟩
  · rw [hsets]
    decide
  · rw [hsets]
    decide

end Harvest.SetDirectory
