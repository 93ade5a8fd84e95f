import Harvest.Proofs.Engine
import Harvest.Settings
import Mathlib.Data.List.Nodup
import Mathlib.Data.List.Perm.Subperm
import Mathlib.Tactic.SplitIfs

/-!
# What validation insists on

Valid options list every record type at most once (`FormatOptions.validate_eq_ok_iff`), and valid
settings mention every repository at most once (`Settings.nodup_of_validate`).  Settings can only
change the options of standard formats, and only to valid ones
(`Settings.isStandard_formatRegistry`).
-/

namespace Harvest

/-! ### Options -/

namespace FormatOptions

theorem firstRepeated_eq_none_iff {seen ts : List RecordType} :
    firstRepeated seen ts = none ↔ ts.Nodup ∧ ∀ t ∈ ts, t ∉ seen := by
  induction ts generalizing seen with
  | nil => simp [firstRepeated]
  | cons t ts ih =>
    by_cases ht : t ∈ seen
    · simp [firstRepeated, ht]
    · rw [firstRepeated, if_neg ht, ih, List.nodup_cons]
      constructor
      · rintro ⟨hnodup, hseen⟩
        have hmem : t ∉ ts := fun h => hseen t h List.mem_cons_self
        refine ⟨⟨hmem, hnodup⟩, fun u hu => ?_⟩
        rcases List.mem_cons.1 hu with rfl | hu
        · exact ht
        · exact fun h => hseen u hu (List.mem_cons_of_mem _ h)
      · rintro ⟨⟨hmem, hnodup⟩, hseen⟩
        refine ⟨hnodup, fun u hu h => ?_⟩
        rcases List.mem_cons.1 h with rfl | h
        · exact hmem hu
        · exact hseen u (List.mem_cons_of_mem _ hu) h

variable {o : FormatOptions}

theorem validate_eq_ok_iff : o.validate = .ok () ↔
    o.recordTypes ≠ [] ∧ 0 < o.pageSize ∧ o.recordTypes.Nodup := by
  have hnodup : firstRepeated [] o.recordTypes = none ↔
      o.recordTypes.Nodup ∧ ∀ t ∈ o.recordTypes, t ∉ [] := firstRepeated_eq_none_iff
  simp only [List.not_mem_nil, not_false_iff, implies_true, and_true] at hnodup
  unfold validate
  split_ifs with htypes hsize
  · simp [List.isEmpty_iff.1 htypes]
  · simp [hsize]
  · rw [List.isEmpty_iff] at htypes
    cases hrepeated : firstRepeated [] o.recordTypes with
    | none => simp [htypes, Nat.pos_of_ne_zero hsize, hnodup.1 hrepeated]
    | some t =>
      have hnot : ¬ o.recordTypes.Nodup := fun h => by
        rw [hnodup.2 h] at hrepeated
        cases hrepeated
      simp [hnot]

theorem length_le_six (h : o.recordTypes.Nodup) : o.recordTypes.length ≤ 6 := by
  have hall : o.recordTypes ⊆ RecordType.all := by
    intro t _
    cases t <;> simp [RecordType.all]
  exact (h.subperm hall).length_le

end FormatOptions

/-! ### Formats -/

namespace FormatRegistry

/-- The prefixes of the standard formats. -/
def standardPrefixes : List String := standardFormats.map (·.1.metadataPrefix)

/-- The formats of a registry are standard ones, with valid options. -/
def IsStandard (g : FormatRegistry) : Prop :=
  ∀ m o, g.options? m = some o → m ∈ standardPrefixes ∧ o.validate = .ok ()

variable {g g' : FormatRegistry} {m : String} {o : FormatOptions}

theorem isStandard_standard : standard.IsStandard := by
  have hentries : ∀ e ∈ standard.entries.entries,
      e.1 ∈ standardPrefixes ∧ e.2.options.validate = .ok () := by decide
  intro m o ho
  obtain ⟨e, he, rfl⟩ := Option.map_eq_some_iff.1 ho
  exact hentries _ (OrderedMap.mem_of_look he)

theorem optionsFor_eq_ok_iff : g.optionsFor m = .ok o ↔ g.options? m = some o := by
  unfold optionsFor
  cases g.options? m <;> simp

theorem options?_override (h : g.override m o = .ok g') (k : String) :
    g'.options? k = if k = m then some o else g.options? k := by
  obtain ⟨_, -, h⟩ := bind_eq_ok_iff.1 h
  cases he : g.entries.find? m with
  | none =>
    rw [he] at h
    cases h
  | some e =>
    rw [he] at h
    cases h
    simp only [options?, OrderedMap.find?_insert]
    split_ifs <;> rfl

theorem IsStandard.override (hg : g.IsStandard) (h : g.override m o = .ok g') :
    g'.IsStandard := by
  obtain ⟨⟨⟩, hvalid, hrest⟩ := bind_eq_ok_iff.1 h
  have hm : m ∈ standardPrefixes := by
    cases he : g.entries.find? m with
    | none =>
      rw [he] at hrest
      cases hrest
    | some e => exact (hg m e.options (by rw [options?, he]; rfl)).1
  intro k o' ho'
  rw [options?_override h] at ho'
  split_ifs at ho' with hk
  · cases ho'
    exact ⟨hk ▸ hm, hvalid⟩
  · exact hg k o' ho'

theorem options?_retain (g : FormatRegistry) (keep : String → Bool) (m : String) :
    (g.retain keep).options? m = if keep m then g.options? m else none := by
  unfold options? retain
  rw [OrderedMap.find?_filterNames]
  split_ifs <;> rfl

theorem IsStandard.retain (hg : g.IsStandard) (keep : String → Bool) :
    (g.retain keep).IsStandard := by
  intro m o ho
  rw [options?_retain] at ho
  split_ifs at ho
  exact hg m o ho

theorem IsStandard.size_le (hg : g.IsStandard) (ho : g.options? m = some o) :
    m ≠ "" ∧ m.utf8ByteSize ≤ 11 := by
  have hall : ∀ m ∈ standardPrefixes, m ≠ "" ∧ m.utf8ByteSize ≤ 11 := by decide
  exact hall m (hg m o ho).1

end FormatRegistry

/-- What holds of the standard formats, and is kept by overrides, holds of the formats of some
settings. -/
theorem Settings.formatRegistry_induction {P : FormatRegistry → Prop}
    (hstandard : P FormatRegistry.standard)
    (hoverride : ∀ g g' m o, P g → g.override m o = .ok g' → P g')
    {s : Settings} {g : FormatRegistry} (h : s.formatRegistry = .ok g) : P g := by
  have hfold : ∀ (es : List (String × FormatOptions)) (g' : FormatRegistry), P g' →
      es.foldlM (fun g e => g.override e.1 e.2) g' = .ok g → P g := by
    intro es
    induction es with
    | nil =>
      intro g' hg' hg
      cases hg
      exact hg'
    | cons e es ih =>
      intro g' hg' hg
      rw [List.foldlM_cons] at hg
      obtain ⟨g'', ho, hg⟩ := bind_eq_ok_iff.1 hg
      exact ih g'' (hoverride _ _ _ _ hg' ho) hg
  exact hfold _ _ hstandard h

/-- The formats of some settings are the standard ones, with valid options. -/
theorem Settings.isStandard_formatRegistry {s : Settings} {g : FormatRegistry}
    (h : s.formatRegistry = .ok g) : g.IsStandard :=
  formatRegistry_induction FormatRegistry.isStandard_standard (fun _ _ _ _ => .override) h

/-! ### Repositories -/

namespace Settings

theorem firstRepeated_eq_none_iff {seen : List UInt32} {es : List RepositoryEntry} :
    firstRepeated seen es = none ↔ (es.map (·.id)).Nodup ∧ ∀ e ∈ es, e.id ∉ seen := by
  induction es generalizing seen with
  | nil => simp [firstRepeated]
  | cons e es ih =>
    by_cases he : e.id ∈ seen
    · simp [firstRepeated, he]
    · rw [firstRepeated, if_neg he, ih, List.map_cons, List.nodup_cons]
      constructor
      · rintro ⟨hnodup, hseen⟩
        refine ⟨⟨fun hmem => ?_, hnodup⟩, fun d hd => ?_⟩
        · obtain ⟨d, hd, hid⟩ := List.mem_map.1 hmem
          exact hseen d hd (hid ▸ List.mem_cons_self)
        · rcases List.mem_cons.1 hd with rfl | hd
          · exact he
          · exact fun hmem => hseen d hd (List.mem_cons_of_mem _ hmem)
      · rintro ⟨⟨hnew, hnodup⟩, hseen⟩
        refine ⟨hnodup, fun d hd hmem => ?_⟩
        rcases List.mem_cons.1 hmem with hid | hmem
        · exact hnew (List.mem_map.2 ⟨d, hd, hid⟩)
        · exact hseen d (List.mem_cons_of_mem _ hd) hmem

variable {s : Settings}

theorem forM_eq_ok_iff {α : Type} {f : α → Except Fault Unit} {xs : List α} :
    xs.forM f = .ok () ↔ ∀ x ∈ xs, f x = .ok () := by
  induction xs with
  | nil => exact iff_of_true rfl fun x hx => absurd hx List.not_mem_nil
  | cons x xs ih =>
    change (f x >>= fun _ => xs.forM f) = .ok () ↔ _
    rw [bind_eq_ok_iff, List.forall_mem_cons, ← ih]
    exact ⟨fun ⟨_, hx, hxs⟩ => ⟨hx, hxs⟩, fun ⟨hx, hxs⟩ => ⟨(), hx, hxs⟩⟩

theorem validate_eq_ok_iff : s.validate = .ok () ↔
    (s.identifierNamespace ≠ "" ∧ '/' ∉ s.identifierNamespace.toList) ∧
      (∀ e ∈ s.sets.entries, e.2.validate e.1 = .ok ()) ∧
      firstRepeated [] s.repositories = none ∧ ∃ g, s.formatRegistry = .ok g := by
  have hnamespace : (s.identifierNamespace.isEmpty || s.identifierNamespace.contains '/') = false ↔
      s.identifierNamespace ≠ "" ∧ '/' ∉ s.identifierNamespace.toList := by
    simp [String.contains_char_eq]
  unfold validate
  rw [← hnamespace]
  cases s.identifierNamespace.isEmpty || s.identifierNamespace.contains '/' with
  | true => simp
  | false =>
    rw [← forM_eq_ok_iff]
    cases hsets : s.sets.entries.forM fun e => e.2.validate e.1 with
    | error f => simp
    | ok u =>
      cases hrepeated : firstRepeated [] s.repositories with
      | some id => simp
      | none => cases s.formatRegistry <;> simp

theorem nodup_of_validate (h : s.validate = .ok ()) : (s.repositories.map (·.id)).Nodup :=
  (firstRepeated_eq_none_iff.1 (validate_eq_ok_iff.1 h).2.2.1).1

/-- What valid settings say about a repository is said in one entry. -/
theorem repository?_eq_some_iff (h : s.validate = .ok ()) {id : UInt32} {e : RepositoryEntry} :
    s.repository? id = some e ↔ e ∈ s.repositories ∧ e.id = id := by
  have hnodup := nodup_of_validate h
  unfold repository?
  constructor
  · intro he
    exact ⟨List.mem_of_find?_eq_some he, by simpa using List.find?_some he⟩
  · rintro ⟨he, rfl⟩
    cases hf : s.repositories.find? (·.id = e.id) with
    | none =>
      have := List.find?_eq_none.1 hf e he
      simp at this
    | some d =>
      have hid : d.id = e.id := by simpa using List.find?_some hf
      exact congrArg some (List.inj_on_of_nodup_map hnodup (List.mem_of_find?_eq_some hf) he hid)

end Settings

end Harvest
