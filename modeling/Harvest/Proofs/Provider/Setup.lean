import Harvest.Proofs.Provider.Make
import Harvest.Proofs.Token.Payload

/-!
# Setting up a provider

Settings are accepted exactly if they fit together (`Settings.Coherent`), and are refused as
settings otherwise.  **What is accepted is enough**: with any mappers there is a provider, and its
formats are the standard ones that have a mapper, in their order and each with options that are
valid (`Provider.coherent_settings_make`).

The settings override options one after another, and what a format ends up with does not depend on
the order: an override changes the options of one format in its place
(`FormatRegistry.withOptions`).
-/

namespace Harvest

/-! ### Folds -/

section Folds

variable {α β : Type} {xs : List α} {f : Fault}

theorem exists_of_foldlM_eq_error {step : β → α → Except Fault β} {b : β}
    (h : xs.foldlM step b = .error f) : ∃ x ∈ xs, ∃ b', step b' x = .error f := by
  induction xs generalizing b with
  | nil => cases h
  | cons x xs ih =>
    rw [List.foldlM_cons] at h
    obtain hx | ⟨b', -, hxs⟩ := bind_eq_error_iff.1 h
    · exact ⟨x, List.mem_cons_self, b, hx⟩
    · obtain ⟨y, hy, hfail⟩ := ih hxs
      exact ⟨y, List.mem_cons_of_mem x hy, hfail⟩

theorem exists_of_forM_eq_error {check : α → Except Fault Unit}
    (h : xs.forM check = .error f) : ∃ x ∈ xs, check x = .error f := by
  induction xs with
  | nil => cases h
  | cons x xs ih =>
    have hsteps : (check x >>= fun _ => xs.forM check) = .error f := h
    obtain hx | ⟨_, -, hxs⟩ := bind_eq_error_iff.1 hsteps
    · exact ⟨x, List.mem_cons_self, hx⟩
    · obtain ⟨y, hy, hfail⟩ := ih hxs
      exact ⟨y, List.mem_cons_of_mem x hy, hfail⟩

end Folds

/-! ### Overrides -/

namespace FormatRegistry

variable {g g' : FormatRegistry} {m : String} {o : FormatOptions}
  {os : List (String × FormatOptions)}

/-- The registry in which some formats have other options. -/
def withOptions (g : FormatRegistry) (os : List (String × FormatOptions)) : FormatRegistry where
  entries :=
    { entries := g.entries.entries.map fun e =>
        (e.1, { e.2 with options := (OrderedMap.look e.1 os).getD e.2.options })
      nodup := by simpa [Function.comp_def] using g.entries.nodup }

theorem ext (h : g.entries.entries = g'.entries.entries) : g = g' := by
  obtain ⟨⟨es, hes⟩⟩ := g
  obtain ⟨⟨es', hes'⟩⟩ := g'
  obtain rfl : es = es' := h
  rfl

@[simp]
theorem names_withOptions (g : FormatRegistry) (os : List (String × FormatOptions)) :
    (g.withOptions os).entries.names = g.entries.names := by
  simp [withOptions, OrderedMap.names, Function.comp_def]

@[simp]
theorem withOptions_nil (g : FormatRegistry) : g.withOptions [] = g :=
  ext (List.map_id g.entries.entries)

/-- Options for formats that differ can be given at once. -/
theorem withOptions_withOptions (h : ((m, o) :: os).map Prod.fst |>.Nodup) :
    (g.withOptions [(m, o)]).withOptions os = g.withOptions ((m, o) :: os) := by
  have hnone : OrderedMap.look m os = none :=
    OrderedMap.look_eq_none_iff.2 (List.nodup_cons.1 h).1
  refine ext ?_
  simp only [withOptions, List.map_map]
  refine List.map_congr_left fun e _ => ?_
  by_cases he : m = e.1
  · subst he
    simp [OrderedMap.look, hnone]
  · simp [OrderedMap.look, he]

/-- **An override changes the options of one format**, in its place. -/
theorem override_eq_ok_iff : g.override m o = .ok g' ↔
    (o.validate = .ok () ∧ m ∈ g.entries.names) ∧ g' = g.withOptions [(m, o)] := by
  rw [override, bind_eq_ok_iff, OrderedMap.mem_names_iff]
  cases he : g.entries.find? m with
  | none => simp
  | some e =>
    have hm : m ∈ g.entries.entries.map Prod.fst :=
      OrderedMap.mem_names_iff.2 (by rw [he, Option.isSome_some])
    have heq : (⟨g.entries.insert m { e with options := o }⟩ : FormatRegistry) =
        g.withOptions [(m, o)] := by
      refine ext ?_
      change OrderedMap.put m { e with options := o } g.entries.entries = _
      rw [OrderedMap.put_eq_map g.entries.nodup hm]
      refine List.map_congr_left fun d hd => ?_
      by_cases hdm : d.1 = m
      · -- the entry in question, since names are distinct
        have hfound := OrderedMap.find?_eq_some_iff.2 hd
        rw [hdm, he, Option.some.injEq] at hfound
        simp [hdm, hfound, OrderedMap.look]
      · simp [hdm, Ne.symm hdm, OrderedMap.look]
    simp only [heq, pure_eq, Except.ok.injEq, Option.isSome_some, and_true]
    constructor
    · rintro ⟨_, hvalid, rfl⟩
      exact ⟨hvalid, rfl⟩
    · rintro ⟨hvalid, rfl⟩
      exact ⟨(), hvalid, rfl⟩

/-- Overrides of formats that differ succeed if each of them is valid and names a format. -/
theorem foldlM_override_eq_ok_iff (h : (os.map Prod.fst).Nodup) :
    os.foldlM (fun g e => g.override e.1 e.2) g = .ok g' ↔
      (∀ e ∈ os, e.2.validate = .ok () ∧ e.1 ∈ g.entries.names) ∧ g' = g.withOptions os := by
  induction os generalizing g with
  | nil => simp [eq_comm]
  | cons e os ih =>
    obtain ⟨m, o⟩ := e
    have hrest : (os.map Prod.fst).Nodup := (List.nodup_cons.1 h).2
    rw [List.foldlM_cons, bind_eq_ok_iff, List.forall_mem_cons]
    constructor
    · rintro ⟨g₁, hfirst, hg'⟩
      obtain ⟨hvalid, rfl⟩ := override_eq_ok_iff.1 hfirst
      obtain ⟨hall, rfl⟩ := (ih hrest).1 hg'
      rw [names_withOptions] at hall
      exact ⟨⟨hvalid, hall⟩, withOptions_withOptions h⟩
    · rintro ⟨⟨hvalid, hall⟩, rfl⟩
      refine ⟨_, override_eq_ok_iff.2 ⟨hvalid, rfl⟩, (ih hrest).2 ⟨?_, ?_⟩⟩
      · rwa [names_withOptions]
      · exact (withOptions_withOptions h).symm

theorem names_standard : standard.entries.names = standardPrefixes := by decide

theorem entries_standard : standard.entries.entries = standardFormats.map fun f =>
    (f.1.metadataPrefix, { format := f.1, options := { recordTypes := f.2 } }) := by decide

end FormatRegistry

open FormatRegistry (standard standardFormats standardPrefixes)

/-! ### Settings -/

theorem SetDefinition.validate_eq_ok_iff {d : SetDefinition} {name : String} :
    d.validate name = .ok () ↔
      d.sponsors ≠ [] ∧ d.repositoryCodes = [] ∨ d.sponsors = [] ∧ d.repositoryCodes ≠ [] := by
  unfold validate
  cases d.sponsors <;> cases d.repositoryCodes <;> simp

namespace Settings

variable {s : Settings} {g : FormatRegistry} {f : Fault}

/-- Settings that fit together: identifiers can be taken apart, every named set has one rule, every
repository one entry, and overrides are valid options of standard formats. -/
structure Coherent (s : Settings) : Prop where
  namespace_ne : s.identifierNamespace ≠ ""
  slash_notMem : '/' ∉ s.identifierNamespace.toList
  sets : ∀ e ∈ s.sets.entries, e.2.sponsors ≠ [] ∧ e.2.repositoryCodes = [] ∨
    e.2.sponsors = [] ∧ e.2.repositoryCodes ≠ []
  repositories : (s.repositories.map (·.id)).Nodup
  formats : ∀ e ∈ s.formats.entries, e.1 ∈ standardPrefixes ∧ e.2.recordTypes ≠ [] ∧
    e.2.recordTypes.Nodup ∧ 1 ≤ e.2.pageSize

/-- The options of a standard format: those of the settings, or its own. -/
def optionsOf (s : Settings) (f : MetadataFormat × List RecordType) : FormatOptions :=
  (s.formats.find? f.1.metadataPrefix).getD { recordTypes := f.2 }

theorem formatRegistry_eq_ok_iff : s.formatRegistry = .ok g ↔
    (∀ e ∈ s.formats.entries, e.2.validate = .ok () ∧ e.1 ∈ standardPrefixes) ∧
      g = standard.withOptions s.formats.entries := by
  rw [formatRegistry, FormatRegistry.foldlM_override_eq_ok_iff s.formats.nodup,
    FormatRegistry.names_standard]

/-- **Settings are accepted exactly if they fit together.** -/
theorem validate_eq_ok_iff_coherent : s.validate = .ok () ↔ s.Coherent := by
  have hrepositories : firstRepeated [] s.repositories = none ↔
      (s.repositories.map (·.id)).Nodup := by
    simp [firstRepeated_eq_none_iff]
  have hformats : (∃ g, s.formatRegistry = .ok g) ↔ ∀ e ∈ s.formats.entries,
      e.1 ∈ standardPrefixes ∧ e.2.recordTypes ≠ [] ∧ e.2.recordTypes.Nodup ∧
        1 ≤ e.2.pageSize := by
    simp only [formatRegistry_eq_ok_iff, exists_and_left, exists_eq, and_true,
      FormatOptions.validate_eq_ok_iff]
    refine forall_congr' fun e => imp_congr_right fun _ => ?_
    exact ⟨fun ⟨⟨htypes, hsize, hnodup⟩, hm⟩ => ⟨hm, htypes, hnodup, hsize⟩,
      fun ⟨hm, htypes, hnodup, hsize⟩ => ⟨⟨htypes, hsize, hnodup⟩, hm⟩⟩
  simp only [validate_eq_ok_iff, SetDefinition.validate_eq_ok_iff, hrepositories, hformats]
  exact ⟨fun ⟨⟨hne, hslash⟩, hsets, hrepos, hf⟩ => ⟨hne, hslash, hsets, hrepos, hf⟩,
    fun ⟨hne, hslash, hsets, hrepos, hf⟩ => ⟨⟨hne, hslash⟩, hsets, hrepos, hf⟩⟩

/-! ### Faults -/

theorem kind_of_setDefinition {d : SetDefinition} {name : String}
    (h : d.validate name = .error f) : f.kind = .config := by
  unfold SetDefinition.validate at h
  split at h <;> cases h <;> rfl

theorem kind_of_options {o : FormatOptions} (h : o.validate = .error f) : f.kind = .config := by
  unfold FormatOptions.validate at h
  split_ifs at h
  · cases h
    rfl
  · cases h
    rfl
  · split at h <;> cases h
    rfl

theorem kind_of_override {m : String} {o : FormatOptions} (h : g.override m o = .error f) :
    f.kind = .config := by
  obtain hvalid | ⟨_, -, h⟩ := bind_eq_error_iff.1 h
  · exact kind_of_options hvalid
  · cases hm : g.entries.find? m with
    | none =>
      rw [hm] at h
      cases h
      rfl
    | some e =>
      rw [hm] at h
      cases h

theorem kind_of_formatRegistry (h : s.formatRegistry = .error f) : f.kind = .config := by
  obtain ⟨e, -, g, hoverride⟩ := exists_of_foldlM_eq_error h
  exact kind_of_override hoverride

/-- **Settings that are refused are refused as settings.** -/
theorem kind_of_validate_eq_error (h : s.validate = .error f) : f.kind = .config := by
  unfold validate at h
  split_ifs at h with hnamespace
  · cases h
    rfl
  · obtain hsets | ⟨_, -, h⟩ := bind_eq_error_iff.1 h
    · obtain ⟨e, -, hset⟩ := exists_of_forM_eq_error hsets
      exact kind_of_setDefinition hset
    · cases hrepeated : firstRepeated [] s.repositories with
      | some id =>
        rw [hrepeated] at h
        cases h
        rfl
      | none =>
        rw [hrepeated] at h
        obtain hformats | ⟨_, -, h⟩ := bind_eq_error_iff.1 h
        · exact kind_of_formatRegistry hformats
        · cases h

end Settings

/-! ### Providers -/

namespace Provider

open Engine

/-- **Settings that fit together are enough.**  Settings are accepted exactly if they fit together,
and any fault is one of settings.  From accepted settings and any mappers a provider is made.  Its
formats are the standard ones that have a mapper, in their order, each with the options that the
settings give it or else its own; all of these are valid, and batches have room for a record. -/
theorem coherent_settings_make {σ : Type} (settings : Settings) (s : σ) :
    (settings.validate = .ok () ↔ settings.Coherent) ∧
    (∀ f, settings.validate = .error f → f.kind = .config) ∧
    (settings.validate = .ok () → ∀ (mappers : MapperRegistry) (explain : Explanation),
      ∃ p : Provider, ((make settings mappers explain).run s).result = .ok p ∧
      p.formats.entries.entries =
        (standardFormats.filter fun f => mappers.contains f.1.metadataPrefix).map (fun f =>
          (f.1.metadataPrefix, { format := f.1, options := settings.optionsOf f })) ∧
      (∀ e ∈ p.formats.entries.entries, e.2.options.validate = .ok ()) ∧
      ∀ pageSize, 1 ≤ p.settings.batchSizeFor pageSize) := by
  refine ⟨Settings.validate_eq_ok_iff_coherent, fun f => Settings.kind_of_validate_eq_error,
    fun hvalid mappers explain => ?_⟩
  obtain ⟨-, -, -, g, hg⟩ := Settings.validate_eq_ok_iff.1 hvalid
  have hmake : ((make settings mappers explain).run s).result =
      .ok ⟨settings, g.retain mappers.contains, mappers, explain⟩ :=
    make_eq_ok_iff.2 ⟨hvalid, g, hg, rfl⟩
  refine ⟨_, hmake, ?_, fun e he => ?_, settings.batchSizeFor_pos⟩
  · obtain ⟨-, rfl⟩ := Settings.formatRegistry_eq_ok_iff.1 hg
    simp only [FormatRegistry.retain, OrderedMap.filterNames, FormatRegistry.withOptions,
      FormatRegistry.entries_standard, List.map_map, List.filter_map]
    rfl
  · have ho : (g.retain mappers.contains).options? e.1 = some e.2.options := by
      rw [FormatRegistry.options?, OrderedMap.find?_eq_some_iff.2 he]
      rfl
    exact (isStandard_of_make hmake _ _ ho).2

/-- Settings with one option of their own. -/
def overridingSettings : Settings where
  formats := OrderedMap.empty.insert "oai_dc" { recordTypes := [.accession], pageSize := 7 }

/-- With mappers for two formats there are these, the first one with the options of the settings. -/
theorem coherent_settings_make_overriding : ∃ p : Provider,
    ((make overridingSettings ((MapperRegistry.empty.register "oai_ead" fun _ => .ok "").register
      "oai_dc" fun _ => .ok "") plainWords).run ()).result = .ok p ∧
    p.formats.entries.names = ["oai_dc", "oai_ead"] ∧
    p.formats.options? "oai_dc" = some { recordTypes := [.accession], pageSize := 7 } := by
  obtain ⟨hcoherent, -, hmake⟩ := coherent_settings_make overridingSettings ()
  have hvalid : overridingSettings.validate = .ok () :=
    hcoherent.2 ⟨by decide, by decide, by rintro e ⟨⟩, List.nodup_nil, by decide⟩
  obtain ⟨p, hp, hentries, -, -⟩ := hmake hvalid _ _
  refine ⟨p, hp, ?_, ?_⟩
  · rw [OrderedMap.names, hentries]
    rfl
  · rw [FormatRegistry.options?, OrderedMap.find?, hentries]
    rfl

end Provider

end Harvest
