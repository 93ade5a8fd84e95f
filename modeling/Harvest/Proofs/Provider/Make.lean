import Harvest.Proofs.Validation
import Harvest.Provider

/-!
# Making a provider

A provider that was made has the settings and the mappers it was made from.  The settings are
valid, and its formats are those of the settings that have a mapper (`Provider.make_eq_ok_iff`).
-/

namespace Harvest.Provider

open Engine

variable {σ : Type} {settings : Settings} {mappers : MapperRegistry} {explain : Explanation}
  {p : Provider} {s : σ}

/-- The provider that settings and mappers give, without the log. -/
def made (settings : Settings) (mappers : MapperRegistry) (explain : Explanation) :
    Except Fault Provider := do
  settings.validate
  let formats ← settings.formatRegistry
  return { settings, formats := formats.retain mappers.contains, mappers, explain }

theorem ensures_make {I : σ → Prop} :
    Ensures I (make settings mappers explain) (· = made settings mappers explain) := by
  unfold make made
  refine Ensures.bind (ensures_ofExcept rfl) (fun u hu => ?_) fun e he => by rw [he]; rfl
  rw [hu, ok_bind]
  have hformats : Ensures I (do
      let formats ← ofExcept settings.formatRegistry
      return Provider.mk settings (formats.retain mappers.contains) mappers explain) (· = do
        let formats ← settings.formatRegistry
        return Provider.mk settings (formats.retain mappers.contains) mappers explain) :=
    Ensures.bind (ensures_ofExcept rfl) (fun g hg => ensures_pure (by rw [hg]; rfl))
      fun e he => by rw [he]; rfl
  split_ifs
  · exact Ensures.tell_bind hformats
  · exact hformats

theorem make_eq_ok_iff : ((make settings mappers explain).run s).result = .ok p ↔
    settings.validate = .ok () ∧ ∃ g, settings.formatRegistry = .ok g ∧
      p = ⟨settings, g.retain mappers.contains, mappers, explain⟩ := by
  rw [(ensures_make (I := fun _ => True) s trivial).1, made, bind_eq_ok_iff]
  simp only [bind_eq_ok_iff, pure_eq, Except.ok.injEq, eq_comm (a := p)]
  exact ⟨fun ⟨_, hvalid, hg⟩ => ⟨hvalid, hg⟩, fun ⟨hvalid, hg⟩ => ⟨(), hvalid, hg⟩⟩

theorem of_make (h : ((make settings mappers explain).run s).result = .ok p) :
    settings.validate = .ok () ∧ p.settings = settings := by
  obtain ⟨hvalid, g, -, rfl⟩ := make_eq_ok_iff.1 h
  exact ⟨hvalid, rfl⟩

theorem mappers_of_make (h : ((make settings mappers explain).run s).result = .ok p) :
    p.mappers = mappers := by
  obtain ⟨-, g, -, rfl⟩ := make_eq_ok_iff.1 h
  rfl

theorem isStandard_of_make (h : ((make settings mappers explain).run s).result = .ok p) :
    p.formats.IsStandard := by
  obtain ⟨-, g, hg, rfl⟩ := make_eq_ok_iff.1 h
  exact (Settings.isStandard_formatRegistry hg).retain _

theorem contains_of_make (h : ((make settings mappers explain).run s).result = .ok p) {m : String}
    {o : FormatOptions} (ho : p.formats.options? m = some o) : p.mappers.contains m = true := by
  obtain ⟨-, g, -, rfl⟩ := make_eq_ok_iff.1 h
  rw [FormatRegistry.options?_retain] at ho
  split_ifs at ho with hkeep
  exact hkeep

end Harvest.Provider
