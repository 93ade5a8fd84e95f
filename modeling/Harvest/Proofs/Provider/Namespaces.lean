import Harvest.Proofs.Provider.Identifiers

/-!
# Namespaces of identifiers

An identifier is a fixed start, the namespace of the provider, a slash and a URI.  **Only
identifiers are taken apart**, and each into the URI that was put into it
(`Provider.uriOf_eq_ok_iff`); all other texts are not known.

A namespace has no slash, so it ends where the first slash stands.  Hence **providers with different
namespaces have no identifier in common** (`Provider.identifierOf_inj_of_validate`), also if one
namespace is how the other begins.
-/

namespace Harvest

/-- What stands before the first slash, and what stands behind it, can be told from the whole. -/
theorem eq_of_append_slash {as bs cs ds : List Char} (ha : '/' ∉ as) (hb : '/' ∉ bs)
    (h : as ++ '/' :: cs = bs ++ '/' :: ds) : as = bs ∧ cs = ds := by
  have hbefore : ∀ {xs : List Char} (ys : List Char), '/' ∉ xs →
      (xs ++ '/' :: ys).takeWhile (· ≠ '/') = xs := by
    intro xs ys hxs
    rw [List.takeWhile_append_of_pos fun c hc => by
      simpa using ne_of_mem_of_not_mem hc hxs]
    simp
  obtain rfl : as = bs := by rw [← hbefore cs ha, h, hbefore ds hb]
  exact ⟨rfl, (List.cons.inj (List.append_cancel_left h)).2⟩

namespace Provider

variable {p p' : Provider} {x u v : String}

/-- What follows a start, and the start, are the whole. -/
theorem rest?_eq_some_iff {start cs rest : List Char} :
    rest? start cs = some rest ↔ cs = start ++ rest := by
  constructor
  · intro h
    induction start, cs using rest?.induct with
    | case1 cs => exact Option.some.inj h
    | case2 => cases h
    | case3 d ds cs ih => rw [ih (by simpa [rest?] using h), List.cons_append]
    | case4 d ds c cs hne => simp [rest?, hne] at h
  · rintro rfl
    exact rest?_append start rest

theorem uriOf?_eq_some_iff : p.uriOf? x = some u ↔ x = p.identifierOf u ∧ IsRooted u := by
  constructor
  · intro h
    simp only [uriOf?, Option.bind_eq_bind, Option.bind_eq_some_iff, rest?_eq_some_iff] at h
    obtain ⟨_, hstart, _, rfl, cs, rfl, hrooted⟩ := h
    split_ifs at hrooted with hhead
    obtain rfl := Option.some.inj hrooted
    refine ⟨?_, by rwa [IsRooted, String.toList_ofList]⟩
    rw [← String.toList_inj, hstart]
    simp [identifierOf, String.toList_append]
  · rintro ⟨rfl, hrooted⟩
    rw [uriOf?_identifierOf, if_pos hrooted]

/-- **Only identifiers are taken apart**, and only those with a URI that is rooted. -/
theorem uriOf_eq_ok_iff : p.uriOf x = .ok u ↔ x = p.identifierOf u ∧ IsRooted u := by
  rw [← uriOf?_eq_some_iff, uriOf]
  cases p.uriOf? x <;> simp

theorem uriOf_of_forall_ne (h : ∀ u, IsRooted u → x ≠ p.identifierOf u) :
    p.uriOf x = .error (.unknownIdentifier x) := by
  cases hx : p.uriOf x with
  | ok u =>
    obtain ⟨hu, hrooted⟩ := uriOf_eq_ok_iff.1 hx
    exact absurd hu (h u hrooted)
  | error f => rw [uriOf_eq_error hx]

/-- **Identifiers of valid settings tell their namespaces and URIs.** -/
theorem identifierOf_inj_of_validate (hv : p.settings.validate = .ok ())
    (hv' : p'.settings.validate = .ok ()) (h : p.identifierOf u = p'.identifierOf v) :
    p.settings.identifierNamespace = p'.settings.identifierNamespace ∧ u = v := by
  obtain ⟨⟨-, hslash⟩, -⟩ := Settings.validate_eq_ok_iff.1 hv
  obtain ⟨⟨-, hslash'⟩, -⟩ := Settings.validate_eq_ok_iff.1 hv'
  have htexts : p.settings.identifierNamespace.toList ++ '/' :: u.toList =
      p'.settings.identifierNamespace.toList ++ '/' :: v.toList := by
    simpa [identifierOf, String.toList_append] using congrArg String.toList h
  obtain ⟨hnamespace, hu⟩ := eq_of_append_slash hslash hslash' htexts
  exact ⟨String.toList_inj.1 hnamespace, String.toList_inj.1 hu⟩

/-- **Identifiers are taken apart as they are put together.**  The identifier of a record gives its
URI back exactly if the URI is rooted.  What is taken apart is the start, the namespace, a slash and
the rooted URI it gives; any other text is an identifier that does not exist.  No text is taken
apart under two valid settings with different namespaces. -/
theorem uriOf_inverts_identifierOf (hv : p.settings.validate = .ok ()) :
    (∀ r : Record, p.uriOf (p.identifierOf r.uri) = .ok r.uri ↔ IsRooted r.uri) ∧
    (∀ x u, p.uriOf x = .ok u ↔
      x = "oai:" ++ p.settings.identifierNamespace ++ "/" ++ u ∧ IsRooted u) ∧
    (∀ x, (∀ u, IsRooted u → x ≠ "oai:" ++ p.settings.identifierNamespace ++ "/" ++ u) →
      ∃ f, p.uriOf x = .error f ∧ f.kind = .idDoesNotExist ∧ f = .unknownIdentifier x) ∧
    ∀ p' : Provider, p'.settings.validate = .ok () →
      p'.settings.identifierNamespace ≠ p.settings.identifierNamespace →
      ∀ x u v, p.uriOf x = .ok u → p'.uriOf x ≠ .ok v := by
  refine ⟨fun r => ?_, fun x u => uriOf_eq_ok_iff, fun x hx => ?_, ?_⟩
  · rw [uriOf_eq_ok_iff]
    exact and_iff_right rfl
  · exact ⟨_, uriOf_of_forall_ne hx, rfl, rfl⟩
  · intro p' hv' hne x u v hu hv''
    obtain ⟨rfl, -⟩ := uriOf_eq_ok_iff.1 hu
    obtain ⟨hx, -⟩ := uriOf_eq_ok_iff.1 hv''
    exact hne (identifierOf_inj_of_validate hv hv' hx).1.symm

/-- A provider whose namespace begins with that of `readable`. -/
def longerNamespace : Provider :=
  { readable with settings := { sampleSettings with identifierNamespace := "archivesspace2" } }

/-- The identifier of the letter is known under its own namespace only, an identifier of the longer
namespace only under that one.  The URI of `looseLeaf` does not come back. -/
theorem uriOf_inverts_identifierOf_letter :
    readable.uriOf "oai:archivesspace//repositories/2/archival_objects/3" =
      .ok Store.sampleLetter.uri ∧
    (∀ v, longerNamespace.uriOf "oai:archivesspace//repositories/2/archival_objects/3" ≠ .ok v) ∧
    longerNamespace.uriOf "oai:archivesspace2//agents/7" = .ok "/agents/7" ∧
    (∀ v, readable.uriOf "oai:archivesspace2//agents/7" ≠ .ok v) ∧
    readable.uriOf (readable.identifierOf looseLeaf.uri) ≠ .ok looseLeaf.uri := by
  have hvalid : longerNamespace.settings.validate = .ok () :=
    Settings.validate_eq_ok_iff.2 ⟨⟨by decide, by decide⟩, by rintro e ⟨⟩, rfl, _, rfl⟩
  have hreadable : readable.settings.validate = .ok () := validate_sampleSettings
  obtain ⟨hrecord, -, -, hother⟩ := uriOf_inverts_identifierOf hreadable
  obtain ⟨-, hagent, -, hother'⟩ := uriOf_inverts_identifierOf hvalid
  have hletter := (hrecord Store.sampleLetter).2 (Record.isRooted_uriOf 2 .archivalObject 3)
  have hseven := (hagent "oai:archivesspace2//agents/7" "/agents/7").2 ⟨by decide, by decide⟩
  refine ⟨hletter, fun v => hother _ hvalid (by decide) _ _ v hletter, hseven,
    fun v => hother' _ hreadable (by decide) _ _ v hseven, fun h => ?_⟩
  exact absurd ((hrecord looseLeaf).1 h) (by decide)

end Provider

end Harvest
