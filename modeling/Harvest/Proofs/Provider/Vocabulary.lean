import Harvest.Proofs.Engine
import Harvest.Proofs.Markup.Written
import Harvest.Provider

/-!
# What responses are made of

Whatever a provider puts together is `Xml.Written`: elements and attributes have fixed names, and
markup from elsewhere is the metadata that mappers make (`MapperRegistry.Makes`).  This holds over
any source, since no text from a store, from settings or from a request is used as a name.  The
answer to a request is such an element with the name of its verb (`Provider.yields_answer`).
-/

namespace Harvest

open Engine

/-- A text is the metadata of a record in a format. -/
def MapperRegistry.Makes (g : MapperRegistry) (text : String) : Prop :=
  ∃ m r, g.map m r = .ok text

/-- Metadata is made of fragments: all that it opens is closed. -/
def MapperRegistry.Balanced (g : MapperRegistry) : Prop :=
  ∀ text, g.Makes text → (Markup.fragment? text.toList).isSome

theorem Engine.yields_true {σ α : Type} (m : Engine σ α) :
    Yields (fun _ => True) m fun _ => True :=
  fun _ _ => ⟨fun _ _ => trivial, trivial⟩

namespace Xml

variable {trusted : String → Prop} {tag value : String} {content : List Xml}

theorem written_leaf (htag : tag ∈ elementNames) : Written trusted (.leaf tag value) :=
  .text htag (by simp)

theorem written_node (htag : tag ∈ elementNames) (h : ∀ x ∈ content, Written trusted x) :
    Written trusted (.node tag content) :=
  .element htag (by simp) h

end Xml

/-- An element answers a request for a verb. -/
structure Xml.IsAnswer (trusted : String → Prop) (verb : Verb) (doc : Xml) : Prop where
  written : doc.Written trusted
  named : ∃ content, doc = .node verb.name content

theorem Xml.isAnswer {trusted : String → Prop} {verb : Verb} {content : List Xml}
    (h : ∀ x ∈ content, x.Written trusted) : IsAnswer trusted verb (.node verb.name content) := by
  refine ⟨written_node ?_ h, _, rfl⟩
  cases verb <;> decide

namespace Provider

variable {σ : Type} {trusted : String → Prop} {p : Provider} {src : Source σ} {q : Request}
  {verb : Verb} {x : Record} {doc : Xml}

/-! ### Records -/

theorem written_header : (p.header x).Written trusted := by
  refine .element (by decide) ?_ ?_
  · intro a ha
    split_ifs at ha
    · rw [List.mem_singleton.1 ha]
      decide
    · cases ha
  · intro y hy
    simp only [List.mem_cons, List.mem_map] at hy
    obtain rfl | rfl | ⟨s, -, rfl⟩ := hy <;> exact Xml.written_leaf (by decide)

/-- Only a full record needs the trust in metadata. -/
theorem written_recordElement (hmakes : ∀ text, p.mappers.Makes text → trusted text) {m : String}
    (h : p.recordElement m x = .ok doc) : doc.Written trusted := by
  unfold recordElement at h
  split_ifs at h
  · cases h
    refine Xml.written_node (by decide) fun y hy => ?_
    rw [List.mem_singleton.1 hy]
    exact written_header
  · obtain ⟨metadata, hmetadata, hdoc⟩ := bind_eq_ok_iff.1 h
    cases hdoc
    refine Xml.written_node (by decide) fun y hy => ?_
    simp only [List.mem_cons, List.not_mem_nil, or_false] at hy
    obtain rfl | rfl := hy
    · exact written_header
    · exact .metadata (hmakes _ ⟨m, x, hmetadata⟩)

theorem written_listElement
    (hmakes : verb = .listRecords → ∀ text, p.mappers.Makes text → trusted text) {m : String}
    (h : p.listElement verb m x = .ok doc) : doc.Written trusted := by
  unfold listElement at h
  split_ifs at h with hverb
  · exact written_recordElement (hmakes hverb) h
  · cases h
    exact written_header

/-! ### The verbs -/

theorem yields_answer_identify :
    Yields (fun _ => True) (p.identify src) (Xml.IsAnswer trusted .identify) := by
  unfold identify
  refine Yields.bind (yields_true _) fun earliest _ => yields_pure (Xml.isAnswer ?_)
  simp only [List.mem_cons, List.not_mem_nil, or_false, forall_eq_or_imp, forall_eq]
  refine ⟨?_, ?_, ?_, ?_, ?_, ?_, ?_⟩ <;> exact Xml.written_leaf (by decide)

theorem written_formatElement (f : MetadataFormat) : (formatElement f).Written trusted := by
  refine Xml.written_node (by decide) ?_
  simp only [List.mem_cons, List.not_mem_nil, or_false, forall_eq_or_imp, forall_eq]
  refine ⟨?_, ?_, ?_⟩ <;> exact Xml.written_leaf (by decide)

theorem yields_answer_listMetadataFormats : Yields (fun _ => True) (p.listMetadataFormats src q)
    (Xml.IsAnswer trusted .listMetadataFormats) := by
  unfold listMetadataFormats
  refine Yields.bind (yields_true _) fun t _ => ?_
  simp only
  split_ifs
  · exact yields_fail
  · refine yields_pure (Xml.isAnswer fun x hx => ?_)
    obtain ⟨f, -, rfl⟩ := List.mem_map.1 hx
    exact written_formatElement f

theorem written_setElement (d : SetDescription) : (setElement d).Written trusted := by
  refine Xml.written_node (by decide) fun x hx => ?_
  simp only [List.mem_cons] at hx
  obtain rfl | rfl | hx := hx
  · exact Xml.written_leaf (by decide)
  · exact Xml.written_leaf (by decide)
  · split at hx
    · rw [List.mem_singleton.1 hx]
      refine Xml.written_node (by decide) fun y hy => ?_
      rw [List.mem_singleton.1 hy]
      exact Xml.written_leaf (by decide)
    · cases hx

theorem isAnswer_listSets (h : p.listSets q = .ok doc) : Xml.IsAnswer trusted .listSets doc := by
  unfold listSets at h
  simp only at h
  split_ifs at h
  cases h
  refine Xml.isAnswer fun x hx => ?_
  obtain ⟨d, -, rfl⟩ := List.mem_map.1 hx
  exact written_setElement d

theorem yields_answer_getRecord (hmakes : ∀ text, p.mappers.Makes text → trusted text) :
    Yields (fun _ => True) (p.getRecord src q) (Xml.IsAnswer trusted .getRecord) := by
  unfold getRecord
  split
  · refine Yields.bind (yields_true _) fun uri _ => ?_
    refine Yields.bind (yields_true _) fun x _ => ?_
    refine Yields.bind (yields_ofExcept fun element h => h) fun element helement =>
      yields_pure (Xml.isAnswer fun y hy => ?_)
    rw [List.mem_singleton.1 hy]
    exact written_recordElement hmakes helement
  · exact yields_fail

theorem written_of_mem_tokenElements {page : Page} (h : doc ∈ p.tokenElements q page) :
    doc.Written trusted := by
  unfold tokenElements at h
  split at h
  · rw [List.mem_singleton.1 h]
    exact Xml.written_leaf (by decide)
  · split_ifs at h
    · rw [List.mem_singleton.1 h]
      exact .void (by decide)
    · cases h

/-- The answer that a page makes. -/
def listed (p : Provider) (q : Request) (verb : Verb) (page : Page) : Except Fault Xml := do
  let m ← p.formatOfPage q page
  if page.records.isEmpty && q.resumptionToken.isNone then .error .emptyListing
  else
    let elements ← page.records.mapM (p.listElement verb m)
    return .node verb.name (elements ++ p.tokenElements q page)

theorem result_list (s : σ) : ((p.list src verb q).run s).result = listRequest q >>= fun request =>
    ((p.repository.find src request).run s).result >>= p.listed q verb := by
  rw [list, result_ofExcept_bind]
  refine congrArg _ (funext fun request => ?_)
  rw [result_bind]
  refine congrArg _ (funext fun page => ?_)
  rw [result_ofExcept_bind, listed]
  refine congrArg _ (funext fun m => ?_)
  split_ifs
  · rfl
  · rw [result_ofExcept_bind]
    rfl

theorem isAnswer_listed
    (hmakes : verb = .listRecords → ∀ text, p.mappers.Makes text → trusted text) {page : Page}
    (h : p.listed q verb page = .ok doc) : Xml.IsAnswer trusted verb doc := by
  obtain ⟨m, -, h⟩ := bind_eq_ok_iff.1 h
  split_ifs at h
  obtain ⟨elements, helements, h⟩ := bind_eq_ok_iff.1 h
  cases h
  refine Xml.isAnswer fun x hx => ?_
  rcases List.mem_append.1 hx with hx | hx
  · obtain ⟨y, -, hxy⟩ := exists_of_mem_mapM helements hx
    exact written_listElement hmakes hxy
  · exact written_of_mem_tokenElements hx

theorem yields_answer_list
    (hmakes : verb = .listRecords → ∀ text, p.mappers.Makes text → trusted text) :
    Yields (fun _ => True) (p.list src verb q) (Xml.IsAnswer trusted verb) := by
  refine fun s _ => ⟨fun doc hdoc => ?_, trivial⟩
  rw [result_list] at hdoc
  obtain ⟨request, -, hdoc⟩ := bind_eq_ok_iff.1 hdoc
  obtain ⟨page, -, hlisted⟩ := bind_eq_ok_iff.1 hdoc
  exact isAnswer_listed hmakes hlisted

/-- **The answer to a request is named for its verb and made of the vocabulary.** -/
theorem yields_answer (hmakes : ∀ text, p.mappers.Makes text → trusted text) (verb : Verb) :
    Yields (fun _ => True) (p.answer src q verb) (Xml.IsAnswer trusted verb) := by
  cases verb with
  | identify => exact yields_answer_identify
  | listMetadataFormats => exact yields_answer_listMetadataFormats
  | listSets => exact yields_ofExcept fun _ => isAnswer_listSets
  | getRecord => exact yields_answer_getRecord hmakes
  | listIdentifiers => exact yields_answer_list nofun
  | listRecords => exact yields_answer_list fun _ => hmakes

/-! ### Responses -/

theorem written_envelope (echoed : List (Argument × String)) (now : Instant)
    (h : doc.Written trusted) : (p.envelope echoed now doc).Written trusted := by
  refine .element (by decide) (by decide) ?_
  simp only [List.mem_cons, List.not_mem_nil, or_false, forall_eq_or_imp, forall_eq]
  refine ⟨Xml.written_leaf (by decide), .text (by decide) fun a ha => ?_, h⟩
  obtain ⟨⟨argument, value⟩, -, rfl⟩ := List.mem_map.1 ha
  cases argument <;> simp [Argument.name, Xml.attributeNames]

theorem written_errorElement {code : String} {f : Fault} :
    (errorElement code f).Written trusted :=
  .text (by decide) (by simp [Xml.attributeNames])

end Provider

end Harvest
