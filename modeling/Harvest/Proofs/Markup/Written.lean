import Harvest.Proofs.Markup

/-!
# Documents that can be read

Documents are made of a fixed vocabulary (`Xml.elementNames`, `Xml.attributeNames`): a part that is
`Xml.Written` is an element of it that holds a text or further such elements, or it is metadata.
What it is read as can be told from how it was put together (`Xml.nodes`), provided that metadata
is a fragment by itself: **the characters of a part are read as its nodes** (`Xml.Written.reads`).
These nodes have markup from the vocabulary only (`Markup.Node.Plain`), and what was escaped is
what is found (`Markup.unescape?_escape`).
-/

namespace Harvest

namespace Xml

/-- The names of elements, but for metadata. -/
def elementNames : List String :=
  ["OAI-PMH", "responseDate", "request", "error", "Identify", "repositoryName", "baseURL",
    "protocolVersion", "adminEmail", "earliestDatestamp", "deletedRecord", "granularity",
    "ListMetadataFormats", "metadataFormat", "metadataPrefix", "schema", "metadataNamespace",
    "ListSets", "set", "setSpec", "setName", "setDescription", "description", "GetRecord",
    "ListIdentifiers", "ListRecords", "record", "header", "identifier", "datestamp",
    "resumptionToken"]

/-- The names of attributes. -/
def attributeNames : List String :=
  ["xmlns", "xmlns:xsi", "xsi:schemaLocation", "status", "code", "verb", "identifier",
    "metadataPrefix", "from", "until", "set", "resumptionToken"]

/-- A part of a document that is made of the vocabulary.  Markup from elsewhere stands in metadata
only, and is trusted. -/
inductive Written (trusted : String → Prop) : Xml → Prop where
  | void {tag : String} : tag ∈ elementNames → Written trusted (.void tag)
  | text {tag s : String} {attributes : List (String × String)} : tag ∈ elementNames →
    (∀ a ∈ attributes, a.1 ∈ attributeNames) → Written trusted (.element tag attributes [.text s])
  | element {tag : String} {attributes : List (String × String)} {content : List Xml} :
    tag ∈ elementNames → (∀ a ∈ attributes, a.1 ∈ attributeNames) →
    (∀ x ∈ content, Written trusted x) → Written trusted (.element tag attributes content)
  | metadata {s : String} : trusted s → Written trusted (.node "metadata" [.markup s])

end Xml

namespace Markup

/-- A node with markup from the vocabulary only, whose texts and values can be told.  What stands
in metadata is trusted. -/
inductive Node.Plain (trusted : String → Prop) : Node → Prop where
  | text {s : String} : (unescape? s.toList).isSome → Plain trusted (.text s)
  | element {name inner : String} {attributes : List (String × String)} {content : List Node} :
    name ∈ Xml.elementNames →
    (∀ a ∈ attributes, a.1 ∈ Xml.attributeNames ∧ (unescape? a.2.toList).isSome) →
    (∀ n ∈ content, Plain trusted n) → Plain trusted (.element name attributes inner content)
  | metadata {inner : String} {content : List Node} : trusted inner →
    fragment? inner.toList = some content → Plain trusted (.element "metadata" [] inner content)

/-! ### Escaped texts -/

theorem unescape?_escapeChar (c : Char) (cs : List Char) :
    unescape? (Xml.escapeChar c ++ cs) = (unescape? cs).map (c :: ·) := by
  unfold Xml.escapeChar
  split
  · rfl
  · rfl
  · rfl
  · rfl
  · rfl
  · rename_i hamp _ _
    have hc : c ≠ '&' := fun h => hamp h
    rw [List.singleton_append, unescape?, if_neg hc] <;> simp [hc]

/-- **What was escaped is found again.** -/
theorem unescape?_escape (s : String) : unescape? (Xml.escape s) = some s.toList := by
  unfold Xml.escape
  induction s.toList with
  | nil => rfl
  | cons c cs ih => rw [List.flatMap_cons, unescape?_escapeChar, ih, Option.map_some]

/-- An escaped text cannot end what it stands in. -/
theorem ne_of_mem_escape {c : Char} {s : String} (hc : c ∈ Xml.escape s) : c ≠ '"' ∧ c ≠ '<' := by
  obtain ⟨d, -, hd⟩ := List.mem_flatMap.1 hc
  unfold Xml.escapeChar at hd
  split at hd
  case h_6 hlt _ _ _ hquote =>
    rw [List.mem_singleton.1 hd]
    exact ⟨hquote, hlt⟩
  -- neither character stands in an entity
  all_goals constructor <;> rintro rfl <;> simp at hd

theorem isSome_unescape?_escape (s : String) :
    (unescape? (String.ofList (Xml.escape s)).toList).isSome := by
  rw [String.toList_ofList, unescape?_escape]
  rfl

end Markup

namespace Xml

open Markup (Node Fills Reads Clean isName fragment?)

/-! ### What a document is read as -/

/-- The nodes of a text. -/
def textNodes (s : String) : List Node :=
  if s = "" then [] else [.text (String.ofList (escape s))]

/-- An attribute as it is read. -/
def readAttribute (a : String × String) : String × String := (a.1, String.ofList (escape a.2))

mutual

/-- What a part of a document is read as. -/
def nodes : Xml → List Node
  | .text s => textNodes s
  | .markup s => (fragment? s.toList).getD []
  | .element tag attributes content =>
    [.element tag (attributes.map readAttribute) (String.ofList (contentChars content))
      (contentNodes content)]
  | .void tag => [.element tag [] "" []]

/-- What parts that follow each other are read as. -/
def contentNodes : List Xml → List Node
  | [] => []
  | x :: xs => x.nodes ++ contentNodes xs

end

variable {trusted : String → Prop} {x : Xml} {tag s : String} {attributes : List (String × String)}
  {content : List Xml}

theorem isName_of_mem (h : tag ∈ elementNames ∨ tag ∈ attributeNames ∨ tag = "metadata") :
    isName tag.toList := by
  have hall : ∀ name ∈ elementNames ++ (attributeNames ++ ["metadata"]), isName name.toList := by
    decide +kernel
  exact hall tag (by simpa using h)

theorem fills_text (s : String) : Fills (escape s) (textNodes s) := by
  unfold textNodes
  split_ifs with hs
  · rw [hs]
    exact Markup.fills_nil
  · refine Markup.fills_text (fun hnil => hs ?_) fun c hc => (Markup.ne_of_mem_escape hc).2
    have hs := Markup.unescape?_escape s
    rw [hnil, Markup.unescape?, Option.some.injEq] at hs
    exact String.toList_eq_nil_iff.1 hs.symm

/-- An attribute, by its characters. -/
def attributeParts (a : String × String) : List Char × List Char := (a.1.toList, escape a.2)

theorem reads_element {ns : List Node} (hname : isName tag.toList)
    (hattributes : ∀ a ∈ attributes, a.1 ∈ attributeNames) (h : Fills (contentChars content) ns) :
    Reads (element tag attributes content).chars
      [.element tag (attributes.map readAttribute) (String.ofList (contentChars content)) ns] := by
  have hclean : ∀ a ∈ attributes.map attributeParts, Clean a := by
    intro a ha
    obtain ⟨b, hb, rfl⟩ := List.mem_map.1 ha
    exact ⟨isName_of_mem (.inr (.inl (hattributes b hb))), fun c => Markup.ne_of_mem_escape⟩
  have hwritten : (attributes.map attributeParts).flatMap Markup.written =
      attributes.flatMap attributeChars := by
    rw [List.flatMap_map]
    rfl
  have hread := h.element hname hclean
  rw [hwritten] at hread
  have hread' : ∀ as : List (String × String), as.map readAttribute =
      (as.map attributeParts).map fun a => (String.ofList a.1, String.ofList a.2) := by
    simp [readAttribute, attributeParts]
  simpa [chars, openTag, closeTag, Node.ofTag, hread'] using hread

theorem fills_content (h : ∀ x ∈ content, Reads x.chars x.nodes) :
    Fills (contentChars content) (contentNodes content) := by
  induction content with
  | nil => exact Markup.fills_nil
  | cons x xs ih =>
    obtain ⟨hx, hxs⟩ := List.forall_mem_cons.1 h
    exact hx.append (ih hxs)

/-- **The characters of a part are read as its nodes.** -/
theorem Written.reads (htrusted : ∀ s, trusted s → (fragment? s.toList).isSome)
    (h : Written trusted x) : Reads x.chars x.nodes := by
  induction h with
  | void htag =>
    have hread := Markup.reads_void (isName_of_mem (.inl htag))
    simpa [chars, nodes, Node.ofTag] using hread
  | text htag hattributes =>
    refine reads_element (isName_of_mem (.inl htag)) hattributes ?_
    simpa [contentChars, contentNodes, chars, nodes] using fills_text _
  | element htag hattributes _ ih =>
    exact reads_element (isName_of_mem (.inl htag)) hattributes (fills_content ih)
  | @metadata s hs =>
    refine reads_element (isName_of_mem (.inr (.inr rfl))) (by simp) ?_
    obtain ⟨ns, hns⟩ := Option.isSome_iff_exists.1 (htrusted s hs)
    simpa [contentChars, contentNodes, chars, nodes, hns] using Markup.fills_of_fragment? hns

theorem Written.fragment?_chars (htrusted : ∀ s, trusted s → (fragment? s.toList).isSome)
    (h : Written trusted x) : fragment? (x.chars ++ ['\n']) = some (x.nodes ++ [.text "\n"]) := by
  have hend : Fills ['\n'] [.text "\n"] := Markup.fills_text (by simp) (by simp)
  exact ((h.reads htrusted).append hend).fragment?

theorem mem_contentNodes_iff {n : Node} :
    n ∈ contentNodes content ↔ ∃ x ∈ content, n ∈ x.nodes := by
  induction content with
  | nil => simp [contentNodes]
  | cons x xs ih => simp [contentNodes, ih]

theorem Written.plain (htrusted : ∀ s, trusted s → (fragment? s.toList).isSome)
    (h : Written trusted x) : ∀ n ∈ x.nodes, n.Plain trusted := by
  have hattribute : ∀ {attributes : List (String × String)},
      (∀ a ∈ attributes, a.1 ∈ attributeNames) → ∀ a ∈ attributes.map readAttribute,
        a.1 ∈ attributeNames ∧ (Markup.unescape? a.2.toList).isSome := by
    intro attributes hattributes a ha
    obtain ⟨b, hb, rfl⟩ := List.mem_map.1 ha
    exact ⟨hattributes b hb, Markup.isSome_unescape?_escape _⟩
  induction h with
  | void htag =>
    intro n hn
    rw [List.mem_singleton.1 hn]
    exact .element htag (by simp) (by simp)
  | @text tag s attributes htag hattributes =>
    intro n hn
    rw [List.mem_singleton.1 hn]
    refine .element htag (hattribute hattributes) fun m hm => ?_
    simp only [contentNodes, nodes, List.append_nil, textNodes] at hm
    split_ifs at hm
    · cases hm
    · rw [List.mem_singleton.1 hm]
      exact .text (Markup.isSome_unescape?_escape s)
  | @element tag attributes content htag hattributes _ ih =>
    intro n hn
    rw [List.mem_singleton.1 hn]
    refine .element htag (hattribute hattributes) fun m hm => ?_
    obtain ⟨y, hy, hm⟩ := mem_contentNodes_iff.1 hm
    exact ih y hy m hm
  | @metadata s hs =>
    intro n hn
    rw [List.mem_singleton.1 hn]
    obtain ⟨ns, hns⟩ := Option.isSome_iff_exists.1 (htrusted s hs)
    refine .metadata ?_ ?_
    · simpa [contentChars, chars] using hs
    · simp [contentChars, chars, contentNodes, nodes, hns]

end Xml

end Harvest
