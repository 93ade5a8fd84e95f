import Harvest.Xml
import Mathlib.Logic.Basic

/-!
# The characters of documents

There are characters for which XML has no place, not even escaped: most control characters, and two
at the end of the first plane (`Xml.IsChar`).  What is written around texts is legal, and escaping
puts legal characters in place of legal ones.  So **a document has the illegal characters of its
texts, and no others**.

This is said for every alphabet that has all legal characters (`Xml.Alphabet`): a part is written in
it exactly if its texts and values are spelled in it, provided that its names are.  The smallest
alphabet has nothing else; `Xml.Alphabet.joined` adds the characters of some texts, and what is
written in that one has its illegal characters from these texts.
-/

namespace Harvest.Xml

/-- The characters of XML 1.0 (its production `Char`). -/
def IsChar (c : Char) : Prop :=
  0x20 ≤ c.toNat ∧ c.toNat ≤ 0xD7FF ∨ 0xE000 ≤ c.toNat ∧ c.toNat ≤ 0xFFFD ∨
    0x10000 ≤ c.toNat ∧ c.toNat ≤ 0x10FFFF ∨ c = '\t' ∨ c = '\n' ∨ c = '\r'

instance (c : Char) : Decidable (IsChar c) := inferInstanceAs (Decidable (_ ∨ _))

theorem isChar_of_between {c first last : Char} (h : first.val ≤ c.val ∧ c.val ≤ last.val)
    (hfirst : 0x20 ≤ first.toNat) (hlast : last.toNat ≤ 0xD7FF) : IsChar c :=
  .inl ⟨Nat.le_trans hfirst (UInt32.le_iff_toNat_le.1 h.1),
    Nat.le_trans (UInt32.le_iff_toNat_le.1 h.2) hlast⟩

theorem isChar_of_isDigit {c : Char} (h : c.isDigit = true) : IsChar c := by
  have hbounds : '0'.val ≤ c.val ∧ c.val ≤ '9'.val :=
    (Bool.and_eq_true_iff.1 h).imp of_decide_eq_true of_decide_eq_true
  exact isChar_of_between hbounds (by decide) (by decide)

theorem isChar_of_isAlphanum {c : Char} (h : c.isAlphanum = true) : IsChar c := by
  obtain halpha | hdigit := Bool.or_eq_true_iff.1 h
  · obtain hupper | hlower := Bool.or_eq_true_iff.1 halpha
    · have hbounds : 'A'.val ≤ c.val ∧ c.val ≤ 'Z'.val := of_decide_eq_true hupper
      exact isChar_of_between hbounds (by decide) (by decide)
    · have hbounds : 'a'.val ≤ c.val ∧ c.val ≤ 'z'.val :=
        (Bool.and_eq_true_iff.1 hlower).imp of_decide_eq_true of_decide_eq_true
      exact isChar_of_between hbounds (by decide) (by decide)
  · exact isChar_of_isDigit hdigit

/-- An alphabet with all legal characters. -/
structure Alphabet where
  Has : Char → Prop
  has_of_isChar : ∀ {c}, IsChar c → Has c

namespace Alphabet

/-- The legal characters. -/
def legal : Alphabet := ⟨IsChar, id⟩

/-- The legal characters and those of some texts. -/
def joined (texts : String → Prop) : Alphabet where
  Has c := IsChar c ∨ ∃ s, texts s ∧ c ∈ s.toList
  has_of_isChar := .inl

/-- All characters but an illegal one. -/
def without (c : Char) (hc : ¬ IsChar c) : Alphabet where
  Has d := d ≠ c
  has_of_isChar hd h := hc (h ▸ hd)

/-- All characters are in the alphabet. -/
def Covers (A : Alphabet) (cs : List Char) : Prop := ∀ c ∈ cs, A.Has c

/-- All characters of a text are in the alphabet. -/
def Spells (A : Alphabet) (s : String) : Prop := A.Covers s.toList

/-- All characters of a part are in the alphabet. -/
def Writes (A : Alphabet) (x : Xml) : Prop := A.Covers x.chars

instance (c : Char) : Decidable (legal.Has c) := inferInstanceAs (Decidable (IsChar c))

-- there are only so many characters, but a short list is not to be decided by trying them all
instance (cs : List Char) : Decidable (legal.Covers cs) := List.decidableBAll IsChar cs

instance (s : String) : Decidable (legal.Spells s) :=
  inferInstanceAs (Decidable (legal.Covers s.toList))

variable {A : Alphabet} {c : Char} {cs ds : List Char} {s t tag value : String}
  {attributes : List (String × String)} {content : List Xml} {x : Xml} {texts : String → Prop}

/-! ### Characters -/

@[simp]
theorem covers_nil : A.Covers [] := nofun

@[simp]
theorem covers_cons_iff : A.Covers (c :: cs) ↔ A.Has c ∧ A.Covers cs := List.forall_mem_cons

@[simp]
theorem covers_append_iff : A.Covers (cs ++ ds) ↔ A.Covers cs ∧ A.Covers ds :=
  List.forall_mem_append

theorem covers_flatMap_iff {α : Type} {f : α → List Char} {xs : List α} :
    A.Covers (xs.flatMap f) ↔ ∀ x ∈ xs, A.Covers (f x) := by
  simp only [Covers, List.mem_flatMap, forall_exists_index, and_imp]
  exact ⟨fun h x hx c hc => h c x hx hc, fun h c x hx hc => h x hx c hc⟩

theorem covers_of_legal (h : ∀ c ∈ cs, IsChar c) : A.Covers cs :=
  fun c hc => A.has_of_isChar (h c hc)

/-! ### Texts -/

theorem spells_of_legal (h : legal.Spells s) : A.Spells s := covers_of_legal h

theorem spells_append_iff : A.Spells (s ++ t) ↔ A.Spells s ∧ A.Spells t := by
  rw [Spells, String.toList_append, covers_append_iff]
  rfl

theorem spells_ofList_iff : A.Spells (String.ofList cs) ↔ A.Covers cs := by
  rw [Spells, String.toList_ofList]

theorem spells_between {before after : String} (hbefore : legal.Spells before)
    (hafter : legal.Spells after) (h : A.Spells s) : A.Spells (before ++ s ++ after) :=
  spells_append_iff.2 ⟨spells_append_iff.2 ⟨spells_of_legal hbefore, h⟩, spells_of_legal hafter⟩

theorem joined_spells (h : texts s) : (joined texts).Spells s := fun _ hc => .inr ⟨s, h, hc⟩

theorem legal_spells_of_joined (h : (joined texts).Spells s)
    (htexts : ∀ t, texts t → legal.Spells t) : legal.Spells s := by
  intro c hc
  obtain hlegal | ⟨t, ht, hct⟩ := h c hc
  · exact hlegal
  · exact htexts t ht c hct

/-- An illegal character stands in a text if it is needed to spell it. -/
theorem without_spells_iff {hc : ¬ IsChar c} : (without c hc).Spells s ↔ c ∉ s.toList :=
  ⟨fun h hmem => h c hmem rfl, fun h _ hd heq => h (heq ▸ hd)⟩

/-! ### Escaped texts -/

theorem covers_escapeChar_iff : A.Covers (escapeChar c) ↔ A.Has c := by
  have hentity : ∀ {c : Char} {cs : List Char}, legal.Covers (c :: cs) →
      (A.Covers cs ↔ A.Has c) := fun h =>
    iff_of_true (covers_of_legal fun d hd => h d (List.mem_cons_of_mem _ hd))
      (A.has_of_isChar (h _ List.mem_cons_self))
  unfold escapeChar
  split
  · exact hentity (by decide)
  · exact hentity (by decide)
  · exact hentity (by decide)
  · exact hentity (by decide)
  · exact hentity (by decide)
  · simp

theorem covers_escape_iff : A.Covers (escape s) ↔ A.Spells s := by
  simp only [escape, covers_flatMap_iff, covers_escapeChar_iff]
  rfl

/-! ### Parts -/

@[simp]
theorem writes_text_iff : A.Writes (.text s) ↔ A.Spells s := covers_escape_iff

@[simp]
theorem writes_markup_iff : A.Writes (.markup s) ↔ A.Spells s := Iff.rfl

theorem has_punctuation (A : Alphabet) :
    A.Has ' ' ∧ A.Has '=' ∧ A.Has '"' ∧ A.Has '<' ∧ A.Has '>' ∧ A.Has '/' := by
  refine ⟨?_, ?_, ?_, ?_, ?_, ?_⟩ <;> exact A.has_of_isChar (by decide)

theorem covers_attributeChars_iff {a : String × String} :
    A.Covers (attributeChars a) ↔ A.Spells a.1 ∧ A.Spells a.2 := by
  simp only [attributeChars, covers_cons_iff, covers_append_iff, covers_escape_iff, covers_nil,
    A.has_punctuation, true_and, and_true]
  rfl

theorem covers_contentChars_iff :
    A.Covers (contentChars content) ↔ ∀ x ∈ content, A.Writes x := by
  induction content with
  | nil => simp [contentChars]
  | cons x xs ih =>
    rw [contentChars, covers_append_iff, List.forall_mem_cons, ih]
    rfl

/-- **An element is written in an alphabet if its name, its attributes and its content are.** -/
theorem writes_element_iff : A.Writes (.element tag attributes content) ↔ A.Spells tag ∧
    (∀ a ∈ attributes, A.Spells a.1 ∧ A.Spells a.2) ∧ ∀ x ∈ content, A.Writes x := by
  simp only [Writes, chars, openTag, closeTag, covers_cons_iff, covers_append_iff, covers_nil,
    covers_flatMap_iff, covers_attributeChars_iff, covers_contentChars_iff, A.has_punctuation,
    true_and, and_true]
  exact ⟨fun ⟨⟨htag, ha⟩, hcontent, _⟩ => ⟨htag, ha, hcontent⟩,
    fun ⟨htag, ha, hcontent⟩ => ⟨⟨htag, ha⟩, hcontent, htag⟩⟩

theorem writes_node_iff (htag : legal.Spells tag) :
    A.Writes (.node tag content) ↔ ∀ x ∈ content, A.Writes x := by
  simp [node, writes_element_iff, spells_of_legal htag]

theorem writes_leaf_iff (htag : legal.Spells tag) :
    A.Writes (.leaf tag value) ↔ A.Spells value := by
  simp [leaf, writes_node_iff htag]

theorem writes_void (htag : legal.Spells tag) : A.Writes (.void tag) := by
  simp only [Writes, chars, covers_cons_iff, covers_append_iff, covers_nil, A.has_punctuation,
    true_and, and_true]
  exact spells_of_legal htag

/-- **A document is spelled in an alphabet if its element is written in it.** -/
theorem spells_document_iff : A.Spells x.document ↔ A.Writes x := by
  have hdeclaration : A.Spells declaration := spells_of_legal (by decide +kernel)
  have hend : A.Has '\n' := A.has_of_isChar (by decide)
  simp only [document, spells_append_iff, spells_ofList_iff, covers_append_iff, covers_cons_iff,
    covers_nil, hdeclaration, hend, true_and, and_true]
  rfl

end Alphabet

end Harvest.Xml
