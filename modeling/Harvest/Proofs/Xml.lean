import Harvest.Xml

/-!
# Parts of documents

`Xml.Part x y` says that `x` is `y` or stands somewhere inside it.  The parts of a document can be
told from the way it was put together (`Xml.part_element_iff`).
-/

namespace Harvest.Xml

/-- A part of a document, at any depth. -/
inductive Part (x : Xml) : Xml → Prop where
  | self : Part x x
  | content {tag : String} {attributes : List (String × String)} {content : List Xml} {y : Xml} :
    y ∈ content → Part x y → Part x (.element tag attributes content)

/-- The name of an element. -/
def tag? : Xml → Option String
  | text _ | markup _ => none
  | element tag _ _ | void tag => some tag

variable {x y z : Xml} {s tag value : String} {attributes : List (String × String)}
  {content : List Xml}

@[simp]
theorem part_text_iff : Part x (.text s) ↔ x = .text s := by
  constructor
  · rintro ⟨⟩
    rfl
  · rintro rfl
    exact .self

@[simp]
theorem part_markup_iff : Part x (.markup s) ↔ x = .markup s := by
  constructor
  · rintro ⟨⟩
    rfl
  · rintro rfl
    exact .self

@[simp]
theorem part_void_iff : Part x (.void tag) ↔ x = .void tag := by
  constructor
  · rintro ⟨⟩
    rfl
  · rintro rfl
    exact .self

/-- The parts of an element are the element itself and those of its content. -/
theorem part_element_iff : Part x (.element tag attributes content) ↔
    x = .element tag attributes content ∨ ∃ y ∈ content, Part x y := by
  constructor
  · rintro (_ | ⟨hy, hxy⟩)
    · exact .inl rfl
    · exact .inr ⟨_, hy, hxy⟩
  · rintro (rfl | ⟨y, hy, hxy⟩)
    · exact .self
    · exact .content hy hxy

end Harvest.Xml
