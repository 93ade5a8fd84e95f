/-!
# XML

Answers are put together as trees and written at one place.  Texts and the values of attributes
are escaped there; the metadata that mappers make is written as it is.
-/

namespace Harvest

/-- A part of an XML document. -/
inductive Xml where
  /-- Characters, which are escaped. -/
  | text (s : String)
  /-- Markup from elsewhere, which is well formed already. -/
  | markup (s : String)
  | element (tag : String) (attributes : List (String × String)) (content : List Xml)
  /-- An element with nothing in it, written as one tag. -/
  | void (tag : String)
  deriving Repr

namespace Xml

/-- A character in a text or in the value of an attribute. -/
def escapeChar : Char → List Char
  | '<' => ['&', 'l', 't', ';']
  | '>' => ['&', 'g', 't', ';']
  | '&' => ['&', 'a', 'm', 'p', ';']
  | '\'' => ['&', 'a', 'p', 'o', 's', ';']
  | '"' => ['&', 'q', 'u', 'o', 't', ';']
  | c => [c]

/-- A text in a document. -/
def escape (s : String) : List Char := s.toList.flatMap escapeChar

/-- An attribute, after a blank. -/
def attributeChars (a : String × String) : List Char :=
  ' ' :: (a.1.toList ++ '=' :: '"' :: (escape a.2 ++ ['"']))

/-- A start tag. -/
def openTag (tag : String) (attributes : List (String × String)) : List Char :=
  '<' :: (tag.toList ++ attributes.flatMap attributeChars ++ ['>'])

/-- An end tag. -/
def closeTag (tag : String) : List Char := '<' :: '/' :: (tag.toList ++ ['>'])

mutual

/-- The characters of a part. -/
def chars : Xml → List Char
  | .text s => escape s
  | .markup s => s.toList
  | .element tag attributes content =>
    openTag tag attributes ++ (contentChars content ++ closeTag tag)
  | .void tag => '<' :: (tag.toList ++ ['/', '>'])

/-- The characters of parts that follow each other. -/
def contentChars : List Xml → List Char
  | [] => []
  | x :: xs => x.chars ++ contentChars xs

end

/-- An element with no attributes. -/
def node (tag : String) (content : List Xml) : Xml := .element tag [] content

/-- An element that holds a text. -/
def leaf (tag value : String) : Xml := node tag [.text value]

/-- The line in front of every document. -/
def declaration : String := "<?xml version=\"1.0\" encoding=\"UTF-8\"?>\n"

/-- A document with one element. -/
def document (x : Xml) : String := declaration ++ String.ofList (x.chars ++ ['\n'])

end Xml

end Harvest
