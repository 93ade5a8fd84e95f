import Harvest.Xml
import Mathlib.Tactic.SplitIfs

/-!
# Reading markup

What a harvester's reader makes of a text with tags.  The text is cut into lexemes, one character
after the other (`Markup.Scanner.step`), and the lexemes are nested: an end tag closes the element
that was opened last, which must have its name (`Markup.nestStep`).  A text in which everything
that is opened is closed is a fragment, and `Markup.fragment?` gives its nodes.  Elements keep the
text between their tags as it stands there; entities are replaced at the end, by
`Markup.unescape?`.

Both passes look at what is before them only, so fragments can be put side by side and inside each
other: `Markup.Fills` is for what stands inside an element, `Markup.Reads` for whole elements, and
`Markup.Fills.element` builds one from the other.
-/

namespace Harvest.Markup

/-! ### Lexemes -/

/-- The start of an element: its name, and its attributes with their values as they are written. -/
structure Tag where
  name : List Char
  attributes : List (List Char × List Char) := []
  deriving DecidableEq, Repr

namespace Tag

/-- A tag with one more attribute. -/
def withAttribute (t : Tag) (key value : List Char) : Tag :=
  { t with attributes := t.attributes ++ [(key, value)] }

end Tag

/-- What a part of a text is. -/
inductive Kind where
  /-- A start tag. -/
  | start (t : Tag)
  /-- An end tag. -/
  | stop (name : List Char)
  /-- The tag of an element with nothing in it. -/
  | void (t : Tag)
  /-- Characters between tags. -/
  | text
  /-- A comment, a section of characters or an instruction. -/
  | aside
  deriving DecidableEq, Repr

/-- A part of a text, as it is written. -/
structure Lexeme where
  kind : Kind
  source : List Char
  deriving DecidableEq, Repr

/-- Blanks may stand inside tags. -/
def isBlank (c : Char) : Bool := c = ' ' || c = '\t' || c = '\n' || c = '\r'

/-- The characters of names: all but blanks and those that have a meaning in tags. -/
def isNameChar (c : Char) : Bool :=
  !isBlank c && c ∉ ['<', '>', '/', '=', '"', '\'', '&', '!', '?']

/-- Where a scanner is.  The characters of names and values are those that have been read. -/
inductive Place where
  /-- Between tags. -/
  | text
  /-- Right behind `<`. -/
  | tag
  /-- In the name of a start tag. -/
  | name (cs : List Char)
  /-- In a start tag, where an attribute may begin. -/
  | gap (t : Tag)
  /-- In the name of an attribute. -/
  | key (t : Tag) (cs : List Char)
  /-- Behind the name of an attribute. -/
  | equals (t : Tag) (key : List Char)
  /-- Behind the equals sign of an attribute. -/
  | quote (t : Tag) (key : List Char)
  /-- In the value of an attribute, which the mark ends. -/
  | value (t : Tag) (key : List Char) (mark : Char) (cs : List Char)
  /-- Right behind an attribute. -/
  | valued (t : Tag)
  /-- Behind the slash of an element with nothing in it. -/
  | slash (t : Tag)
  /-- In an end tag. -/
  | closing (cs : List Char)
  /-- Behind the name of an end tag. -/
  | closed (name : List Char)
  /-- Behind `<!`. -/
  | bang (cs : List Char)
  /-- In a comment, a section or an instruction, with its ending. -/
  | aside (ending cs : List Char)
  deriving DecidableEq, Repr

/-- What a character does: it starts a tag, leads to another place or ends a lexeme. -/
inductive Move where
  | begin
  | go (p : Place)
  | done (k : Kind)
  deriving DecidableEq, Repr

/-- What starts a comment, and what ends it. -/
def commentMarks : List Char × List Char := (['-', '-'], ['-', '-', '>'])

/-- What starts a section of characters, and what ends it. -/
def sectionMarks : List Char × List Char :=
  (['[', 'C', 'D', 'A', 'T', 'A', '['], [']', ']', '>'])

namespace Place

/-- Behind `<!`, wait for the start of a comment or of a section. -/
def afterBang? (cs : List Char) : Option Place :=
  if cs = commentMarks.1 then some (.aside commentMarks.2 [])
  else if cs = sectionMarks.1 then some (.aside sectionMarks.2 [])
  else if cs.isPrefixOf commentMarks.1 || cs.isPrefixOf sectionMarks.1 then some (.bang cs)
  else none

/-- Take one character. -/
def step? : Place → Char → Option Move
  | text, c => some (if c = '<' then .begin else .go .text)
  | tag, c =>
    if isNameChar c then some (.go (.name [c]))
    else if c = '/' then some (.go (.closing []))
    else if c = '!' then some (.go (.bang []))
    else if c = '?' then some (.go (.aside ['?', '>'] []))
    else none
  | name cs, c =>
    if isNameChar c then some (.go (.name (cs ++ [c])))
    else if isBlank c then some (.go (.gap ⟨cs, []⟩))
    else if c = '>' then some (.done (.start ⟨cs, []⟩))
    else if c = '/' then some (.go (.slash ⟨cs, []⟩))
    else none
  | gap t, c =>
    if isNameChar c then some (.go (.key t [c]))
    else if isBlank c then some (.go (.gap t))
    else if c = '>' then some (.done (.start t))
    else if c = '/' then some (.go (.slash t))
    else none
  | key t cs, c =>
    if isNameChar c then some (.go (.key t (cs ++ [c])))
    else if isBlank c then some (.go (.equals t cs))
    else if c = '=' then some (.go (.quote t cs))
    else none
  | equals t k, c =>
    if isBlank c then some (.go (.equals t k))
    else if c = '=' then some (.go (.quote t k))
    else none
  | quote t k, c =>
    if isBlank c then some (.go (.quote t k))
    else if c = '"' ∨ c = '\'' then some (.go (.value t k c []))
    else none
  | value t k mark cs, c =>
    if c = mark then some (.go (.valued (t.withAttribute k cs)))
    else if c = '<' then none
    else some (.go (.value t k mark (cs ++ [c])))
  | valued t, c =>
    if isBlank c then some (.go (.gap t))
    else if c = '>' then some (.done (.start t))
    else if c = '/' then some (.go (.slash t))
    else none
  | slash t, c => if c = '>' then some (.done (.void t)) else none
  | closing cs, c =>
    if isNameChar c then some (.go (.closing (cs ++ [c])))
    else if cs = [] then none
    else if isBlank c then some (.go (.closed cs))
    else if c = '>' then some (.done (.stop cs))
    else none
  | closed cs, c =>
    if isBlank c then some (.go (.closed cs))
    else if c = '>' then some (.done (.stop cs))
    else none
  | bang cs, c => (afterBang? (cs ++ [c])).map .go
  | aside ending cs, c =>
    some (if ending.isSuffixOf (cs ++ [c]) then .done .aside else .go (.aside ending (cs ++ [c])))

end Place

/-- The lexeme of characters between tags, if there are any. -/
def flushed (held : List Char) : List Lexeme := if held = [] then [] else [⟨.text, held⟩]

/-- A scanner: where it is, what it has read of the lexeme at hand, and the lexemes it has found. -/
structure Scanner where
  place : Place
  held : List Char
  found : List Lexeme
  deriving DecidableEq, Repr

namespace Scanner

/-- Take one character. -/
def step (s : Scanner) (c : Char) : Option Scanner :=
  match s.place.step? c with
  | none => none
  | some .begin => some ⟨.tag, [c], s.found ++ flushed s.held⟩
  | some (.go p) => some ⟨p, s.held ++ [c], s.found⟩
  | some (.done k) => some ⟨.text, [], s.found ++ [⟨k, s.held ++ [c]⟩]⟩

/-- Take a run of characters. -/
def run (s : Scanner) : List Char → Option Scanner
  | [] => some s
  | c :: cs => (s.step c).bind fun s' => s'.run cs

/-- The lexemes of a text that ends between tags. -/
def finish (s : Scanner) : Option (List Lexeme) :=
  if s.place = .text then some (s.found ++ flushed s.held) else none

end Scanner

/-- The lexemes of a text. -/
def lexemes? (cs : List Char) : Option (List Lexeme) :=
  ((⟨.text, [], []⟩ : Scanner).run cs).bind Scanner.finish

/-! ### Nodes -/

/-- A node of a document.  Texts, and the values of attributes, are as they are written. -/
inductive Node where
  | text (source : String)
  /-- A comment, a section of characters or an instruction. -/
  | aside (source : String)
  /-- An element, with the text between its tags and what that text is read as. -/
  | element (name : String) (attributes : List (String × String)) (inner : String)
    (content : List Node)
  deriving Repr

/-- The element of a tag. -/
def Node.ofTag (t : Tag) (inner : List Char) (content : List Node) : Node :=
  .element (String.ofList t.name)
    (t.attributes.map fun a => (String.ofList a.1, String.ofList a.2)) (String.ofList inner) content

/-- An element that is open: its start tag, and what has been read inside. -/
structure Level where
  tag : Tag
  /-- The start tag as it is written. -/
  opening : List Char
  inner : List Char := []
  content : List Node := []

namespace Level

/-- What surrounds a fragment. -/
def bottom : Level := ⟨⟨[], []⟩, [], [], []⟩

/-- A level with more nodes, and the text that they are read from. -/
def add (l : Level) (nodes : List Node) (source : List Char) : Level :=
  { l with inner := l.inner ++ source, content := l.content ++ nodes }

end Level

/-- Take one lexeme.  The element that was opened last comes first. -/
def nestStep : List Level → Lexeme → Option (List Level)
  | [], _ => none
  | l :: ls, ⟨.start t, source⟩ => some (⟨t, source, [], []⟩ :: l :: ls)
  | l :: ls, ⟨.void t, source⟩ => some (l.add [.ofTag t [] []] source :: ls)
  | l :: ls, ⟨.text, source⟩ => some (l.add [.text (String.ofList source)] source :: ls)
  | l :: ls, ⟨.aside, source⟩ => some (l.add [.aside (String.ofList source)] source :: ls)
  | [_], ⟨.stop _, _⟩ => none
  | l :: m :: ls, ⟨.stop name, source⟩ =>
    if l.tag.name = name then
      some (m.add [.ofTag l.tag l.inner l.content] (l.opening ++ (l.inner ++ source)) :: ls)
    else none

/-- Take a run of lexemes. -/
def nest (ls : List Level) : List Lexeme → Option (List Level)
  | [] => some ls
  | x :: xs => (nestStep ls x).bind fun ls' => nest ls' xs

/-- The nodes of a text in which all that is opened is closed. -/
def fragment? (cs : List Char) : Option (List Node) := do
  let lexemes ← lexemes? cs
  match ← nest [.bottom] lexemes with
  | [l] => some l.content
  | _ => none

/-- Put the characters in that the predefined entities stand for.  No other entity is known. -/
def unescape? : List Char → Option (List Char)
  | [] => some []
  | '&' :: 'l' :: 't' :: ';' :: cs => (unescape? cs).map ('<' :: ·)
  | '&' :: 'g' :: 't' :: ';' :: cs => (unescape? cs).map ('>' :: ·)
  | '&' :: 'a' :: 'm' :: 'p' :: ';' :: cs => (unescape? cs).map ('&' :: ·)
  | '&' :: 'a' :: 'p' :: 'o' :: 's' :: ';' :: cs => (unescape? cs).map ('\'' :: ·)
  | '&' :: 'q' :: 'u' :: 'o' :: 't' :: ';' :: cs => (unescape? cs).map ('"' :: ·)
  | c :: cs => if c = '&' then none else (unescape? cs).map (c :: ·)

/-! ### Runs -/

namespace Scanner

variable {s : Scanner} {c : Char} {cs ds held : List Char} {found : List Lexeme} {p p' : Place}

theorem run_append (s : Scanner) (cs ds : List Char) :
    s.run (cs ++ ds) = (s.run cs).bind fun s' => s'.run ds := by
  induction cs generalizing s with
  | nil => rfl
  | cons c cs ih =>
    rw [List.cons_append, run, run, Option.bind_assoc]
    exact congrArg _ (funext ih)

theorem run_cons_go (h : p.step? c = some (.go p')) : (⟨p, held, found⟩ : Scanner).run (c :: cs) =
    (⟨p', held ++ [c], found⟩ : Scanner).run cs := by
  simp [run, step, h]

theorem run_cons_done {k : Kind} (h : p.step? c = some (.done k)) :
    (⟨p, held, found⟩ : Scanner).run (c :: cs) =
      (⟨.text, [], found ++ [⟨k, held ++ [c]⟩]⟩ : Scanner).run cs := by
  simp [run, step, h]

theorem run_cons_begin : (⟨.text, held, found⟩ : Scanner).run ('<' :: cs) =
    (⟨.tag, ['<'], found ++ flushed held⟩ : Scanner).run cs := rfl

theorem step_found (found : List Lexeme) : (⟨p, held, found ++ s.found⟩ : Scanner).step c =
    ((⟨p, held, s.found⟩ : Scanner).step c).map fun s' =>
      { s' with found := found ++ s'.found } := by
  unfold step
  cases p.step? c with
  | none => rfl
  | some m => cases m <;> simp

theorem run_found (s : Scanner) (found : List Lexeme) (cs : List Char) :
    ({ s with found := found ++ s.found } : Scanner).run cs =
      (s.run cs).map fun s' => { s' with found := found ++ s'.found } := by
  induction cs generalizing s with
  | nil => rfl
  | cons c cs ih =>
    rw [run, run, step_found]
    cases s.step c with
    | none => rfl
    | some s' => exact ih s'

theorem run_gather {place : List Char → Place} {good : Char → Prop} (cs : List Char)
    (hgo : ∀ cs c, good c → (place cs).step? c = some (.go (place (cs ++ [c]))))
    (hds : ∀ d ∈ ds, good d) (rest : List Char) :
    (⟨place cs, held, found⟩ : Scanner).run (ds ++ rest) =
      (⟨place (cs ++ ds), held ++ ds, found⟩ : Scanner).run rest := by
  induction ds generalizing cs held with
  | nil => simp
  | cons d ds ih =>
    obtain ⟨hd, hds⟩ := List.forall_mem_cons.1 hds
    rw [List.cons_append, run_cons_go (hgo cs d hd), ih _ hds]
    simp

/-- What a scanner has read so far. -/
def source (s : Scanner) : List Char := s.found.flatMap Lexeme.source ++ s.held

@[simp]
theorem flatMap_source_flushed (held : List Char) :
    (flushed held).flatMap Lexeme.source = held := by
  unfold flushed
  split_ifs with h <;> simp [h]

theorem source_step {s' : Scanner} (h : s.step c = some s') : s'.source = s.source ++ [c] := by
  unfold step at h
  cases hp : s.place.step? c with
  | none => simp [hp] at h
  | some m => cases m <;> simp [hp] at h <;> simp [source, ← h]

theorem source_run {s' : Scanner} (h : s.run cs = some s') : s'.source = s.source ++ cs := by
  induction cs generalizing s with
  | nil =>
    cases h
    simp
  | cons c cs ih =>
    obtain ⟨t, ht, hrun⟩ := Option.bind_eq_some_iff.1 h
    rw [ih hrun, source_step ht, List.append_assoc, List.singleton_append]

end Scanner

/-! ### Nesting -/

namespace Level

@[simp]
theorem add_nil (l : Level) : l.add [] [] = l := by simp [add]

@[simp]
theorem add_add (l : Level) (ns ms : List Node) (cs ds : List Char) :
    (l.add ns cs).add ms ds = l.add (ns ++ ms) (cs ++ ds) := by simp [add]

/-- What has been read, from the elements that are open. -/
def source : List Level → List Char
  | [] => []
  | l :: ls => source ls ++ (l.opening ++ l.inner)

end Level

section Nest

variable {x : Lexeme} {xs ys : List Lexeme} {upper ls ls' : List Level} {l : Level}

theorem nest_append : nest ls (xs ++ ys) = (nest ls xs).bind fun ls' => nest ls' ys := by
  induction xs generalizing ls with
  | nil => rfl
  | cons x xs ih =>
    rw [List.cons_append, nest, nest, Option.bind_assoc]
    exact congrArg _ (funext fun _ => ih)

theorem source_nestStep (h : nestStep ls x = some ls') :
    Level.source ls' = Level.source ls ++ x.source := by
  unfold nestStep at h
  split at h
  · cases h
  · cases h
    simp [Level.source]
  · cases h
    simp [Level.source, Level.add]
  · cases h
    simp [Level.source, Level.add]
  · cases h
    simp [Level.source, Level.add]
  · cases h
  · split_ifs at h
    cases h
    simp [Level.source, Level.add]

theorem source_nest (h : nest ls xs = some ls') :
    Level.source ls' = Level.source ls ++ xs.flatMap Lexeme.source := by
  induction xs generalizing ls with
  | nil =>
    cases h
    simp
  | cons x xs ih =>
    obtain ⟨ls₁, hstep, hnest⟩ := Option.bind_eq_some_iff.1 h
    rw [ih hnest, source_nestStep hstep, List.flatMap_cons, List.append_assoc]

/-- A lexeme adds nodes to the last level, if it gets there, and does not look beneath. -/
theorem nestStep_frame (h : nestStep (upper ++ [l]) x = some ls') :
    ∃ upper' ns cs, ls' = upper' ++ [l.add ns cs] ∧
      ∀ b ls, nestStep (upper ++ b :: ls) x = some (upper' ++ b.add ns cs :: ls) := by
  obtain ⟨kind, source⟩ := x
  cases upper with
  | nil =>
    cases kind with
    | start t =>
      cases h
      exact ⟨[⟨t, source, [], []⟩], [], [], by simp, fun b ls => by simp [nestStep]⟩
    | stop name => cases h
    | void t | text | aside =>
      cases h
      exact ⟨[], _, source, rfl, fun b ls => rfl⟩
  | cons u us =>
    cases kind with
    | start t =>
      cases h
      exact ⟨⟨t, source, [], []⟩ :: u :: us, [], [], by simp, fun b ls => by simp [nestStep]⟩
    | stop name =>
      cases us with
      | nil =>
        simp only [List.cons_append, List.nil_append, nestStep] at h
        split_ifs at h with hname
        cases h
        exact ⟨[], _, _, rfl, fun b ls => by simp [nestStep, hname]⟩
      | cons v vs =>
        simp only [List.cons_append, nestStep] at h
        split_ifs at h with hname
        cases h
        refine ⟨v.add [.ofTag u.tag u.inner u.content] (u.opening ++ (u.inner ++ source)) :: vs, [],
          [], by simp, fun b ls => by simp [nestStep, hname]⟩
    | void t =>
      cases h
      exact ⟨u.add [.ofTag t [] []] source :: us, [], [], by simp, fun b ls => by simp [nestStep]⟩
    | text =>
      cases h
      exact ⟨u.add [.text (String.ofList source)] source :: us, [], [], by simp,
        fun b ls => by simp [nestStep]⟩
    | aside =>
      cases h
      exact ⟨u.add [.aside (String.ofList source)] source :: us, [], [], by simp,
        fun b ls => by simp [nestStep]⟩

theorem nest_frame (upper : List Level) (h : nest (upper ++ [l]) xs = some ls') :
    ∃ upper' ns cs, ls' = upper' ++ [l.add ns cs] ∧
      ∀ b ls, nest (upper ++ b :: ls) xs = some (upper' ++ b.add ns cs :: ls) := by
  induction xs generalizing upper l with
  | nil =>
    cases h
    exact ⟨upper, [], [], by simp, fun b ls => by simp [nest]⟩
  | cons x xs ih =>
    obtain ⟨ls₁, hstep, hnest⟩ := Option.bind_eq_some_iff.1 h
    obtain ⟨upper₁, ns, cs, rfl, hstep'⟩ := nestStep_frame hstep
    obtain ⟨upper', ms, ds, rfl, hnest'⟩ := ih _ hnest
    refine ⟨upper', ns ++ ms, cs ++ ds, by simp, fun b ls => ?_⟩
    rw [nest, hstep', Option.bind_some, hnest', Level.add_add]

end Nest

/-! ### Putting texts together -/

/-- A text that can stand inside an element, and what it is read as there. -/
def Fills (cs : List Char) (ns : List Node) : Prop :=
  ∃ xs held, (∀ found, (⟨.text, [], found⟩ : Scanner).run cs = some ⟨.text, held, found ++ xs⟩) ∧
    ∀ l ls, nest (l :: ls) (xs ++ flushed held) = some (l.add ns cs :: ls)

/-- A text that can stand between other nodes, and what it is read as there. -/
def Reads (cs : List Char) (ns : List Node) : Prop :=
  ∃ xs, (∀ held found, (⟨.text, held, found⟩ : Scanner).run cs =
      some ⟨.text, [], found ++ flushed held ++ xs⟩) ∧
    ∀ l ls, nest (l :: ls) xs = some (l.add ns cs :: ls)

section Together

variable {cs ds : List Char} {ns ms : List Node}

/-- A fragment can stand in any element. -/
theorem fills_of_fragment? (h : fragment? cs = some ns) : Fills cs ns := by
  unfold fragment? lexemes? at h
  obtain ⟨xs, hxs, h⟩ := Option.bind_eq_some_iff.1 h
  obtain ⟨s, hrun, hfinish⟩ := Option.bind_eq_some_iff.1 hxs
  obtain ⟨ls, hnest, h⟩ := Option.bind_eq_some_iff.1 h
  obtain ⟨place, held, found⟩ := s
  simp only [Scanner.finish, Option.ite_none_right_eq_some, Option.some.injEq] at hfinish
  obtain ⟨rfl, rfl⟩ := hfinish
  obtain ⟨upper, ms, ds, rfl, hframe⟩ := nest_frame [] hnest
  -- nothing is left open
  cases upper with
  | cons u us => cases us <;> cases h
  | nil =>
    obtain rfl : ms = ns := by simpa [Level.add, Level.bottom] using h
    have hds : ds = cs := by
      have hlevels := source_nest hnest
      have hsource := Scanner.source_run hrun
      simp only [Scanner.source] at hsource
      simpa [Level.source, Level.add, Level.bottom, hsource] using hlevels
    refine ⟨found, held, fun before => ?_, fun l ls => ?_⟩
    · simpa [hrun] using Scanner.run_found ⟨.text, [], []⟩ before cs
    · simpa [hds] using hframe l ls

theorem Fills.fragment? (h : Fills cs ns) : fragment? cs = some ns := by
  obtain ⟨xs, held, hrun, hnest⟩ := h
  simp [Markup.fragment?, lexemes?, hrun, Scanner.finish, hnest, Level.add, Level.bottom]

theorem fills_nil : Fills [] [] :=
  ⟨[], [], fun found => by simp [Scanner.run], fun l ls => by simp [flushed, nest]⟩

/-- Anything can follow a whole element. -/
theorem Reads.append (h : Reads cs ns) (h' : Fills ds ms) : Fills (cs ++ ds) (ns ++ ms) := by
  obtain ⟨xs, hrun, hnest⟩ := h
  obtain ⟨ys, held, hrun', hnest'⟩ := h'
  refine ⟨xs ++ ys, held, fun found => ?_, fun l ls => ?_⟩
  · rw [Scanner.run_append, hrun, Option.bind_some, hrun']
    simp [flushed]
  · rw [List.append_assoc, nest_append, hnest, Option.bind_some, hnest', Level.add_add]

theorem fills_text (hne : cs ≠ []) (hcs : ∀ c ∈ cs, c ≠ '<') :
    Fills cs [.text (String.ofList cs)] := by
  refine ⟨[], cs, fun found => ?_, fun l ls => by simp [flushed, hne, nest, nestStep]⟩
  have hgo : ∀ (ds : List Char) (c : Char), c ≠ '<' →
      Place.text.step? c = some (.go .text) := fun _ c hc => by simp [Place.step?, hc]
  have hrun : (⟨.text, [], found⟩ : Scanner).run (cs ++ []) =
      (⟨.text, [] ++ cs, found⟩ : Scanner).run [] := Scanner.run_gather [] hgo hcs []
  simpa [Scanner.run] using hrun

/-! ### Tags -/

/-- A name, of an element or of an attribute. -/
def isName (cs : List Char) : Bool := !cs.isEmpty && cs.all isNameChar

theorem isName_iff : isName cs ↔ cs ≠ [] ∧ ∀ c ∈ cs, isNameChar c := by
  simp [isName]

/-- Where an attribute may follow, or the end of a start tag. -/
structure Place.Ready (t : Tag) (p : Place) : Prop where
  blank : p.step? ' ' = some (.go (.gap t))
  close : p.step? '>' = some (.done (.start t))

theorem Place.ready_name : (Place.name cs).Ready ⟨cs, []⟩ := ⟨rfl, rfl⟩

theorem Place.ready_valued {t : Tag} : (Place.valued t).Ready t := ⟨rfl, rfl⟩

/-- An attribute as it is written. -/
def written (a : List Char × List Char) : List Char :=
  ' ' :: (a.1 ++ '=' :: '"' :: (a.2 ++ ['"']))

/-- An attribute whose value ends where it should. -/
structure Clean (a : List Char × List Char) : Prop where
  name : isName a.1
  value : ∀ c ∈ a.2, c ≠ '"' ∧ c ≠ '<'

namespace Scanner

variable {t : Tag} {p : Place} {held rest name : List Char} {found : List Lexeme}

theorem run_attribute {a : List Char × List Char} (hp : p.Ready t) (ha : Clean a) :
    (⟨p, held, found⟩ : Scanner).run (written a ++ rest) =
      (⟨.valued (t.withAttribute a.1 a.2), held ++ written a, found⟩ : Scanner).run rest := by
  obtain ⟨key, value⟩ := a
  obtain ⟨hne, hkey⟩ := isName_iff.1 ha.name
  obtain ⟨k, ks, rfl⟩ := List.exists_cons_of_ne_nil hne
  obtain ⟨hk, hks⟩ := List.forall_mem_cons.1 hkey
  have hkeys : ∀ (cs : List Char) (c : Char), isNameChar c →
      (Place.key t cs).step? c = some (.go (.key t (cs ++ [c]))) :=
    fun cs c hc => by simp [Place.step?, hc]
  have hvalues : ∀ (cs : List Char) (c : Char), c ≠ '"' ∧ c ≠ '<' →
      (Place.value t (k :: ks) '"' cs).step? c = some (.go (.value t (k :: ks) '"' (cs ++ [c]))) :=
    fun cs c hc => by simp [Place.step?, hc]
  have hblank : (Place.gap t).step? k = some (.go (.key t [k])) := by simp [Place.step?, hk]
  have hequals : (Place.key t (k :: ks)).step? '=' = some (.go (.quote t (k :: ks))) := rfl
  have hquote : (Place.quote t (k :: ks)).step? '"' = some (.go (.value t (k :: ks) '"' [])) := rfl
  have hend : (Place.value t (k :: ks) '"' value).step? '"' =
      some (.go (.valued (t.withAttribute (k :: ks) value))) := rfl
  simp only [written, List.cons_append, List.append_assoc, List.nil_append]
  rw [run_cons_go hp.blank, run_cons_go hblank, run_gather _ hkeys hks, List.singleton_append,
    run_cons_go hequals, run_cons_go hquote, run_gather _ hvalues ha.value, List.nil_append,
    run_cons_go hend]
  simp

theorem run_attributes {as : List (List Char × List Char)} (hp : p.Ready t)
    (has : ∀ a ∈ as, Clean a) :
    (⟨p, held, found⟩ : Scanner).run (as.flatMap written ++ '>' :: rest) =
      (⟨.text, [], found ++ [⟨.start { t with attributes := t.attributes ++ as },
        held ++ (as.flatMap written ++ ['>'])⟩]⟩ : Scanner).run rest := by
  induction as generalizing p t held with
  | nil => simpa using run_cons_done hp.close
  | cons a as ih =>
    obtain ⟨ha, has⟩ := List.forall_mem_cons.1 has
    rw [List.flatMap_cons, List.append_assoc, run_attribute hp ha, ih Place.ready_valued has]
    simp [Tag.withAttribute]

theorem run_name (hname : isName name) :
    (⟨.text, held, found⟩ : Scanner).run ('<' :: (name ++ rest)) =
      (⟨.name name, '<' :: name, found ++ flushed held⟩ : Scanner).run rest := by
  obtain ⟨hne, hchars⟩ := isName_iff.1 hname
  obtain ⟨c, cs, rfl⟩ := List.exists_cons_of_ne_nil hne
  obtain ⟨hc, hcs⟩ := List.forall_mem_cons.1 hchars
  have hnames : ∀ (cs : List Char) (c : Char), isNameChar c →
      (Place.name cs).step? c = some (.go (.name (cs ++ [c]))) :=
    fun cs c hc => by simp [Place.step?, hc]
  have hfirst : Place.tag.step? c = some (.go (.name [c])) := by simp [Place.step?, hc]
  rw [run_cons_begin, List.cons_append, run_cons_go hfirst, run_gather _ hnames hcs]
  simp

theorem run_closing (hname : isName name) :
    (⟨.text, held, found⟩ : Scanner).run ('<' :: '/' :: (name ++ '>' :: rest)) =
      (⟨.text, [], found ++ flushed held ++ [⟨.stop name, '<' :: '/' :: (name ++ ['>'])⟩]⟩ :
        Scanner).run rest := by
  obtain ⟨hne, hchars⟩ := isName_iff.1 hname
  have hclosing : ∀ (cs : List Char) (c : Char), isNameChar c →
      (Place.closing cs).step? c = some (.go (.closing (cs ++ [c]))) :=
    fun cs c hc => by simp [Place.step?, hc]
  have hslash : Place.tag.step? '/' = some (.go (.closing [])) := rfl
  have hend : (Place.closing name).step? '>' = some (.done (.stop name)) := by
    simp [Place.step?, hne, isNameChar, isBlank]
  rw [run_cons_begin, run_cons_go hslash, run_gather _ hclosing hchars, List.nil_append,
    run_cons_done hend]
  simp

end Scanner

theorem reads_void {name : List Char} (hname : isName name) :
    Reads ('<' :: (name ++ ['/', '>'])) [.ofTag ⟨name, []⟩ [] []] := by
  refine ⟨[⟨.void ⟨name, []⟩, '<' :: (name ++ ['/', '>'])⟩], fun held found => ?_, fun l ls => rfl⟩
  have hslash : (Place.name name).step? '/' = some (.go (.slash ⟨name, []⟩)) := rfl
  have hend : (Place.slash ⟨name, []⟩).step? '>' = some (.done (.void ⟨name, []⟩)) := rfl
  rw [Scanner.run_name hname, Scanner.run_cons_go hslash, Scanner.run_cons_done hend, Scanner.run]
  simp

/-- **What fills an element is read as its content.** -/
theorem Fills.element {name : List Char} {as : List (List Char × List Char)} (h : Fills cs ns)
    (hname : isName name) (has : ∀ a ∈ as, Clean a) :
    Reads ('<' :: (name ++ as.flatMap written ++ ['>']) ++
      (cs ++ '<' :: '/' :: (name ++ ['>']))) [.ofTag ⟨name, as⟩ cs ns] := by
  obtain ⟨xs, inner, hrun, hnest⟩ := h
  refine ⟨⟨.start ⟨name, as⟩, '<' :: (name ++ as.flatMap written ++ ['>'])⟩ :: (xs ++ flushed inner)
    ++ [⟨.stop name, '<' :: '/' :: (name ++ ['>'])⟩], fun held found => ?_, fun l ls => ?_⟩
  · simp only [List.cons_append, List.append_assoc, List.nil_append]
    rw [Scanner.run_name hname, Scanner.run_attributes Place.ready_name has, Scanner.run_append,
      hrun, Option.bind_some, Scanner.run_closing hname, Scanner.run]
    simp
  · rw [List.cons_append, nest, nestStep, Option.bind_some, nest_append, hnest, Option.bind_some]
    simp [nest, nestStep, Level.add]

end Together

end Harvest.Markup
