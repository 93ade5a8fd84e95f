import Harvest.Json.Decode
import Mathlib.Data.List.TakeDrop
import Mathlib.Data.List.TakeWhile
import Mathlib.Tactic.SplitIfs

/-!
# Reading back flat objects

An object whose members are texts and natural numbers is read back from its compact text, member
by member and in order (`Json.ofText?_render`).

The scanner and the reader take one character or one lexeme at a time, so each statement says
where a run over what was written for one part ends, whatever comes behind it.
-/

namespace Harvest.Json

/-- A text or a natural number. -/
inductive Leaf where
  | text (s : String)
  | nat (n : Nat)
  deriving DecidableEq, Repr

namespace Leaf

/-- The value of a leaf. -/
def json : Leaf → Json
  | text s => .text s
  | nat n => .int n

/-- The numeral of a natural number. -/
def numeral (n : Nat) : Numeral :=
  { negative := false, whole := Nat.toDigits 10 n, fraction := [], exponent := none }

/-- A leaf as it is read. -/
def raw : Leaf → Raw
  | text s => .text (some s)
  | nat n => .number (numeral n)

/-- The lexeme of a leaf. -/
def lexeme : Leaf → Lexeme
  | text s => .text (some s)
  | nat n => .number (numeral n)

end Leaf

/-! ### Strings -/

theorem hexDigit?_hexChar {n : Nat} (h : n < 16) : hexDigit? (hexChar n) = some n := by
  revert n
  decide

theorem not_surrogate (c : Char) :
    isHighSurrogate c.toNat = false ∧ isLowSurrogate c.toNat = false := by
  have hvalid : c.toNat < 0xD800 ∨ 0xDFFF < c.toNat ∧ c.toNat < 0x110000 := c.valid
  simp only [isHighSurrogate, isLowSurrogate, Bool.and_eq_false_iff, decide_eq_false_iff_not]
  omega

theorem assemble_map (cs : List Char) : assemble (cs.map Char.toNat) = some cs := by
  induction cs with
  | nil => rfl
  | cons c cs ih =>
    -- a character is no half of a pair, so it stands for itself
    obtain ⟨hhigh, hlow⟩ := not_surrogate c
    cases cs with
    | nil => simp [assemble, hhigh, hlow, Char.ofNat_toNat]
    | cons d ds =>
      rw [List.map_cons, List.map_cons, assemble, ← List.map_cons, ih]
      simp [hhigh, hlow, Char.ofNat_toNat]

namespace Scanner

theorem run_append (s : Scanner) (cs ds : List Char) :
    s.run (cs ++ ds) = (s.run cs).bind fun s' => s'.run ds := by
  induction cs generalizing s with
  | nil => rfl
  | cons c cs ih =>
    rw [List.cons_append, run, run]
    cases s.step c with
    | none => rfl
    | some s' => exact ih s'

theorem run_escapeChar (us : List Nat) (found : List Lexeme) (c : Char) :
    (⟨.text us, found⟩ : Scanner).run (escapeChar c) = some ⟨.text (c.toNat :: us), found⟩ := by
  unfold escapeChar
  split_ifs with h1 h2 h3 h4 h5 h6 h7 h8
  · subst h1; rfl
  · subst h2; rfl
  · subst h3; rfl
  · subst h4; rfl
  · subst h5; rfl
  · subst h6; rfl
  · subst h7; rfl
  · have hhigh := hexDigit?_hexChar (n := c.toNat / 16) (by omega)
    have hlow := hexDigit?_hexChar (n := c.toNat % 16) (by omega)
    have hvalue : c.toNat / 16 * 16 + c.toNat % 16 = c.toNat := by omega
    have hzero : hexDigit? '0' = some 0 := rfl
    simp [run, step, hzero, hhigh, hlow, hvalue]
  · simp [run, step, h1, h2, h8]

theorem run_escaped (us : List Nat) (found : List Lexeme) (cs : List Char) :
    (⟨.text us, found⟩ : Scanner).run (cs.flatMap escapeChar) =
      some ⟨.text ((cs.map Char.toNat).reverse ++ us), found⟩ := by
  induction cs generalizing us with
  | nil => rfl
  | cons c cs ih =>
    rw [List.flatMap_cons, run_append, run_escapeChar, Option.bind_some, ih]
    simp

theorem run_renderText (found : List Lexeme) (s : String) (rest : List Char) :
    (⟨.gap, found⟩ : Scanner).run (renderText s ++ rest) =
      (⟨.gap, .text (some s) :: found⟩ : Scanner).run rest := by
  have hopen : (⟨.gap, found⟩ : Scanner).step '"' = some ⟨.text [], found⟩ := rfl
  have hclose : (⟨.text ((s.toList.map Char.toNat).reverse ++ []), found⟩ : Scanner).step '"' =
      some ⟨.gap, .text (some s) :: found⟩ := by
    simp [step, assemble_map, String.ofList_toList]
  rw [renderText, List.cons_append, run, hopen]
  simp only
  rw [List.append_assoc, run_append, run_escaped, Option.bind_some, List.singleton_append, run,
    hclose]

/-! ### Numbers -/

theorem isWordChar_of_isDigit {c : Char} (h : c.isDigit = true) : isWordChar c = true := by
  simp [isWordChar, Char.isAlphanum, h]

theorem toDigits_isDigit {n : Nat} {c : Char} (h : c ∈ Nat.toDigits 10 n) : c.isDigit = true :=
  Nat.isDigit_of_mem_toDigits (by decide) (by decide) h

theorem head?_toDigits {n : Nat} (h : 0 < n) : (Nat.toDigits 10 n).head? ≠ some '0' := by
  induction n using Nat.strongRecOn with
  | ind n ih =>
    by_cases hten : n < 10
    · rw [Nat.toDigits_of_lt_base hten]
      have hdigit : ∀ k < 10, 0 < k → [Nat.digitChar k].head? ≠ some '0' := by decide
      exact hdigit n hten h
    · -- a longer number starts as a tenth of it does
      have hne := Nat.toDigits_ne_nil (n := n / 10) (b := 10)
      obtain ⟨d, ds, hd⟩ := List.exists_cons_of_ne_nil hne
      have hhead := ih (n / 10) (by omega) (by omega)
      rw [hd] at hhead
      rw [Nat.toDigits_of_base_le (by decide) (by omega), hd]
      exact hhead

theorem ofWord?_toDigits (n : Nat) :
    Numeral.ofWord? (Nat.toDigits 10 n) = some (Leaf.numeral n) := by
  obtain ⟨d, ds, hd⟩ := List.exists_cons_of_ne_nil (Nat.toDigits_ne_nil (n := n) (b := 10))
  have hdigits : ∀ c ∈ d :: ds, c.isDigit = true := fun c hc => toDigits_isDigit (hd ▸ hc)
  have hspan : Numeral.digits (d :: ds) = (d :: ds, []) := by
    rw [Numeral.digits, List.span_eq_takeWhile_dropWhile, List.takeWhile_eq_self_iff.2 hdigits,
      List.dropWhile_eq_nil_iff.2 hdigits]
  have hlead : d = '0' → ds = [] := by
    rintro rfl
    rcases Nat.eq_zero_or_pos n with rfl | hpos
    · cases hd
      rfl
    · exact absurd (by rw [hd]; rfl) (head?_toDigits hpos)
  have hinteger : Numeral.integerPart? (d :: ds) = some (d :: ds, []) := by
    rw [Numeral.integerPart?, hspan]
    split
    · rename_i heq
      cases heq
    · rename_i heq
      cases heq
      cases hlead rfl
    · rename_i heq
      cases heq
      rfl
  have hunsigned : Numeral.ofUnsigned? false (d :: ds) = some (Leaf.numeral n) := by
    rw [Numeral.ofUnsigned?, hinteger, Leaf.numeral, hd]
    rfl
  rw [hd, Numeral.ofWord?, hunsigned]
  rintro cs ⟨⟩
  cases hdigits '-' List.mem_cons_self

theorem wordLexeme?_toDigits (n : Nat) :
    wordLexeme? (Nat.toDigits 10 n) = some (.number (Leaf.numeral n)) := by
  obtain ⟨d, ds, hd⟩ := List.exists_cons_of_ne_nil (Nat.toDigits_ne_nil (n := n) (b := 10))
  have hdigit : d.isDigit = true := toDigits_isDigit (hd ▸ List.mem_cons_self)
  -- no digit starts one of the three names
  have hname : ∀ {c : Char} {cs : List Char}, c.isDigit = false → Nat.toDigits 10 n ≠ c :: cs := by
    intro c cs hc heq
    rw [hd] at heq
    cases heq
    rw [hc] at hdigit
    cases hdigit
  rw [wordLexeme?, if_neg (hname rfl), if_neg (hname rfl), if_neg (hname rfl), ofWord?_toDigits]
  rfl

theorem run_word (cs : List Char) (found : List Lexeme) {ds : List Char}
    (hds : ∀ c ∈ ds, isWordChar c = true) :
    (⟨.word cs, found⟩ : Scanner).run ds = some ⟨.word (ds.reverse ++ cs), found⟩ := by
  induction ds generalizing cs with
  | nil => rfl
  | cons d ds ih =>
    have hstep : (⟨.word cs, found⟩ : Scanner).step d = some ⟨.word (d :: cs), found⟩ := by
      simp [step, hds d List.mem_cons_self]
    rw [run, hstep]
    simp only
    rw [ih (d :: cs) fun c hc => hds c (List.mem_cons_of_mem _ hc)]
    simp

/-- A natural number is read as one lexeme up to a character that belongs to no word. -/
theorem run_toDigits (found : List Lexeme) (n : Nat) {c : Char} (hc : isWordChar c = false)
    (rest : List Char) :
    (⟨.gap, found⟩ : Scanner).run (Nat.toDigits 10 n ++ c :: rest) =
      (⟨.gap, .number (Leaf.numeral n) :: found⟩ : Scanner).run (c :: rest) := by
  obtain ⟨d, ds, hd⟩ := List.exists_cons_of_ne_nil (Nat.toDigits_ne_nil (n := n) (b := 10))
  have hword : ∀ e ∈ d :: ds, isWordChar e = true := fun e he =>
    isWordChar_of_isDigit (toDigits_isDigit (hd ▸ he))
  have hstart : (⟨.gap, found⟩ : Scanner).step d = some ⟨.word [d], found⟩ := by
    have hdigit : d.isDigit = true := toDigits_isDigit (hd ▸ List.mem_cons_self)
    have hgap : isGap d = false := by
      simp only [isGap, Bool.or_eq_false_iff, decide_eq_false_iff_not]
      refine ⟨⟨⟨?_, ?_⟩, ?_⟩, ?_⟩ <;> rintro rfl <;> cases hdigit
    have hquote : d ≠ '"' := by
      rintro rfl
      cases hdigit
    simp [step, start?, hgap, hquote, hword d List.mem_cons_self]
  have hrun := run_word [d] found fun e he => hword e (List.mem_cons_of_mem _ he)
  -- the character behind the digits ends the word and is then read in the gap
  have hend : (⟨.word (ds.reverse ++ [d]), found⟩ : Scanner).step c =
      (⟨.gap, .number (Leaf.numeral n) :: found⟩ : Scanner).step c := by
    have hreverse : (ds.reverse ++ [d]).reverse = Nat.toDigits 10 n := by simp [hd]
    simp [step, hc, hreverse, wordLexeme?_toDigits]
  rw [hd, List.cons_append, run, hstart]
  simp only
  rw [run_append, hrun, Option.bind_some, run, hend, run]

/-! ### Objects -/

theorem run_leaf (found : List Lexeme) (l : Leaf) {c : Char} (hc : isWordChar c = false)
    (rest : List Char) :
    (⟨.gap, found⟩ : Scanner).run (l.json.chars ++ c :: rest) =
      (⟨.gap, l.lexeme :: found⟩ : Scanner).run (c :: rest) := by
  cases l with
  | text s =>
    rw [Leaf.json, chars]
    exact run_renderText found s _
  | nat n =>
    rw [Leaf.json, chars]
    exact run_toDigits found n hc rest

theorem run_mark (found : List Lexeme) {c : Char} {l : Lexeme} (hgap : isGap c = false)
    (hquote : c ≠ '"') (hword : isWordChar c = false) (hmark : mark? c = some l)
    (rest : List Char) :
    (⟨.gap, found⟩ : Scanner).run (c :: rest) = (⟨.gap, l :: found⟩ : Scanner).run rest := by
  have hstep : (⟨.gap, found⟩ : Scanner).step c = some ⟨.gap, l :: found⟩ := by
    simp [step, start?, hgap, hquote, hword, hmark]
  rw [run, hstep]

end Scanner

/-- The members of an object of leaves. -/
def leafMembers (ms : List (String × Leaf)) : List (String × Json) :=
  ms.map fun m => (m.1, m.2.json)

/-- The members of an object of leaves as they are read. -/
def rawMembers (ms : List (String × Leaf)) : List (Option String × Raw) :=
  ms.map fun m => (some m.1, m.2.raw)

/-- The lexemes of the members of an object. -/
def memberLexemes : List (String × Leaf) → List Lexeme
  | [] => []
  | [(k, l)] => [.text (some k), .colon, l.lexeme]
  | (k, l) :: ms => .text (some k) :: .colon :: l.lexeme :: .comma :: memberLexemes ms

theorem Scanner.run_members (found : List Lexeme) (ms : List (String × Leaf)) (rest : List Char) :
    (⟨.gap, found⟩ : Scanner).run (memberChars (leafMembers ms) ++ '\x7d' :: rest) =
      (⟨.gap, (memberLexemes ms).reverse ++ found⟩ : Scanner).run ('\x7d' :: rest) := by
  induction ms generalizing found with
  | nil => rfl
  | cons m ms ih =>
    obtain ⟨k, l⟩ := m
    have hcolon : ∀ found cs, (⟨.gap, found⟩ : Scanner).run (':' :: cs) =
        (⟨.gap, .colon :: found⟩ : Scanner).run cs := fun found cs =>
      run_mark found rfl (by decide) rfl rfl cs
    have hcomma : ∀ found cs, (⟨.gap, found⟩ : Scanner).run (',' :: cs) =
        (⟨.gap, .comma :: found⟩ : Scanner).run cs := fun found cs =>
      run_mark found rfl (by decide) rfl rfl cs
    cases ms with
    | nil =>
      simp only [leafMembers, List.map_cons, List.map_nil, memberChars, List.append_assoc,
        List.cons_append, run_renderText, hcolon, run_leaf _ _ (c := '\x7d') rfl, memberLexemes]
      rfl
    | cons m' ms' =>
      have hrest := ih (.comma :: l.lexeme :: .colon :: .text (some k) :: found)
      simp only [leafMembers, List.map_cons, memberChars, List.append_assoc,
        List.cons_append, run_renderText, hcolon, run_leaf _ _ (c := ',') rfl, hcomma,
        memberLexemes] at hrest ⊢
      rw [hrest]
      simp

theorem lexemes?_object (ms : List (String × Leaf)) :
    lexemes? (Json.object (leafMembers ms)).chars =
      some (.openObject :: (memberLexemes ms ++ [.closeObject])) := by
  have hopen : ∀ cs, ({} : Scanner).run ('\x7b' :: cs) =
      (⟨.gap, [.openObject]⟩ : Scanner).run cs :=
    Scanner.run_mark [] rfl (by decide) rfl rfl
  have hclose : ∀ found, (⟨.gap, found⟩ : Scanner).run ['\x7d'] =
      some ⟨.gap, .closeObject :: found⟩ := fun found =>
    Scanner.run_mark found rfl (by decide) rfl rfl []
  rw [lexemes?, chars, hopen, Scanner.run_members, hclose]
  simp [Scanner.finish]

namespace Reader

theorem run_member (done : List (Option String × Raw)) (k : String) (l : Leaf) {want : Want}
    (hwant : want = .member ∨ want = .key) (rest : List Lexeme) :
    (Reader.reading [.object done] want).run (.text (some k) :: .colon :: l.lexeme :: rest) =
      (Reader.reading [.object ((some k, l.raw) :: done)] .separator).run rest := by
  rcases hwant with rfl | rfl <;> cases l <;> rfl

theorem run_members (done : List (Option String × Raw)) {ms : List (String × Leaf)}
    {want : Want} (hwant : want = .member ∨ want = .key ∧ ms ≠ []) :
    (Reader.reading [.object done] want).run (memberLexemes ms ++ [.closeObject]) =
      some (.done (.object (done.reverse ++ rawMembers ms))) := by
  induction ms generalizing done want with
  | nil =>
    obtain rfl | ⟨-, hne⟩ := hwant
    · simp [memberLexemes, rawMembers, run, step, close, put]
    · exact absurd rfl hne
  | cons m ms ih =>
    obtain ⟨k, l⟩ := m
    have hwant' : want = .member ∨ want = .key := hwant.imp_right And.left
    cases ms with
    | nil =>
      rw [memberLexemes, List.cons_append, List.cons_append, List.cons_append,
        run_member done k l hwant']
      simp [rawMembers, run, step, close, put]
    | cons m' ms' =>
      have hnext : Want.key = .member ∨ Want.key = .key ∧ m' :: ms' ≠ [] := .inr ⟨rfl, by simp⟩
      have hrest := ih ((some k, l.raw) :: done) hnext
      rw [memberLexemes, List.cons_append, List.cons_append, List.cons_append, List.cons_append,
        run_member done k l hwant', run]
      · simp only [step, if_true]
        rw [hrest]
        simp [rawMembers]
      · simp

end Reader

/-- **An object of texts and natural numbers is read back from its compact text.** -/
theorem ofText?_render (ms : List (String × Leaf)) :
    Raw.ofText? (Json.object (leafMembers ms)).render = some (.object (rawMembers ms)) := by
  have hmembers : (Reader.reading [.object []] .member).run (memberLexemes ms ++ [.closeObject]) =
      some (.done (.object (rawMembers ms))) := Reader.run_members [] (.inl rfl)
  have hopen : ∀ ls, (Reader.reading [] .value).run (.openObject :: ls) =
      (Reader.reading [.object []] .member).run ls := fun ls => rfl
  rw [Raw.ofText?, render, String.toList_ofList, lexemes?_object]
  simp only [Raw.ofLexemes?, hopen, hmembers]
  rfl

end Harvest.Json
