import Harvest.Proofs.Base64
import Harvest.Proofs.Instant.Text
import Harvest.Token.Codec
import Mathlib.Data.String.Basic

/-!
# How long tokens are

The length of a token's text is bounded by the lengths of the format and the set that it names
(`Codec.utf8ByteSize_serialize_le`): everything else in it has a bounded length.  It is also longer
than the name of the set (`Codec.optionSize_le_serialize`).
-/

namespace Harvest

open String (utf8Len)

/-! ### Bytes -/

theorem utf8Len_eq_length {cs : List Char} (h : ∀ c ∈ cs, c.utf8Size = 1) :
    utf8Len cs = cs.length := by
  induction cs with
  | nil => rfl
  | cons c cs ih =>
    rw [String.utf8Len_cons, h c List.mem_cons_self, ih fun d hd => h d (List.mem_cons_of_mem _ hd)]
    rfl

theorem length_le_utf8Len (cs : List Char) : cs.length ≤ utf8Len cs := by
  induction cs with
  | nil => exact Nat.le_refl 0
  | cons c cs ih =>
    have hc := c.utf8Size_pos
    rw [String.utf8Len_cons, List.length_cons]
    omega

theorem utf8Size_of_isDigit {c : Char} (h : c.isDigit = true) : c.utf8Size = 1 := by
  simp only [Char.isDigit, Bool.and_eq_true, decide_eq_true_eq, UInt32.le_iff_toNat_le] at h
  have h9 : c.val.toNat ≤ 57 := h.2
  rw [Char.utf8Size_eq_one_iff, UInt32.le_iff_toNat_le]
  exact Nat.le_trans h9 (by decide)

theorem length_bytesOf (s : String) : (bytesOf s).length = s.utf8ByteSize := rfl

namespace Base64

/-- Four symbols hold three bytes, and what is left of the last ones is not much. -/
theorem length_encode_bounds (bs : List UInt8) :
    4 * bs.length ≤ 3 * (encode bs).length ∧ 3 * (encode bs).length ≤ 4 * bs.length + 2 := by
  fun_induction encode bs with
  | case1 a b c rest n ih =>
    simp only [List.length_cons]
    omega
  | case2 a b n => simp
  | case3 a => simp
  | case4 => simp

theorem utf8Len_encode (bs : List UInt8) : utf8Len (encode bs) = (encode bs).length := by
  refine utf8Len_eq_length fun c hc => ?_
  obtain ⟨n, hn, rfl⟩ := exists_of_mem_encode hc
  exact utf8Size_symbolOf hn

end Base64

/-! ### Instants -/

namespace Instant

theorem utf8Len_padded_le {width n bound : Nat} (hwidth : width ≤ bound)
    (hlen : (Nat.toDigits 10 n).length ≤ bound) : utf8Len (padded width n) ≤ bound := by
  rw [utf8Len_eq_length fun c hc => utf8Size_of_isDigit (isDigit_of_mem_padded hc), padded,
    List.length_append, List.length_replicate]
  omega

theorem utf8Len_padded_two {n : Nat} (h : n < 100) : utf8Len (padded 2 n) ≤ 2 :=
  utf8Len_padded_le (Nat.le_refl _) ((Nat.length_toDigits_le_iff (by decide) (by decide)).2 h)

theorem utf8Len_yearChars_le {year : Int} (hmin : Date.minYear ≤ year)
    (hmax : year ≤ Date.maxYear) : utf8Len (yearChars year) ≤ 7 := by
  have hdigits : utf8Len (padded 4 year.natAbs) ≤ 6 := by
    refine utf8Len_padded_le (by decide) ?_
    refine (Nat.length_toDigits_le_iff (by decide) (by decide)).2 ?_
    simp only [Date.minYear, Date.maxYear] at hmin hmax
    omega
  have hminus : '-'.utf8Size = 1 := rfl
  have hplus : '+'.utf8Size = 1 := rfl
  unfold yearChars
  split_ifs
  · rw [String.utf8Len_cons, hminus]
    omega
  · omega
  · rw [String.utf8Len_cons, hplus]
    omega

theorem utf8Len_fractionChars_le (t : Instant) : utf8Len t.fractionChars ≤ 10 := by
  have hlt : t.nanos % nanosPerSecond < 1000000000 := Nat.mod_lt _ (by decide)
  have hpoint : '.'.utf8Size = 1 := rfl
  have hdigits : ∀ width n, width ≤ 9 → n < 1000000000 → utf8Len (padded width n) ≤ 9 :=
    fun width n hwidth hn => utf8Len_padded_le hwidth
      ((Nat.length_toDigits_le_iff (by decide) (by decide)).2 hn)
  unfold fractionChars
  generalize t.nanos % nanosPerSecond = n at hlt ⊢
  simp only
  split_ifs
  · exact Nat.zero_le _
  · have := hdigits 3 (n / 1000000) (by decide) (by omega)
    rw [String.utf8Len_cons, hpoint]
    omega
  · have := hdigits 6 (n / 1000) (by decide) (by omega)
    rw [String.utf8Len_cons, hpoint]
    omega
  · have := hdigits 9 n (by decide) hlt
    rw [String.utf8Len_cons, hpoint]
    omega

/-- The text of an instant is never longer than that of a leap second far away. -/
theorem utf8ByteSize_render_le (t : Instant) : t.render.utf8ByteSize ≤ 33 := by
  have hsecond := t.secondOfDay_eq
  have hnanos := t.nanos_lt
  have hmin := t.min_le
  have hmax := t.le_max
  obtain ⟨hmonth, hday⟩ := Date.month_day_lt (Date.isReal_ofDayNumber (t.seconds / 86400))
  obtain ⟨hlow, hhigh⟩ := Date.year_ofDayNumber (n := t.seconds / 86400) (by omega) (by omega)
  have hyear := utf8Len_yearChars_le hlow hhigh
  have hm := utf8Len_padded_two hmonth
  have hd := utf8Len_padded_two hday
  have hh := utf8Len_padded_two (n := t.secondOfDay / 3600) (by omega)
  have hmin := utf8Len_padded_two (n := t.secondOfDay / 60 % 60) (by omega)
  have hs := utf8Len_padded_two (n := t.secondOfDay % 60 + t.nanos / nanosPerSecond)
    (by simp only [nanosPerSecond] at hnanos ⊢; omega)
  have hfraction := t.utf8Len_fractionChars_le
  have hmarks : '-'.utf8Size = 1 ∧ ':'.utf8Size = 1 ∧ 'T'.utf8Size = 1 ∧ 'Z'.utf8Size = 1 :=
    ⟨rfl, rfl, rfl, rfl⟩
  rw [render, String.utf8ByteSize_ofList, chars, baseChars]
  simp only [String.utf8Len_append, String.utf8Len_cons, String.utf8Len_nil, date, hmarks]
  omega

end Instant

namespace Json

/-! ### Members -/

theorem utf8Size_hexChar {n : Nat} (h : n < 16) : (hexChar n).utf8Size = 1 := by
  revert n
  decide

theorem escapeChar_cases (c : Char) :
    (c.utf8Size = 1 ∧ (∀ d ∈ escapeChar c, d.utf8Size = 1) ∧ 1 ≤ (escapeChar c).length ∧
      (escapeChar c).length ≤ 6) ∨
    escapeChar c = [c] := by
  have hletter : ∀ {d : Char}, d.utf8Size = 1 → ∀ e ∈ ['\\', d], e.utf8Size = 1 :=
    fun hd => List.forall_mem_cons.2 ⟨rfl, List.forall_mem_singleton.2 hd⟩
  unfold escapeChar
  split_ifs with h1 h2 h3 h4 h5 h6 h7 h8
  · exact .inl ⟨by rw [h1]; rfl, hletter rfl, by decide, by decide⟩
  · exact .inl ⟨by rw [h2]; rfl, hletter rfl, by decide, by decide⟩
  · exact .inl ⟨by rw [h3]; rfl, hletter rfl, by decide, by decide⟩
  · exact .inl ⟨by rw [h4]; rfl, hletter rfl, by decide, by decide⟩
  · exact .inl ⟨by rw [h5]; rfl, hletter rfl, by decide, by decide⟩
  · exact .inl ⟨by rw [h6]; rfl, hletter rfl, by decide, by decide⟩
  · exact .inl ⟨by rw [h7]; rfl, hletter rfl, by decide, by decide⟩
  · have hone : c.utf8Size = 1 := by
      rw [Char.utf8Size_eq_one_iff, UInt32.le_iff_toNat_le]
      exact Nat.le_trans (Nat.le_of_lt h8) (by decide)
    have hhigh := utf8Size_hexChar (n := c.toNat / 16) (by omega)
    have hlow := utf8Size_hexChar (n := c.toNat % 16) (by omega)
    refine .inl ⟨hone, ?_, Nat.succ_pos _, Nat.le_refl _⟩
    rw [List.forall_mem_cons, List.forall_mem_cons, List.forall_mem_cons, List.forall_mem_cons,
      List.forall_mem_cons, List.forall_mem_singleton]
    exact ⟨rfl, rfl, rfl, rfl, hhigh, hlow⟩
  · exact .inr rfl

theorem utf8Len_escapeChar_bounds (c : Char) :
    c.utf8Size ≤ utf8Len (escapeChar c) ∧ utf8Len (escapeChar c) ≤ 6 * c.utf8Size := by
  obtain ⟨hc, hascii, hpos, hsix⟩ | hself := escapeChar_cases c
  · rw [utf8Len_eq_length hascii, hc]
    exact ⟨hpos, hsix⟩
  · rw [hself, String.utf8Len_cons, String.utf8Len_nil]
    omega

/-- A text in quotes is longer than the text, and at most six times as long but for the quotes. -/
theorem utf8Len_renderText_bounds (s : String) :
    s.utf8ByteSize ≤ utf8Len (renderText s) ∧ utf8Len (renderText s) ≤ 2 + 6 * s.utf8ByteSize := by
  have hescaped : ∀ cs : List Char, utf8Len cs ≤ utf8Len (cs.flatMap escapeChar) ∧
      utf8Len (cs.flatMap escapeChar) ≤ 6 * utf8Len cs := by
    intro cs
    induction cs with
    | nil => exact ⟨Nat.le_refl _, Nat.le_refl _⟩
    | cons c cs ih =>
      have hc := utf8Len_escapeChar_bounds c
      rw [List.flatMap_cons, String.utf8Len_append, String.utf8Len_cons]
      omega
  have hbytes : s.utf8ByteSize = utf8Len s.toList := by
    rw [← String.utf8ByteSize_ofList, String.ofList_toList]
  have hquote : '"'.utf8Size = 1 := rfl
  have hs := hescaped s.toList
  rw [renderText, String.utf8Len_cons, String.utf8Len_append, String.utf8Len_cons,
    String.utf8Len_nil, hquote, hbytes]
  omega

theorem utf8Len_le_memberChars {m : String × Json} {ms : List (String × Json)} (hm : m ∈ ms) :
    utf8Len m.2.chars ≤ utf8Len (memberChars ms) := by
  induction ms with
  | nil => cases hm
  | cons n ms ih =>
    cases ms with
    | nil =>
      rw [List.mem_singleton.1 hm]
      simp only [memberChars, String.utf8Len_append, String.utf8Len_cons]
      omega
    | cons n' ms =>
      simp only [memberChars, String.utf8Len_append, String.utf8Len_cons]
      rcases List.mem_cons.1 hm with rfl | hm
      · omega
      · have := ih hm
        omega

theorem utf8Len_toDigits_le (n : UInt64) : utf8Len (Nat.toDigits 10 n.toNat) ≤ 20 := by
  have hlt := n.toNat_lt
  rw [utf8Len_eq_length fun c hc =>
    utf8Size_of_isDigit (Nat.isDigit_of_mem_toDigits (by decide) (by decide) hc)]
  exact (Nat.length_toDigits_le_iff (by decide) (by decide)).2 (by omega)

end Json

namespace Codec

/-! ### Tokens -/

/-- The length in bytes of an optional text. -/
def optionSize (s : Option String) : Nat := (s.map String.utf8ByteSize).getD 0

/-- A bound for the length of some members. -/
def memberBound : List (String × Json) → Nat
  | [] => 0
  | m :: ms => 6 * m.1.utf8ByteSize + 4 + utf8Len m.2.chars + memberBound ms

theorem utf8Len_memberChars_le (ms : List (String × Json)) :
    utf8Len (Json.memberChars ms) ≤ memberBound ms := by
  have hmarks : ':'.utf8Size = 1 ∧ ','.utf8Size = 1 := ⟨rfl, rfl⟩
  induction ms with
  | nil => exact Nat.le_refl _
  | cons m ms ih =>
    have hkey := (Json.utf8Len_renderText_bounds m.1).2
    cases ms with
    | nil =>
      simp only [memberBound, Json.memberChars, String.utf8Len_append, String.utf8Len_cons, hmarks]
      omega
    | cons m' ms =>
      simp only [memberBound, Json.memberChars, String.utf8Len_append, String.utf8Len_cons,
        hmarks] at ih ⊢
      omega

theorem memberBound_append (ms ns : List (String × Json)) :
    memberBound (ms ++ ns) = memberBound ms + memberBound ns := by
  induction ms with
  | nil => exact (Nat.zero_add _).symm
  | cons m ms ih =>
    rw [List.cons_append, memberBound, memberBound, ih]
    exact (Nat.add_assoc _ _ _).symm

theorem memberBound_cons (k : String) (v : Json) (ms : List (String × Json)) :
    memberBound ((k, v) :: ms) = 6 * k.utf8ByteSize + 4 + utf8Len v.chars + memberBound ms := rfl

theorem memberBound_member?_le (k : String) (v : Option Json) {n : Nat}
    (hv : ∀ x, v = some x → utf8Len x.chars ≤ n) :
    memberBound (member? k v) ≤ 6 * k.utf8ByteSize + 4 + n := by
  cases v with
  | none => exact Nat.zero_le _
  | some x => exact Nat.add_le_add_left (hv x rfl) _

theorem utf8ByteSize_payload_le (t : ResumptionToken) :
    (payload t).render.utf8ByteSize ≤
      720 + 6 * (t.metadataPrefix.utf8ByteSize + optionSize t.set) := by
  have hinstant : ∀ i : Instant, utf8Len (Json.text i.render).chars ≤ 200 := by
    intro i
    have hlen := i.utf8ByteSize_render_le
    have htext := (Json.utf8Len_renderText_bounds i.render).2
    rw [Json.chars]
    omega
  have hnat : ∀ n : UInt64, utf8Len (Json.int n.toNat).chars ≤ 20 := Json.utf8Len_toDigits_le
  have hset : ∀ x, t.set.map Json.text = some x → utf8Len x.chars ≤ 2 + 6 * optionSize t.set := by
    cases t.set with
    | none => rintro x ⟨⟩
    | some s =>
      rintro x ⟨⟩
      exact (Json.utf8Len_renderText_bounds s).2
  have hoption : ∀ (o : Option Instant) x, (o.map fun i => Json.text i.render) = some x →
      utf8Len x.chars ≤ 200 := by
    intro o x hx
    obtain ⟨i, -, rfl⟩ := Option.map_eq_some_iff.1 hx
    exact hinstant i
  have hkeys : "p".utf8ByteSize = 1 ∧ "s".utf8ByteSize = 1 ∧ "f".utf8ByteSize = 1 ∧
      "u".utf8ByteSize = 1 ∧ "t".utf8ByteSize = 1 ∧ "m".utf8ByteSize = 1 ∧
        "i".utf8ByteSize = 1 := ⟨rfl, rfl, rfl, rfl, rfl, rfl, rfl⟩
  have hbraces : '\x7b'.utf8Size = 1 ∧ '\x7d'.utf8Size = 1 := ⟨rfl, rfl⟩
  have hname : utf8Len (Json.text t.metadataPrefix).chars ≤
      2 + 6 * t.metadataPrefix.utf8ByteSize := (Json.utf8Len_renderText_bounds _).2
  have htype := hnat t.position.typeIndex
  have hmodified := hinstant t.position.last.modified
  have hid := hnat t.position.last.id
  have hs := memberBound_member?_le "s" _ hset
  have hf := memberBound_member?_le "f" _ (hoption t.since)
  have hu := memberBound_member?_le "u" _ (hoption t.upTo)
  have hnil : memberBound [] = 0 := rfl
  rw [Json.render, String.utf8ByteSize_ofList, payload, Json.chars, String.utf8Len_cons,
    String.utf8Len_append, String.utf8Len_cons, String.utf8Len_nil]
  refine Nat.le_trans
    (Nat.add_le_add_right (Nat.add_le_add_right (utf8Len_memberChars_le _) _) _) ?_
  simp only [memberBound_cons, memberBound_append]
  omega

theorem length_hexDigits (width n : Nat) : (hexDigits width n).length = width := by
  induction width generalizing n with
  | zero => rfl
  | succ width ih => rw [hexDigits, List.length_append, ih, List.length_singleton]

theorem exists_of_mem_hexDigits {width n : Nat} {ch : Char} (h : ch ∈ hexDigits width n) :
    ∃ m < 16, ch = Json.hexChar m := by
  induction width generalizing n with
  | zero => exact absurd h List.not_mem_nil
  | succ width ih =>
    rw [hexDigits, List.mem_append, List.mem_singleton] at h
    rcases h with h | h
    · exact ih h
    · exact ⟨n % 16, Nat.mod_lt _ (by decide), h⟩

theorem utf8Len_hexDigits (width n : Nat) : utf8Len (hexDigits width n) = width := by
  rw [utf8Len_eq_length, length_hexDigits]
  intro ch hch
  obtain ⟨m, hm, rfl⟩ := exists_of_mem_hexDigits hch
  exact Json.utf8Size_hexChar hm

/-- **The text of a token is not much longer than the names of its format and its set.** -/
theorem utf8ByteSize_serialize_le (c : Codec) (t : ResumptionToken) :
    (c.serialize t).utf8ByteSize ≤
      1000 + 8 * (t.metadataPrefix.utf8ByteSize + optionSize t.set) := by
  have hpayload := utf8ByteSize_payload_le t
  have hencode := (Base64.length_encode_bounds (bytesOf (payload t).render)).2
  have hversion : version.utf8ByteSize = 2 ∧ ".".utf8ByteSize = 1 := ⟨rfl, rfl⟩
  rw [length_bytesOf] at hencode
  simp only [serialize, checksum, checksumWith, String.utf8ByteSize_append,
    String.utf8ByteSize_ofList, String.utf8Len_append, Base64.utf8Len_encode, hversion, hexWord,
    utf8Len_hexDigits]
  omega

/-- **The text of a token is longer than the name of its set.** -/
theorem optionSize_le_serialize (c : Codec) (t : ResumptionToken) :
    optionSize t.set ≤ (c.serialize t).utf8ByteSize := by
  have hpayload : optionSize t.set ≤ (payload t).render.utf8ByteSize := by
    cases hset : t.set with
    | none => exact Nat.zero_le _
    | some name =>
      obtain ⟨ms, hms, hmem⟩ : ∃ ms, payload t = .object ms ∧ ("s", Json.text name) ∈ ms :=
        ⟨_, rfl, by simp [hset, member?]⟩
      have hname := (Json.utf8Len_renderText_bounds name).1
      have hmember := Json.utf8Len_le_memberChars hmem
      rw [Json.chars] at hmember
      rw [hms, Json.render, String.utf8ByteSize_ofList, Json.chars, String.utf8Len_cons,
        String.utf8Len_append, optionSize, Option.map_some, Option.getD_some]
      omega
  have hencode := (Base64.length_encode_bounds (bytesOf (payload t).render)).1
  rw [length_bytesOf] at hencode
  simp only [serialize, String.utf8ByteSize_append, String.utf8ByteSize_ofList,
    Base64.utf8Len_encode]
  omega

end Codec

end Harvest
