import Harvest.Instant.Reader
import Harvest.Proofs.Calendar
import Harvest.Proofs.Order

/-!
# Times as text

What `Instant.render` writes is read back (`Instant.ofText?_render`), years outside 0 to 9999
included.  An aligned instant is read as it was.  A leap second inside a minute has the text of the
second behind it and is read as that (`Instant.carry`): a later instant, and perhaps one behind
instants that it stood in front of.

The text is read from the front: every reader takes exactly the characters that were written for
its part, because a character that is no digit follows every number.
-/

namespace Harvest.Instant

/-! ### Digits -/

theorem isDigit_of_mem_padded {width n : Nat} {c : Char} (h : c ∈ padded width n) :
    c.isDigit = true := by
  rcases List.mem_append.1 h with h | h
  · rw [(List.mem_replicate.1 h).2]
    rfl
  · exact Nat.isDigit_of_mem_toDigits (by decide) (by decide) h

theorem ofDigitChars_padded (width n : Nat) : Nat.ofDigitChars 10 (padded width n) 0 = n := by
  rw [padded, Nat.ofDigitChars_append, Nat.ofDigitChars_replicate_zero, Nat.mul_zero,
    Nat.ofDigitChars_ten_toDigits]

theorem padded_ne_nil (width n : Nat) : padded width n ≠ [] := by
  intro h
  exact Nat.toDigits_ne_nil (List.append_eq_nil_iff.1 h).2

theorem length_padded {width n : Nat} (h : (Nat.toDigits 10 n).length ≤ width) :
    (padded width n).length = width := by
  rw [padded, List.length_append, List.length_replicate]
  omega

theorem length_padded_two {n : Nat} (h : n < 100) : (padded 2 n).length = 2 :=
  length_padded ((Nat.length_toDigits_le_iff (by decide) (by decide)).2 h)

theorem not_isBlank_of_isDigit {c : Char} (h : c.isDigit = true) : isBlank c = false := by
  simp only [Char.isDigit, Bool.and_eq_true, decide_eq_true_eq, UInt32.le_iff_toNat_le] at h
  have h0 : 48 ≤ c.toNat := h.1
  have h9 : c.toNat ≤ 57 := h.2
  simp only [isBlank, blankRanges, List.any_cons, List.any_nil, Bool.or_false,
    Bool.or_eq_false_iff, Bool.and_eq_false_iff, decide_eq_false_iff_not]
  omega

namespace Reader

/-! ### Parts -/

theorem dropBlanks_cons {c : Char} {cs : List Char} (h : isBlank c = false) :
    dropBlanks (c :: cs) = c :: cs := by
  simp [dropBlanks, h]

theorem dropBlanks_padded (width n : Nat) (rest : List Char) :
    dropBlanks (padded width n ++ rest) = padded width n ++ rest := by
  obtain ⟨c, cs, hc⟩ := List.exists_cons_of_ne_nil (padded_ne_nil width n)
  have hdigit : c.isDigit = true := isDigit_of_mem_padded (hc ▸ List.mem_cons_self)
  rw [hc, List.cons_append, dropBlanks_cons (not_isBlank_of_isDigit hdigit)]

theorem takeDigits_append {limit : Nat} {ds : List Char} (hds : ∀ c ∈ ds, c.isDigit = true)
    (hlen : ds.length ≤ limit) {c : Char} (hc : c.isDigit = false) (rest : List Char) :
    takeDigits limit (ds ++ c :: rest) = (ds, c :: rest) := by
  induction ds generalizing limit with
  | nil =>
    cases limit with
    | zero => rfl
    | succ limit => simp [takeDigits, hc]
  | cons d ds ih =>
    obtain ⟨limit, rfl⟩ : ∃ m, limit = m + 1 := ⟨limit - 1, by simp at hlen; omega⟩
    have hrest := ih (fun x hx => hds x (List.mem_cons_of_mem _ hx)) (by simpa using hlen)
    simp [takeDigits, hds d List.mem_cons_self, hrest]

theorem number?_padded {limit width n : Nat} (hlen : (padded width n).length ≤ limit) {c : Char}
    (hc : c.isDigit = false) (rest : List Char) :
    number? limit (padded width n ++ c :: rest) = some (n, c :: rest) := by
  have htake := takeDigits_append (fun _ => isDigit_of_mem_padded) hlen hc rest
  obtain ⟨d, ds, hd⟩ := List.exists_cons_of_ne_nil (padded_ne_nil width n)
  have hvalue := ofDigitChars_padded width n
  rw [hd] at htake hvalue
  simp only [number?, hd, htake, hvalue]

theorem field?_padded {n : Nat} (h : n < 100) {c : Char} (hc : c.isDigit = false)
    (rest : List Char) : field? (padded 2 n ++ c :: rest) = some (n, c :: rest) := by
  rw [field?, dropBlanks_padded]
  exact number?_padded (Nat.le_of_eq (length_padded_two h)) hc rest

theorem mark?_cons {c : Char} (hc : isBlank c = false) (rest : List Char) :
    mark? c (c :: rest) = some rest := by
  simp [mark?, dropBlanks_cons hc]

theorem year?_yearChars (year : Int) (rest : List Char) :
    year? (yearChars year ++ '-' :: rest) = some (year, '-' :: rest) := by
  have hsigned : ∀ n : Nat, number? (padded 4 n ++ '-' :: rest).length (padded 4 n ++ '-' :: rest)
      = some (n, '-' :: rest) := fun n =>
    number?_padded (by rw [List.length_append]; exact Nat.le_add_right _ _) rfl rest
  unfold yearChars
  split_ifs with hneg hsmall
  · rw [List.cons_append, year?, dropBlanks_cons (by decide)]
    simp only [hsigned, Option.map_some]
    have habs : -(year.natAbs : Int) = year := by omega
    rw [habs]
  · have hlen : (padded 4 year.natAbs).length = 4 :=
      length_padded ((Nat.length_toDigits_le_iff (by decide) (by decide)).2 (by omega))
    have hnumber := number?_padded (Nat.le_of_eq hlen) (c := '-') rfl rest
    obtain ⟨d, ds, hd⟩ := List.exists_cons_of_ne_nil (padded_ne_nil 4 year.natAbs)
    have hdigit : d.isDigit = true := isDigit_of_mem_padded (hd ▸ List.mem_cons_self)
    rw [year?, dropBlanks_padded]
    rw [hd, List.cons_append] at hnumber ⊢
    split
    · rename_i heq
      cases heq
      cases hdigit
    · rename_i heq
      cases heq
      cases hdigit
    · have habs : (year.natAbs : Int) = year := by omega
      simp only [hnumber, Option.map_some, habs]
  · rw [List.cons_append, year?, dropBlanks_cons (by decide)]
    simp only [hsigned, Option.map_some]
    have habs : (year.natAbs : Int) = year := by omega
    rw [habs]

theorem date?_append (d : Date) (hm : d.month < 100) (hd : d.day < 100) {c : Char}
    (hc : c.isDigit = false) (rest : List Char) :
    date? (yearChars d.year ++ '-' :: (padded 2 d.month ++ '-' :: (padded 2 d.day ++ c :: rest))) =
      some (d, c :: rest) := by
  simp only [date?, year?_yearChars, mark?_cons (c := '-') (by decide),
    field?_padded hm (c := '-') rfl, field?_padded hd hc, Option.bind_eq_bind, Option.bind_some]
  rfl

theorem clock?_append (hour minute second : Nat) (hh : hour < 100) (hm : minute < 100)
    (hs : second < 100) {c : Char} (hc : c.isDigit = false) (rest : List Char) :
    clock? (padded 2 hour ++ ':' :: (padded 2 minute ++ ':' :: (padded 2 second ++ c :: rest))) =
      some ((hour, minute, second), c :: rest) := by
  simp only [clock?, mark?_cons (c := ':') (by decide), field?_padded hh (c := ':') rfl,
    field?_padded hm (c := ':') rfl, field?_padded hs hc, Option.bind_eq_bind, Option.bind_some]
  rfl

theorem fraction?_padded {width n : Nat} (hlen : (padded width n).length = width)
    (hwidth : width ≤ 9) {c : Char} (hc : c.isDigit = false) (rest : List Char) :
    fraction? ('.' :: (padded width n ++ c :: rest)) =
      some (Nat.ofDigitChars 10 (List.replicate (9 - width) '0') n, c :: rest) := by
  have htake : takeDigits 9 (padded width n ++ c :: rest) = (padded width n, c :: rest) :=
    takeDigits_append (fun _ => isDigit_of_mem_padded) (by omega) hc rest
  have hvalue := ofDigitChars_padded width n
  obtain ⟨d, ds, hd⟩ := List.exists_cons_of_ne_nil (padded_ne_nil width n)
  rw [hd] at htake hvalue hlen
  rw [hd, fraction?, htake]
  simp only [hlen, Nat.ofDigitChars_append, hvalue, List.dropWhile_cons, hc]
  simp

end Reader

/-- The fraction of a second is read as it was written. -/
theorem fraction?_fractionChars (t : Instant) :
    Reader.fraction? (t.fractionChars ++ ['Z']) = some (t.nanos % nanosPerSecond, ['Z']) := by
  have hlt : t.nanos % nanosPerSecond < 1000000000 := Nat.mod_lt _ (by decide)
  have hlen : ∀ width n, 0 < width → n < 10 ^ width → (padded width n).length = width :=
    fun width n hw hn => length_padded ((Nat.length_toDigits_le_iff (by decide) hw).2 hn)
  unfold fractionChars
  generalize t.nanos % nanosPerSecond = n at hlt ⊢
  simp only
  split_ifs with h0 h3 h6
  · rw [h0]
    rfl
  · rw [List.cons_append, Reader.fraction?_padded (hlen 3 _ (by decide) (by omega)) (by decide) rfl,
      Nat.ofDigitChars_replicate_zero]
    congr 2
    omega
  · rw [List.cons_append, Reader.fraction?_padded (hlen 6 _ (by decide) (by omega)) (by decide) rfl,
      Nat.ofDigitChars_replicate_zero]
    congr 2
    omega
  · rw [List.cons_append, Reader.fraction?_padded (hlen 9 _ (by decide) (by omega)) (by decide) rfl,
      Nat.ofDigitChars_replicate_zero]
    congr 2
    omega

/-! ### Instants -/

theorem isAligned_of_nanos_lt {t : Instant} (h : t.nanos < nanosPerSecond) : t.IsAligned :=
  fun hle => absurd h (Nat.not_lt.2 hle)

theorem ofParts?_self {t : Instant} (h : t.IsAligned) : ofParts? t.seconds t.nanos = some t :=
  dif_pos ⟨⟨t.min_le, t.le_max⟩, t.nanos_lt, h⟩

theorem ofParts?_eq_some_iff {seconds : Int} {nanos : Nat} {t : Instant} :
    ofParts? seconds nanos = some t ↔ t.seconds = seconds ∧ t.nanos = nanos ∧ t.IsAligned := by
  constructor
  · intro h
    unfold ofParts? at h
    split_ifs at h with hparts
    cases h
    exact ⟨rfl, rfl, hparts.2.2⟩
  · rintro ⟨rfl, rfl, h⟩
    exact ofParts?_self h

theorem secondOfDay_eq (t : Instant) : (t.secondOfDay : Int) = t.seconds % 86400 := by
  rw [secondOfDay]
  omega

theorem date_dayNumber (t : Instant) : t.date.dayNumber = t.seconds / 86400 :=
  Date.dayNumber_ofDayNumber _

theorem second_eq_sixty_iff {t : Instant} (h : t.IsAligned) :
    t.secondOfDay % 60 + t.nanos / nanosPerSecond = 60 ↔ nanosPerSecond ≤ t.nanos := by
  have hnanos := t.nanos_lt
  have hsecond := t.secondOfDay_eq
  simp only [IsAligned, nanosPerSecond] at hnanos h ⊢
  omega

theorem instant?_parts {t : Instant} (h : t.IsAligned) :
    Reader.instant? t.date (t.secondOfDay / 3600) (t.secondOfDay / 60 % 60)
      (t.secondOfDay % 60 + t.nanos / nanosPerSecond) (t.nanos % nanosPerSecond) 0 = some t := by
  have hmin := t.min_le
  have hmax := t.le_max
  have hnanos := t.nanos_lt
  have hsecond := t.secondOfDay_eq
  have hday := t.date_dayNumber
  have hsixty := second_eq_sixty_iff h
  obtain ⟨hlow, hhigh⟩ := Date.year_ofDayNumber (n := t.seconds / 86400) (by omega) (by omega)
  have hreal : t.date.isReal = true := Date.isReal_ofDayNumber _
  have hfraction : t.nanos % nanosPerSecond +
      (if t.secondOfDay % 60 + t.nanos / nanosPerSecond = 60 then nanosPerSecond else 0) =
        t.nanos := by
    split_ifs with hleap
    · have hle := hsixty.1 hleap
      simp only [nanosPerSecond] at hnanos hle ⊢
      omega
    · have hlt := mt hsixty.2 hleap
      exact Nat.mod_eq_of_lt (Nat.not_le.1 hlt)
  have hle : t.secondOfDay % 60 + t.nanos / nanosPerSecond ≤ 60 := by
    simp only [nanosPerSecond] at hnanos ⊢
    omega
  -- a leap second is written as second 60 but kept in second 59
  have hmin59 : ((min (t.secondOfDay % 60 + t.nanos / nanosPerSecond) 59 : Nat) : Int) =
      (t.secondOfDay % 60 : Nat) := by
    simp only [IsAligned, nanosPerSecond] at hnanos h ⊢
    omega
  rw [Reader.instant?, if_pos ⟨hreal, hlow, hhigh, by omega, by omega, hle, by decide, by decide⟩]
  simp only [hfraction, hmin59, hday]
  rw [show t.seconds / 86400 * 86400 + ((t.secondOfDay / 3600 : Nat) : Int) * 3600 +
    ((t.secondOfDay / 60 % 60 : Nat) : Int) * 60 + ((t.secondOfDay % 60 : Nat) : Int) - 0 =
      t.seconds by omega]
  exact ofParts?_self h

theorem ofText?_render_of_isAligned {t : Instant} (h : t.IsAligned) :
    ofText? t.render = some t := by
  have hsecond := t.secondOfDay_eq
  have hnanos := t.nanos_lt
  obtain ⟨hmonth, hday⟩ := Date.month_day_lt (Date.isReal_ofDayNumber (t.seconds / 86400))
  -- The clock ends where the fraction or the `Z` begins.
  obtain ⟨c, rest, hc, htail⟩ : ∃ c rest, c.isDigit = false ∧
      t.fractionChars ++ ['Z'] = c :: rest := by
    unfold fractionChars
    simp only
    split_ifs
    · exact ⟨'Z', [], rfl, rfl⟩
    all_goals exact ⟨'.', _, rfl, rfl⟩
  have hfraction := t.fraction?_fractionChars
  have hchars : t.chars = yearChars t.date.year ++ '-' :: (padded 2 t.date.month ++ '-' ::
      (padded 2 t.date.day ++ 'T' :: (padded 2 (t.secondOfDay / 3600) ++ ':' ::
        (padded 2 (t.secondOfDay / 60 % 60) ++ ':' ::
          (padded 2 (t.secondOfDay % 60 + t.nanos / nanosPerSecond) ++ c :: rest))))) := by
    rw [← htail]
    simp [chars, baseChars]
  have hclock := Reader.clock?_append (t.secondOfDay / 3600) (t.secondOfDay / 60 % 60)
    (t.secondOfDay % 60 + t.nanos / nanosPerSecond)
    (by omega) (by omega) (by simp only [nanosPerSecond] at hnanos ⊢; omega) hc rest
  rw [htail] at hfraction
  rw [ofText?, render, String.toList_ofList, hchars, ofChars?,
    Reader.date?_append t.date hmonth hday (c := 'T') rfl]
  simp only [Option.bind_eq_bind, Option.bind_some, Reader.separator?, true_or, if_true, hclock,
    hfraction]
  exact instant?_parts h

/-! ### Leap seconds inside a minute -/

theorem not_isAligned_iff {t : Instant} :
    ¬ t.IsAligned ↔ nanosPerSecond ≤ t.nanos ∧ t.seconds % 60 ≠ 59 := Classical.not_imp

/-- What the text of an instant stands for: a leap second inside a minute is carried over into the
next second. -/
def carry (t : Instant) : Instant :=
  if h : t.IsAligned then t
  else ⟨t.seconds + 1, t.nanos - nanosPerSecond, by have := t.min_le; omega,
    by
      have := t.le_max
      have := (not_isAligned_iff.1 h).2
      omega,
    by
      have := t.nanos_lt
      omega⟩

theorem carry_eq_self_iff {t : Instant} : t.carry = t ↔ t.IsAligned := by
  by_cases h : t.IsAligned
  · rw [carry, dif_pos h]
    exact iff_of_true rfl h
  · rw [carry, dif_neg h, Instant.ext_iff]
    simp only [h, iff_false]
    omega

theorem isAligned_carry (t : Instant) : t.carry.IsAligned := by
  by_cases h : t.IsAligned
  · rwa [carry_eq_self_iff.2 h]
  · have hnanos : t.nanos - nanosPerSecond < nanosPerSecond := by
      have hlt := t.nanos_lt
      omega
    rw [carry, dif_neg h]
    exact isAligned_of_nanos_lt hnanos

theorem le_carry (t : Instant) : t ≤ t.carry := by
  by_cases h : t.IsAligned
  · exact (carry_eq_self_iff.2 h).ge
  · rw [carry, dif_neg h]
    exact .inl (Int.lt_succ t.seconds)

theorem chars_carry (t : Instant) : t.carry.chars = t.chars := by
  by_cases h : t.IsAligned
  · rw [carry_eq_self_iff.2 h]
  · have hnanos := t.nanos_lt
    obtain ⟨hleap, hminute⟩ := not_isAligned_iff.1 h
    rw [carry, dif_neg h]
    -- the carried second is one of the same minute
    have hday : (t.seconds + 1) / 86400 = t.seconds / 86400 := by omega
    have hhour : ((t.seconds + 1) % 86400).toNat / 3600 =
        (t.seconds % 86400).toNat / 3600 := by omega
    have hsixtieth : ((t.seconds + 1) % 86400).toNat / 60 % 60 =
        (t.seconds % 86400).toNat / 60 % 60 := by omega
    have hsecond : ((t.seconds + 1) % 86400).toNat % 60 + (t.nanos - nanosPerSecond) /
        nanosPerSecond = (t.seconds % 86400).toNat % 60 + t.nanos / nanosPerSecond := by
      simp only [nanosPerSecond] at *
      omega
    have hfraction : (t.nanos - nanosPerSecond) % nanosPerSecond = t.nanos % nanosPerSecond := by
      simp only [nanosPerSecond] at *
      omega
    simp only [chars, baseChars, fractionChars, date, secondOfDay, hday, hhour, hsixtieth,
      hsecond, hfraction]

/-- **An instant is read back from its text**, carried over if it is a leap second inside a
minute. -/
theorem ofText?_render (t : Instant) : ofText? t.render = some t.carry := by
  rw [← ofText?_render_of_isAligned t.isAligned_carry, render, render, chars_carry]

theorem isAligned_of_ofText? {s : String} {t : Instant} (h : ofText? s = some t) :
    t.IsAligned := by
  simp only [ofText?, ofChars?, Option.bind_eq_bind, Option.bind_eq_some_iff] at h
  obtain ⟨_, _, _, _, _, _, _, _, _, _, h⟩ := h
  split_ifs at h
  rw [Reader.instant?] at h
  split at h
  · exact (ofParts?_eq_some_iff.1 h).2.2
  · cases h

end Harvest.Instant
