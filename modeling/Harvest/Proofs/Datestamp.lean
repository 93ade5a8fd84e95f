import Harvest.Datestamp
import Harvest.Proofs.Instant.Text

/-!
# What datestamps cover

A datestamp has one text only: the digits that `Instant.padded` writes for the parts of its day and
of its second (`Datestamp.start?_eq_some_iff`).  So an instant of the years 0 to 9999 is covered by
the text of its day and by that of its second and by no other ones, unless it is *missed*
(`Datestamp.Missed`): an upper bound ends with the last nanosecond of an ordinary second, before the
leap second that may follow (`Datestamp.covers_iff`).
-/

namespace Harvest

/-! ### Digits -/

theorem ofDigitChars_cons (d : Char) (ds : List Char) : Nat.ofDigitChars 10 (d :: ds) 0 =
    10 ^ ds.length * (d.toNat - 48) + Nat.ofDigitChars 10 ds 0 := by
  rw [Nat.ofDigitChars_cons, Nat.ofDigitChars_eq_ofDigitChars_zero, Nat.mul_zero, Nat.zero_add]
  rfl

theorem toNat_of_isDigit {c : Char} (h : c.isDigit = true) : 48 ≤ c.toNat ∧ c.toNat ≤ 57 := by
  simp only [Char.isDigit, Bool.and_eq_true, decide_eq_true_eq, UInt32.le_iff_toNat_le] at h
  exact h

theorem ofDigitChars_lt {ds : List Char} (h : ∀ c ∈ ds, c.isDigit = true) :
    Nat.ofDigitChars 10 ds 0 < 10 ^ ds.length := by
  induction ds with
  | nil => simp [Nat.ofDigitChars]
  | cons d ds ih =>
    obtain ⟨hd, hds⟩ := List.forall_mem_cons.1 h
    have hdigit := toNat_of_isDigit hd
    have hrest := ih hds
    have hfirst : 10 ^ ds.length * (d.toNat - 48) ≤ 10 ^ ds.length * 9 :=
      Nat.mul_le_mul_left _ (by omega)
    rw [ofDigitChars_cons, List.length_cons, Nat.pow_succ]
    omega

theorem ofDigitChars_inj {ds es : List Char} (hds : ∀ c ∈ ds, c.isDigit = true)
    (hes : ∀ c ∈ es, c.isDigit = true) (hlen : ds.length = es.length)
    (h : Nat.ofDigitChars 10 ds 0 = Nat.ofDigitChars 10 es 0) : ds = es := by
  induction ds generalizing es with
  | nil => exact (List.length_eq_zero_iff.1 hlen.symm).symm
  | cons d ds ih =>
    cases es with
    | nil => cases hlen
    | cons e es =>
      obtain ⟨hd, hds⟩ := List.forall_mem_cons.1 hds
      obtain ⟨he, hes⟩ := List.forall_mem_cons.1 hes
      have hlen : ds.length = es.length := Nat.succ.inj hlen
      have hd' := toNat_of_isDigit hd
      have he' := toNat_of_isDigit he
      have hrest := ofDigitChars_lt hds
      have hrest' := ofDigitChars_lt hes
      rw [ofDigitChars_cons, ofDigitChars_cons, ← hlen] at h
      rw [← hlen] at hrest'
      have hpos : 0 < 10 ^ ds.length := Nat.pow_pos (by decide)
      have hfirst : d.toNat - 48 = e.toNat - 48 := by
        have hdiv := congrArg (· / 10 ^ ds.length) h
        simpa [Nat.mul_add_div hpos, Nat.div_eq_of_lt hrest, Nat.div_eq_of_lt hrest'] using hdiv
      have hvalue : d = e := Char.toNat_inj.1 (by omega)
      rw [hvalue, ih hds hes hlen (by rw [hfirst] at h; omega)]

namespace Datestamp

open Instant (padded yearChars)

variable {cs ds : List Char} {g : Granularity} {n : Int} {t : Instant}

theorem number?_eq_some_iff {width value : Nat} (hwidth : 0 < width) :
    ds.length = width ∧ number? ds = some value ↔ value < 10 ^ width ∧ ds = padded width value := by
  have hlength : value < 10 ^ width → (padded width value).length = width := fun h =>
    Instant.length_padded ((Nat.length_toDigits_le_iff (by decide) hwidth).2 h)
  have hdigits : ∀ c ∈ padded width value, c.isDigit = true :=
    fun _ => Instant.isDigit_of_mem_padded
  unfold number?
  constructor
  · rintro ⟨rfl, h⟩
    split_ifs at h with hds
    simp only [List.all_eq_true, Option.some.injEq] at hds h
    subst h
    have hlt := ofDigitChars_lt hds
    refine ⟨hlt, ofDigitChars_inj hds hdigits (hlength hlt).symm ?_⟩
    rw [Instant.ofDigitChars_padded]
  · rintro ⟨hlt, rfl⟩
    rw [if_pos (by simpa using hdigits), Instant.ofDigitChars_padded]
    exact ⟨hlength hlt, rfl⟩

/-! ### The grammar -/

/-- A date as datestamps write it. -/
def dateChars (d : Date) : List Char :=
  yearChars d.year ++ '-' :: (padded 2 d.month ++ '-' :: padded 2 d.day)

/-- A time of day as datestamps write it. -/
def clockChars (s : Nat) : List Char :=
  padded 2 (s / 3600) ++ ':' :: (padded 2 (s / 60 % 60) ++ ':' :: padded 2 (s % 60))

/-- The text of the day, or of the second, in which a second lies. -/
def stamp : Granularity → Int → List Char
  | .day, n => dateChars (Date.ofDayNumber (n / 86400))
  | .second, n => dateChars (Date.ofDayNumber (n / 86400)) ++
      'T' :: (clockChars (n % 86400).toNat ++ ['Z'])

/-- Datestamps name the days of these years only. -/
def InYears (n : Int) : Prop :=
  0 ≤ (Date.ofDayNumber (n / 86400)).year ∧ (Date.ofDayNumber (n / 86400)).year ≤ 9999

theorem daySeconds?_eq_some_iff {y m d : List Char} :
    (y.length = 4 ∧ m.length = 2 ∧ d.length = 2 ∧ daySeconds? y m d = some n) ↔
      InYears n ∧ n % 86400 = 0 ∧ y = yearChars (Date.ofDayNumber (n / 86400)).year ∧
        m = padded 2 (Date.ofDayNumber (n / 86400)).month ∧
        d = padded 2 (Date.ofDayNumber (n / 86400)).day := by
  constructor
  · rintro ⟨hy, hm, hd, h⟩
    obtain ⟨year, hyear, h⟩ := Option.bind_eq_some_iff.1 h
    obtain ⟨month, hmonth, h⟩ := Option.bind_eq_some_iff.1 h
    obtain ⟨day, hday, h⟩ := Option.bind_eq_some_iff.1 h
    simp only [Option.ite_none_right_eq_some, Option.some.injEq] at h
    obtain ⟨hreal, rfl⟩ := h
    obtain ⟨hlt, rfl⟩ := (number?_eq_some_iff (by decide)).1 ⟨hy, hyear⟩
    obtain ⟨-, rfl⟩ := (number?_eq_some_iff (by decide)).1 ⟨hm, hmonth⟩
    obtain ⟨-, rfl⟩ := (number?_eq_some_iff (by decide)).1 ⟨hd, hday⟩
    have hdate := Date.ofDayNumber_dayNumber hreal
    rw [InYears, Int.mul_ediv_cancel _ (by decide), hdate]
    refine ⟨⟨by simp, by simp only; omega⟩, Int.mul_emod_left _ _, ?_, rfl, rfl⟩
    rw [yearChars, if_neg (by simp), if_pos (by simp only; omega)]
    rfl
  · rintro ⟨⟨hlow, hhigh⟩, hn, rfl, rfl, rfl⟩
    have hreal := Date.isReal_ofDayNumber (n / 86400)
    have hnumber := Date.dayNumber_ofDayNumber (n / 86400)
    generalize Date.ofDayNumber (n / 86400) = date at *
    obtain ⟨hmonth, hday⟩ := Date.month_day_lt hreal
    have hchars : yearChars date.year = padded 4 date.year.natAbs := by
      rw [yearChars, if_neg (by omega), if_pos hhigh]
    obtain ⟨hy, hyear⟩ := (number?_eq_some_iff (show 0 < 4 by decide)).2
      ⟨by omega, hchars⟩
    obtain ⟨hm, hmonth⟩ := (number?_eq_some_iff (show 0 < 2 by decide)).2 ⟨hmonth, rfl⟩
    obtain ⟨hd, hday⟩ := (number?_eq_some_iff (show 0 < 2 by decide)).2 ⟨hday, rfl⟩
    have habs : (date.year.natAbs : Int) = date.year := by omega
    have hvalue : date.dayNumber * 86400 = n := by omega
    exact ⟨hy, hm, hd, by simp [daySeconds?, hyear, hmonth, hday, habs, hreal, hvalue]⟩

theorem clockSeconds?_eq_some_iff {h m s : List Char} :
    (h.length = 2 ∧ m.length = 2 ∧ s.length = 2 ∧ clockSeconds? h m s = some n) ↔
      0 ≤ n ∧ n < 86400 ∧ h = padded 2 (n.toNat / 3600) ∧ m = padded 2 (n.toNat / 60 % 60) ∧
        s = padded 2 (n.toNat % 60) := by
  constructor
  · rintro ⟨hh, hm, hs, hclock⟩
    obtain ⟨hour, hhour, hclock⟩ := Option.bind_eq_some_iff.1 hclock
    obtain ⟨minute, hminute, hclock⟩ := Option.bind_eq_some_iff.1 hclock
    obtain ⟨second, hsecond, hclock⟩ := Option.bind_eq_some_iff.1 hclock
    simp only [Option.ite_none_right_eq_some, Option.some.injEq] at hclock
    obtain ⟨⟨h23, hm59, hs59⟩, rfl⟩ := hclock
    obtain ⟨-, rfl⟩ := (number?_eq_some_iff (by decide)).1 ⟨hh, hhour⟩
    obtain ⟨-, rfl⟩ := (number?_eq_some_iff (by decide)).1 ⟨hm, hminute⟩
    obtain ⟨-, rfl⟩ := (number?_eq_some_iff (by decide)).1 ⟨hs, hsecond⟩
    rw [Int.toNat_natCast]
    refine ⟨by omega, by omega, congrArg _ ?_, congrArg _ ?_, congrArg _ ?_⟩ <;> omega
  · rintro ⟨hlow, hhigh, rfl, rfl, rfl⟩
    obtain ⟨hh, hhour⟩ := (number?_eq_some_iff (show 0 < 2 by decide)).2
      ⟨show n.toNat / 3600 < 10 ^ 2 by omega, rfl⟩
    obtain ⟨hm, hminute⟩ := (number?_eq_some_iff (show 0 < 2 by decide)).2
      ⟨show n.toNat / 60 % 60 < 10 ^ 2 by omega, rfl⟩
    obtain ⟨hs, hsecond⟩ := (number?_eq_some_iff (show 0 < 2 by decide)).2
      ⟨show n.toNat % 60 < 10 ^ 2 by omega, rfl⟩
    have hrange : n.toNat / 3600 ≤ 23 ∧ n.toNat / 60 % 60 ≤ 59 ∧ n.toNat % 60 ≤ 59 := by omega
    have hvalue : ((n.toNat / 3600 * 3600 + n.toNat / 60 % 60 * 60 + n.toNat % 60 : Nat) : Int) =
        n := by omega
    refine ⟨hh, hm, hs, ?_⟩
    simp only [clockSeconds?, hhour, hminute, hsecond, Option.bind_eq_bind, Option.bind_some,
      if_pos hrange, hvalue]

theorem start?_day {y m d : List Char} (hy : y.length = 4) (hm : m.length = 2)
    (hd : d.length = 2) : start? (y ++ '-' :: (m ++ '-' :: d)) =
      (daySeconds? y m d).map fun n => (n, .day) := by
  match y, hy, m, hm, d, hd with
  | [_, _, _, _], _, [_, _], _, [_, _], _ => rfl

theorem start?_second {y m d h i s : List Char} (hy : y.length = 4) (hm : m.length = 2)
    (hd : d.length = 2) (hh : h.length = 2) (hi : i.length = 2) (hs : s.length = 2) :
    start? ((y ++ '-' :: (m ++ '-' :: d)) ++ 'T' :: ((h ++ ':' :: (i ++ ':' :: s)) ++ ['Z'])) =
      (do
        let day ← daySeconds? y m d
        let clock ← clockSeconds? h i s
        return (day + clock, .second)) := by
  match y, hy, m, hm, d, hd, h, hh, i, hi, s, hs with
  | [_, _, _, _], _, [_, _], _, [_, _], _, [_, _], _, [_, _], _, [_, _], _ => rfl

/-- **A datestamp has one text**: that of its day or of its second. -/
theorem start?_eq_some_iff :
    start? cs = some (n, g) ↔ InYears n ∧ n % g.span = 0 ∧ cs = stamp g n := by
  constructor
  · intro h
    unfold start? at h
    split at h
    · rename_i y₁ y₂ y₃ y₄ m₁ m₂ d₁ d₂
      obtain ⟨n, hn, ⟨⟩⟩ := Option.map_eq_some_iff.1 h
      obtain ⟨hyears, hspan, hy, hm, hd⟩ := daySeconds?_eq_some_iff.1 ⟨rfl, rfl, rfl, hn⟩
      refine ⟨hyears, hspan, ?_⟩
      rw [stamp, dateChars, ← hy, ← hm, ← hd]
      rfl
    · rename_i y₁ y₂ y₃ y₄ m₁ m₂ d₁ d₂ h₁ h₂ i₁ i₂ s₁ s₂
      obtain ⟨day, hday, h⟩ := Option.bind_eq_some_iff.1 h
      obtain ⟨clock, hclock, ⟨⟩⟩ := Option.bind_eq_some_iff.1 h
      obtain ⟨hyears, hspan, hy, hm, hd⟩ := daySeconds?_eq_some_iff.1 ⟨rfl, rfl, rfl, hday⟩
      obtain ⟨hlow, hhigh, hh, hi, hs⟩ := clockSeconds?_eq_some_iff.1 ⟨rfl, rfl, rfl, hclock⟩
      have hdate : (day + clock) / 86400 = day / 86400 := by omega
      have hsecond : (day + clock) % 86400 = clock := by omega
      refine ⟨by rwa [InYears, hdate], Int.emod_one _, ?_⟩
      rw [stamp, hdate, hsecond, dateChars, clockChars, ← hy, ← hm, ← hd, ← hh, ← hi, ← hs]
      rfl
    · cases h
  · rintro ⟨hyears, hspan, rfl⟩
    have hday : n / 86400 * 86400 / 86400 = n / 86400 := Int.mul_ediv_cancel _ (by decide)
    obtain ⟨hy, hm, hd, hdate⟩ := daySeconds?_eq_some_iff (n := n / 86400 * 86400).2
      ⟨by rwa [InYears, hday], Int.mul_emod_left _ _, rfl, rfl, rfl⟩
    rw [hday] at hy hm hd hdate
    cases g with
    | day =>
      have hn : n / 86400 * 86400 = n := by
        simp only [Granularity.span] at hspan
        omega
      rw [stamp, dateChars, start?_day hy hm hd, hdate, hn]
      rfl
    | second =>
      obtain ⟨hh, hi, hs, hclock⟩ := clockSeconds?_eq_some_iff (n := n % 86400).2
        ⟨by omega, by omega, rfl, rfl, rfl⟩
      have hn : n / 86400 * 86400 + n % 86400 = n := by omega
      rw [stamp, dateChars, clockChars, start?_second hy hm hd hh hi hs, hdate, hclock]
      simp [hn]

/-! ### What is covered -/

/-- A text is read as both bounds of a window, of some granularity, in which an instant lies. -/
def Covers (g : Granularity) (text : String) (t : Instant) : Prop :=
  ∃ a b, readLower text = .ok a ∧ readUpper text = .ok b ∧ a.granularity = g ∧
    a.value ≤ t ∧ t ≤ b.value

/-- A leap second that ends the day or the second that it belongs to comes after every window. -/
def Missed (g : Granularity) (t : Instant) : Prop :=
  nanosPerSecond ≤ t.nanos ∧ t.seconds % g.span = g.span - 1

instance (g : Granularity) (t : Instant) : Decidable (Missed g t) := instDecidableAnd

theorem readLower_eq_ok_iff {text : String} {a : Datestamp} : readLower text = .ok a ↔
    start? text.toList = some (a.value.seconds, a.granularity) ∧ a.value.nanos = 0 := by
  have hlower : lower? text.toList = some a ↔
      start? text.toList = some (a.value.seconds, a.granularity) ∧ a.value.nanos = 0 := by
    simp only [lower?, Option.bind_eq_bind, Option.bind_eq_some_iff, Prod.exists,
      Instant.ofParts?_eq_some_iff]
    constructor
    · rintro ⟨n, g, hstart, t, ⟨rfl, hnanos, -⟩, ⟨⟩⟩
      exact ⟨hstart, hnanos⟩
    · rintro ⟨hstart, hnanos⟩
      have haligned : a.value.IsAligned :=
        Instant.isAligned_of_nanos_lt (by rw [hnanos]; decide)
      exact ⟨_, _, hstart, _, ⟨rfl, hnanos, haligned⟩, rfl⟩
  rw [← hlower, readLower]
  cases lower? text.toList <;> simp

theorem readUpper_eq_ok_iff {text : String} {b : Datestamp} : readUpper text = .ok b ↔
    start? text.toList = some (b.value.seconds + 1 - b.granularity.span, b.granularity) ∧
      b.value.nanos = nanosPerSecond - 1 := by
  have hupper : upper? text.toList = some b ↔
      start? text.toList = some (b.value.seconds + 1 - b.granularity.span, b.granularity) ∧
        b.value.nanos = nanosPerSecond - 1 := by
    simp only [upper?, Option.bind_eq_bind, Option.bind_eq_some_iff, Prod.exists,
      Instant.ofParts?_eq_some_iff]
    constructor
    · rintro ⟨n, g, hstart, t, ⟨hn, hnanos, -⟩, ⟨⟩⟩
      refine ⟨?_, hnanos⟩
      simp only [hstart, hn, Option.some.injEq, Prod.mk.injEq, and_true]
      omega
    · rintro ⟨hstart, hnanos⟩
      have haligned : b.value.IsAligned :=
        Instant.isAligned_of_nanos_lt (by rw [hnanos]; decide)
      exact ⟨_, _, hstart, _, ⟨by omega, hnanos, haligned⟩, rfl⟩
  rw [← hupper, readUpper]
  cases upper? text.toList <;> simp

theorem exists_window {text : String} (h : start? text.toList = some (n, g)) :
    ∃ a b, readLower text = .ok a ∧ readUpper text = .ok b ∧ a.granularity = g ∧
      b.granularity = g ∧ a.value.seconds = n ∧ b.value.seconds = n + g.span - 1 := by
  obtain ⟨⟨hlow, hhigh⟩, -, -⟩ := start?_eq_some_iff.1 h
  have hbounds := Date.bounds_of_year hlow hhigh
  have hspan : 1 ≤ g.span ∧ g.span ≤ 86400 := by cases g <;> decide
  refine ⟨⟨⟨n, 0, by omega, by omega, by decide⟩, g⟩,
    ⟨⟨n + g.span - 1, nanosPerSecond - 1, by omega, by omega, by decide⟩, g⟩, ?_, ?_,
    rfl, rfl, rfl, rfl⟩
  · exact readLower_eq_ok_iff.2 ⟨h, rfl⟩
  · refine readUpper_eq_ok_iff.2 ⟨?_, rfl⟩
    rw [h]
    exact congrArg (fun n => some (n, g)) (by simp only; omega)

/-- **An instant is covered by the text of its day and by that of its second**, unless it is
missed, and by no other text. -/
theorem covers_iff {text : String} :
    Covers g text t ↔ InYears t.seconds ∧ ¬ Missed g t ∧ text.toList = stamp g t.seconds := by
  have hspan : g.span = 86400 ∨ g.span = 1 := by cases g <;> simp [Granularity.span]
  -- the text of a second is that of the start of its day or second
  have hstamp : ∀ n, n = t.seconds / g.span * g.span →
      stamp g n = stamp g t.seconds ∧ n / 86400 = t.seconds / 86400 := by
    rintro n rfl
    cases g with
    | day =>
      have hday : t.seconds / 86400 * 86400 / 86400 = t.seconds / 86400 := by omega
      exact ⟨by rw [stamp, stamp, Granularity.span, hday], hday⟩
    | second => simp [Granularity.span]
  constructor
  · rintro ⟨a, b, ha, hb, rfl, hat, htb⟩
    obtain ⟨hstart, hnanos⟩ := readLower_eq_ok_iff.1 ha
    obtain ⟨hstart', hnanos'⟩ := readUpper_eq_ok_iff.1 hb
    obtain ⟨hyears, hmod, htext⟩ := start?_eq_some_iff.1 hstart
    rw [hstart, Option.some.injEq, Prod.mk.injEq] at hstart'
    obtain ⟨hsame, hg⟩ := hstart'
    rw [← hg] at hsame
    have hkey : a.value.seconds = t.seconds / a.granularity.span * a.granularity.span ∧
        ¬ Missed a.granularity t := by
      rw [Instant.le_def] at hat htb
      simp only [Missed, nanosPerSecond] at hnanos' ⊢
      rcases hspan with hspan | hspan <;> rw [hspan] at hmod hsame ⊢ <;> omega
    obtain ⟨hs, hd⟩ := hstamp _ hkey.1
    exact ⟨by rwa [InYears, ← hd], hkey.2, by rw [htext, hs]⟩
  · rintro ⟨hyears, hmissed, htext⟩
    obtain ⟨hs, hd⟩ := hstamp _ rfl
    have hmod : t.seconds / g.span * g.span % g.span = 0 := Int.mul_emod_left _ _
    obtain ⟨a, b, ha, hb, hga, hgb, hsa, hsb⟩ := exists_window
      (start?_eq_some_iff.2 ⟨by rwa [InYears, hd], hmod, htext.trans hs.symm⟩)
    have hna := (readLower_eq_ok_iff.1 ha).2
    have hnb := (readUpper_eq_ok_iff.1 hb).2
    have hkey : a.value ≤ t ∧ t ≤ b.value := by
      rw [Instant.le_def, Instant.le_def]
      simp only [Missed, nanosPerSecond] at hmissed hnb
      rcases hspan with hspan | hspan <;> rw [hspan] at hsa hsb hmissed <;> omega
    exact ⟨a, b, ha, hb, hga, hkey⟩

theorem nanos_lt_of_covers {text : String} (h : Covers .second text t) :
    t.nanos < nanosPerSecond := by
  obtain ⟨-, hmissed, -⟩ := covers_iff.1 h
  rw [Missed, Granularity.span] at hmissed
  omega

/-- There is one text that covers an instant, or none. -/
theorem existsUnique_covers_iff :
    (∃! text, Covers g text t) ↔ InYears t.seconds ∧ ¬ Missed g t := by
  constructor
  · rintro ⟨text, hcovers, -⟩
    obtain ⟨hyears, hmissed, -⟩ := covers_iff.1 hcovers
    exact ⟨hyears, hmissed⟩
  · rintro ⟨hyears, hmissed⟩
    refine ⟨String.ofList (stamp g t.seconds),
      covers_iff.2 ⟨hyears, hmissed, String.toList_ofList⟩, fun text htext => ?_⟩
    rw [← (covers_iff.1 htext).2.2, String.ofList_toList]

/-- An instant that a datestamp can name: one of the years 0 to 9999, and no leap second. -/
def Nameable (t : Instant) : Prop :=
  0 ≤ t.date.year ∧ t.date.year ≤ 9999 ∧ t.nanos < nanosPerSecond

instance (t : Instant) : Decidable (Nameable t) :=
  inferInstanceAs (Decidable (_ ∧ _ ∧ _))

/-- The text that answers show of an instant is that of its second, but for leap seconds. -/
theorem datestamp_eq_stamp (h : t.nanos < nanosPerSecond) :
    t.datestamp = String.ofList (stamp .second t.seconds) := by
  have hnanos : t.nanos / nanosPerSecond = 0 := Nat.div_eq_of_lt h
  simp [Instant.datestamp, Instant.baseChars, stamp, dateChars, clockChars, hnanos, Instant.date,
    Instant.secondOfDay]

theorem covers_datestamp (h : Nameable t) : Covers .second t.datestamp t := by
  obtain ⟨hlow, hhigh, hleap⟩ := h
  refine covers_iff.2 ⟨⟨hlow, hhigh⟩, fun h => ?_, ?_⟩
  · exact absurd h.1 (Nat.not_le.2 hleap)
  · rw [datestamp_eq_stamp hleap, String.toList_ofList]

theorem exists_lower_datestamp (h : Nameable t) :
    ∃ a, readLower t.datestamp = .ok a ∧ a.value ≤ t := by
  obtain ⟨a, b, ha, -, -, hle, -⟩ := covers_datestamp h
  exact ⟨a, ha, hle⟩

end Datestamp

end Harvest
