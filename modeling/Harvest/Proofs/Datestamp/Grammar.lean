import Harvest.Proofs.Datestamp

/-!
# The grammar of datestamps

A datestamp is `YYYY-MM-DD` or `YYYY-MM-DDThh:mm:ssZ`, in ASCII digits, for a date that the calendar
has and a time of day without leap seconds (`Datestamp.Denotes`).  Both bounds are read from exactly
these texts, and **from any other text neither is** (`Datestamp.reads_iff_denotes`).

Fields have fixed widths and come from the most significant one to the least, so that texts of one
granularity are ordered as what they denote (`Datestamp.Denotes.lt_of_lt`).
-/

namespace Harvest

/-! ### The order of texts -/

theorem append_lt_append_iff {u v a b : List Char} (h : u.length = v.length) :
    u ++ a < v ++ b ↔ u < v ∨ u = v ∧ a < b := by
  induction u generalizing v with
  | nil =>
    obtain rfl := List.length_eq_zero_iff.1 h.symm
    simp
  | cons c u ih =>
    cases v with
    | nil => cases h
    | cons d v =>
      rw [List.cons_append, List.cons_append, List.cons_lt_cons_iff, List.cons_lt_cons_iff,
        ih (Nat.succ.inj h), List.cons.injEq]
      constructor
      · rintro (hcd | ⟨rfl, huv | ⟨rfl, hab⟩⟩)
        · exact .inl (.inl hcd)
        · exact .inl (.inr ⟨rfl, huv⟩)
        · exact .inr ⟨⟨rfl, rfl⟩, hab⟩
      · rintro ((hcd | ⟨rfl, huv⟩) | ⟨⟨rfl, rfl⟩, hab⟩)
        · exact .inl hcd
        · exact .inr ⟨rfl, .inl huv⟩
        · exact .inr ⟨rfl, .inr ⟨rfl, hab⟩⟩

theorem ofDigitChars_lt_of_lt {ds es : List Char} (hds : ∀ c ∈ ds, c.isDigit = true)
    (hes : ∀ c ∈ es, c.isDigit = true) (hlen : ds.length = es.length) (h : ds < es) :
    Nat.ofDigitChars 10 ds 0 < Nat.ofDigitChars 10 es 0 := by
  induction ds generalizing es with
  | nil =>
    obtain rfl := List.length_eq_zero_iff.1 hlen.symm
    exact absurd h (List.lt_irrefl _)
  | cons d ds ih =>
    cases es with
    | nil => cases hlen
    | cons e es =>
      obtain ⟨hd, hdrest⟩ := List.forall_mem_cons.1 hds
      obtain ⟨he, herest⟩ := List.forall_mem_cons.1 hes
      have hrests : ds.length = es.length := Nat.succ.inj hlen
      rw [ofDigitChars_cons, ofDigitChars_cons, ← hrests]
      obtain hde | ⟨rfl, hrest⟩ := List.cons_lt_cons_iff.1 h
      · -- the first digits decide, whatever the others write
        have hsmall := ofDigitChars_lt hdrest
        have hfirst := toNat_of_isDigit hd
        have hde : d.toNat < e.toNat := hde
        have hgap : 10 ^ ds.length * (d.toNat - 48 + 1) ≤ 10 ^ ds.length * (e.toNat - 48) :=
          Nat.mul_le_mul_left _ (by omega)
        rw [Nat.mul_succ] at hgap
        omega
      · exact Nat.add_lt_add_left (ih hdrest herest hrests hrest) _

namespace Datestamp

/-! ### Fields -/

/-- Digits, as many as a field has, write a number. -/
structure Writes (width : Nat) (ds : List Char) (n : Nat) : Prop where
  length : ds.length = width
  digits : ∀ c ∈ ds, c.isDigit = true
  value : Nat.ofDigitChars 10 ds 0 = n

/-- `YYYY-MM-DD`, for a date that the calendar has. -/
inductive WritesDate : List Char → Date → Prop
  | intro {y m d : List Char} {year month day : Nat} (hy : Writes 4 y year)
    (hm : Writes 2 m month) (hd : Writes 2 d day)
    (hreal : Date.isReal { year := (year : Int), month, day } = true) :
    WritesDate (y ++ '-' :: (m ++ '-' :: d)) { year := (year : Int), month, day }

/-- `hh:mm:ss`, for a time of day, in seconds. -/
inductive WritesClock : List Char → Nat → Prop
  | intro {h m s : List Char} {hour minute second : Nat} (hh : Writes 2 h hour)
    (hm : Writes 2 m minute) (hs : Writes 2 s second) (hhour : hour ≤ 23) (hminute : minute ≤ 59)
    (hsecond : second ≤ 59) :
    WritesClock (h ++ ':' :: (m ++ ':' :: s)) (hour * 3600 + minute * 60 + second)

/-- The texts of datestamps: which granularity they have, and the first second they cover. -/
inductive Denotes : List Char → Granularity → Int → Prop
  | day {cs : List Char} {date : Date} (h : WritesDate cs date) :
    Denotes cs .day (date.dayNumber * 86400)
  | second {cs ks : List Char} {date : Date} {time : Nat} (h : WritesDate cs date)
    (h' : WritesClock ks time) :
    Denotes (cs ++ 'T' :: (ks ++ ['Z'])) .second (date.dayNumber * 86400 + (time : Int))

variable {cs ds : List Char} {width k k' : Nat} {n n' : Int} {g : Granularity} {date date' : Date}

theorem writes_iff : Writes width ds k ↔ ds.length = width ∧ number? ds = some k := by
  have hnumber : number? ds = some k ↔
      (∀ c ∈ ds, c.isDigit = true) ∧ Nat.ofDigitChars 10 ds 0 = k := by
    simp [number?]
  rw [hnumber]
  exact ⟨fun h => ⟨h.length, h.digits, h.value⟩, fun ⟨hl, hd, hv⟩ => ⟨hl, hd, hv⟩⟩

theorem Writes.lt_of_lt (h : Writes width cs k) (h' : Writes width ds k') (hlt : cs < ds) :
    k < k' := by
  rw [← h.value, ← h'.value]
  exact ofDigitChars_lt_of_lt h.digits h'.digits (h.length.trans h'.length.symm) hlt

theorem Writes.unique (h : Writes width cs k) (h' : Writes width cs k') : k = k' :=
  h.value.symm.trans h'.value

/-- Two fields with something between them decide one after the other. -/
theorem Writes.fields_lt {as bs : List Char} {c : Char} (h : Writes width cs k)
    (h' : Writes width ds k') (hlt : cs ++ c :: as < ds ++ c :: bs) :
    k < k' ∨ k = k' ∧ as < bs := by
  obtain hfront | ⟨rfl, hback⟩ := (append_lt_append_iff (h.length.trans h'.length.symm)).1 hlt
  · exact .inl (h.lt_of_lt h' hfront)
  · obtain hc | ⟨-, hrest⟩ := List.cons_lt_cons_iff.1 hback
    · exact absurd hc (Char.lt_irrefl c)
    · exact .inr ⟨h.unique h', hrest⟩

theorem WritesDate.length (h : WritesDate cs date) : cs.length = 10 := by
  obtain ⟨hy, hm, hd, -⟩ := h
  simp [hy.length, hm.length, hd.length]

theorem WritesDate.lt_of_lt (h : WritesDate cs date) (h' : WritesDate ds date') (hlt : cs < ds) :
    date.dayNumber < date'.dayNumber := by
  obtain ⟨hy, hm, hd, hreal⟩ := h
  obtain ⟨hy', hm', hd', hreal'⟩ := h'
  refine Date.dayNumber_lt hreal hreal' ?_
  obtain hlt | ⟨rfl, hlt⟩ := hy.fields_lt hy' hlt
  · exact .inl (Int.ofNat_lt.2 hlt)
  · refine .inr ⟨rfl, ?_⟩
    obtain hlt | ⟨rfl, hlt⟩ := hm.fields_lt hm' hlt
    · exact .inl hlt
    · exact .inr ⟨rfl, hd.lt_of_lt hd' hlt⟩

theorem WritesClock.length (h : WritesClock cs k) : cs.length = 8 := by
  obtain ⟨hh, hm, hs, -⟩ := h
  simp [hh.length, hm.length, hs.length]

theorem WritesClock.lt (h : WritesClock cs k) : k < 86400 := by
  obtain ⟨-, -, -, hhour, hminute, hsecond⟩ := h
  omega

theorem WritesClock.lt_of_lt (h : WritesClock cs k) (h' : WritesClock ds k') (hlt : cs < ds) :
    k < k' := by
  obtain ⟨hh, hm, hs, -, hminute, hsecond⟩ := h
  obtain ⟨hh', hm', hs', -, hminute', hsecond'⟩ := h'
  obtain hlt | ⟨rfl, hlt⟩ := hh.fields_lt hh' hlt
  · omega
  · obtain hlt | ⟨rfl, hlt⟩ := hm.fields_lt hm' hlt
    · omega
    · exact Nat.add_lt_add_left (hs.lt_of_lt hs' hlt) _

/-! ### What is read -/

theorem daySeconds?_of_writes {y m d : List Char} {year month day : Nat} (hy : Writes 4 y year)
    (hm : Writes 2 m month) (hd : Writes 2 d day)
    (hreal : Date.isReal { year := (year : Int), month, day } = true) : daySeconds? y m d =
      some (Date.dayNumber { year := (year : Int), month, day } * 86400) := by
  simp [daySeconds?, (writes_iff.1 hy).2, (writes_iff.1 hm).2, (writes_iff.1 hd).2, hreal]

theorem exists_writesDate {y m d : List Char} (hy : y.length = 4) (hm : m.length = 2)
    (hd : d.length = 2) (h : daySeconds? y m d = some n) :
    ∃ date, WritesDate (y ++ '-' :: (m ++ '-' :: d)) date ∧ n = date.dayNumber * 86400 := by
  obtain ⟨year, hyear, h⟩ := Option.bind_eq_some_iff.1 h
  obtain ⟨month, hmonth, h⟩ := Option.bind_eq_some_iff.1 h
  obtain ⟨day, hday, h⟩ := Option.bind_eq_some_iff.1 h
  simp only [Option.ite_none_right_eq_some, Option.some.injEq] at h
  obtain ⟨hreal, rfl⟩ := h
  exact ⟨_, ⟨writes_iff.2 ⟨hy, hyear⟩, writes_iff.2 ⟨hm, hmonth⟩, writes_iff.2 ⟨hd, hday⟩,
    hreal⟩, rfl⟩

theorem exists_writesClock {h m s : List Char} (hh : h.length = 2) (hm : m.length = 2)
    (hs : s.length = 2) (hclock : clockSeconds? h m s = some n) :
    ∃ time : Nat, WritesClock (h ++ ':' :: (m ++ ':' :: s)) time ∧ n = time := by
  obtain ⟨hour, hhour, hclock⟩ := Option.bind_eq_some_iff.1 hclock
  obtain ⟨minute, hminute, hclock⟩ := Option.bind_eq_some_iff.1 hclock
  obtain ⟨second, hsecond, hclock⟩ := Option.bind_eq_some_iff.1 hclock
  simp only [Option.ite_none_right_eq_some, Option.some.injEq] at hclock
  obtain ⟨⟨h23, hm59, hs59⟩, rfl⟩ := hclock
  exact ⟨_, ⟨writes_iff.2 ⟨hh, hhour⟩, writes_iff.2 ⟨hm, hminute⟩, writes_iff.2 ⟨hs, hsecond⟩,
    h23, hm59, hs59⟩, rfl⟩

/-- **What is read as a datestamp is what the grammar has.** -/
theorem start?_eq_some_iff_denotes : start? cs = some (n, g) ↔ Denotes cs g n := by
  constructor
  · intro h
    unfold start? at h
    split at h
    · obtain ⟨n, hn, ⟨⟩⟩ := Option.map_eq_some_iff.1 h
      obtain ⟨date, hdate, rfl⟩ := exists_writesDate rfl rfl rfl hn
      exact .day hdate
    · obtain ⟨day, hday, h⟩ := Option.bind_eq_some_iff.1 h
      obtain ⟨clock, hclock, ⟨⟩⟩ := Option.bind_eq_some_iff.1 h
      obtain ⟨date, hdate, rfl⟩ := exists_writesDate rfl rfl rfl hday
      obtain ⟨time, htime, rfl⟩ := exists_writesClock rfl rfl rfl hclock
      exact .second hdate htime
    · cases h
  · rintro (⟨hy, hm, hd, hreal⟩ | ⟨⟨hy, hm, hd, hreal⟩, ⟨hh, hi, hs, hhour, hminute, hsecond⟩⟩)
    · rw [start?_day hy.length hm.length hd.length, daySeconds?_of_writes hy hm hd hreal]
      rfl
    · rw [start?_second hy.length hm.length hd.length hh.length hi.length hs.length,
        daySeconds?_of_writes hy hm hd hreal]
      simp [clockSeconds?, (writes_iff.1 hh).2, (writes_iff.1 hi).2, (writes_iff.1 hs).2, hhour,
        hminute, hsecond]

/-- **Texts of one granularity are ordered as what they denote.** -/
theorem Denotes.lt_of_lt (h : Denotes cs g n) (h' : Denotes ds g n') (hlt : cs < ds) : n < n' := by
  cases h with
  | day hdate =>
    obtain ⟨hdate'⟩ := h'
    have := hdate.lt_of_lt hdate' hlt
    omega
  | second hdate htime =>
    obtain - | ⟨hdate', htime'⟩ := h'
    have hday := htime.lt
    obtain hfront | ⟨rfl, hback⟩ :=
      (append_lt_append_iff (hdate.length.trans hdate'.length.symm)).1 hlt
    · have := hdate.lt_of_lt hdate' hfront
      omega
    · -- the same day
      have hsame := start?_eq_some_iff_denotes.2 (.day hdate)
      rw [start?_eq_some_iff_denotes.2 (.day hdate'), Option.some.injEq, Prod.mk.injEq] at hsame
      obtain hT | ⟨-, hclock⟩ := List.cons_lt_cons_iff.1 hback
      · exact absurd hT (Char.lt_irrefl _)
      obtain hclock | ⟨-, hZ⟩ :=
        (append_lt_append_iff (htime.length.trans htime'.length.symm)).1 hclock
      · have := htime.lt_of_lt htime' hclock
        omega
      · exact absurd hZ (List.lt_irrefl _)

/-! ### Bounds -/

variable {text text' : String} {a a' : Datestamp}

theorem read_of_not_denotes (h : ∀ g n, ¬ Denotes text.toList g n) :
    readLower text = .error (.invalidDatestamp text) ∧
      readUpper text = .error (.invalidDatestamp text) := by
  have hnone : start? text.toList = none :=
    Option.eq_none_iff_forall_ne_some.2 fun ⟨n, g⟩ hstart =>
      h g n (start?_eq_some_iff_denotes.1 hstart)
  simp [readLower, readUpper, lower?, upper?, hnone]

theorem readLower_lt (ha : readLower text = .ok a) (ha' : readLower text' = .ok a')
    (hg : a'.granularity = a.granularity) (hlt : text < text') : a.value < a'.value := by
  have hdenotes := start?_eq_some_iff_denotes.1 (readLower_eq_ok_iff.1 ha).1
  have hdenotes' := start?_eq_some_iff_denotes.1 (readLower_eq_ok_iff.1 ha').1
  rw [hg] at hdenotes'
  exact Instant.lt_def.2 (.inl (hdenotes.lt_of_lt hdenotes' (String.lt_iff.1 hlt)))

/-- The text of a second is shown again for every instant in it. -/
theorem datestamp_eq_text {t : Instant} (hstart : start? text.toList = some (t.seconds, .second))
    (ht : t.nanos < nanosPerSecond) : t.datestamp = text := by
  rw [datestamp_eq_stamp ht, ← (start?_eq_some_iff.1 hstart).2.2, String.ofList_toList]

/-- **Bounds are read from the texts of the grammar, and from no others**; from others reading fails
for the argument.  A lower bound is the start of what the text denotes, and the upper bound is one
nanosecond before the end of it, which is an instant as well; if the text is that of a second, both
are shown as that text.  Among texts of one granularity, later ones are later lower bounds. -/
theorem reads_iff_denotes (text : String) :
    ((∃ a, readLower text = .ok a) ↔ ∃ g n, Denotes text.toList g n) ∧
    ((∃ b, readUpper text = .ok b) ↔ ∃ g n, Denotes text.toList g n) ∧
    (∀ f, readLower text = .error f ∨ readUpper text = .error f → f.kind = .badArgument) ∧
    ∀ a, readLower text = .ok a →
      Denotes text.toList a.granularity a.value.seconds ∧ a.value.nanos = 0 ∧
      (∃ after : Instant, after.seconds = a.value.seconds + a.granularity.span ∧
        after.nanos = 0) ∧
      (∃ b, readUpper text = .ok b ∧ b.granularity = a.granularity ∧
        b.value.seconds = a.value.seconds + (a.granularity.span - 1) ∧
        b.value.nanos = 999999999 ∧
        (a.granularity = .second → a.value.datestamp = text ∧ b.value.datestamp = text)) ∧
      ∀ text' a', readLower text' = .ok a' → a'.granularity = a.granularity → text < text' →
        a.value < a'.value := by
  have hread : ∀ g n, Denotes text.toList g n →
      ∃ a b, readLower text = .ok a ∧ readUpper text = .ok b := by
    intro g n h
    obtain ⟨a, b, ha, hb, -⟩ := exists_window (start?_eq_some_iff_denotes.2 h)
    exact ⟨a, b, ha, hb⟩
  refine ⟨⟨?_, ?_⟩, ⟨?_, ?_⟩, ?_, fun a ha => ?_⟩
  · rintro ⟨a, ha⟩
    exact ⟨_, _, start?_eq_some_iff_denotes.1 (readLower_eq_ok_iff.1 ha).1⟩
  · rintro ⟨g, n, h⟩
    obtain ⟨a, -, ha, -⟩ := hread g n h
    exact ⟨a, ha⟩
  · rintro ⟨b, hb⟩
    exact ⟨_, _, start?_eq_some_iff_denotes.1 (readUpper_eq_ok_iff.1 hb).1⟩
  · rintro ⟨g, n, h⟩
    obtain ⟨-, b, -, hb⟩ := hread g n h
    exact ⟨b, hb⟩
  · intro f hf
    by_cases h : ∃ g n, Denotes text.toList g n
    · obtain ⟨g, n, h⟩ := h
      obtain ⟨a, b, ha, hb⟩ := hread g n h
      simp [ha, hb] at hf
    · obtain ⟨hlower, hupper⟩ := read_of_not_denotes fun g n hn => h ⟨g, n, hn⟩
      simp only [hlower, hupper, Except.error.injEq, or_self] at hf
      rw [← hf]
      rfl
  · obtain ⟨hstart, hnanos⟩ := readLower_eq_ok_iff.1 ha
    obtain ⟨a', b, ha', hb, -, hgb, hsa, hsb⟩ := exists_window hstart
    obtain rfl : a = a' := Except.ok.inj (ha.symm.trans ha')
    have hnb := (readUpper_eq_ok_iff.1 hb).2
    obtain ⟨⟨hlow, hhigh⟩, -, -⟩ := start?_eq_some_iff.1 hstart
    have hbounds := Date.bounds_of_year hlow hhigh
    have hspan : 1 ≤ a.granularity.span ∧ a.granularity.span ≤ 86400 := by
      cases a.granularity <;> decide
    refine ⟨start?_eq_some_iff_denotes.1 hstart, hnanos, ?_, ⟨b, hb, hgb, by omega, hnb, ?_⟩,
      fun text' a' ha' => readLower_lt ha ha'⟩
    · exact ⟨⟨a.value.seconds + a.granularity.span, 0, by omega, by omega, by decide⟩,
        rfl, rfl⟩
    · intro hsecond
      have hsame : b.value.seconds = a.value.seconds := by
        rw [hsb, hsecond, Granularity.span]
        omega
      rw [hsecond] at hstart
      refine ⟨datestamp_eq_text hstart ?_, datestamp_eq_text (hsame ▸ hstart) ?_⟩
      · rw [hnanos]
        decide
      · rw [hnb]
        decide

/-- The last second of a year is read, shown again, and before the first one of the next. -/
theorem reads_iff_denotes_lastOf1999 : ∃ a a' b,
    readLower "1999-12-31T23:59:59Z" = .ok a ∧ readLower "2000-01-01T00:00:00Z" = .ok a' ∧
    readUpper "1999-12-31T23:59:59Z" = .ok b ∧ a.value < a'.value ∧
    b.value.datestamp = "1999-12-31T23:59:59Z" := by
  obtain ⟨a, ha, hg⟩ : ∃ a, readLower "1999-12-31T23:59:59Z" = .ok a ∧ a.granularity = .second :=
    ⟨_, rfl, rfl⟩
  obtain ⟨a', ha', hg'⟩ : ∃ a', readLower "2000-01-01T00:00:00Z" = .ok a' ∧
      a'.granularity = .second := ⟨_, rfl, rfl⟩
  obtain ⟨-, -, -, hlower⟩ := reads_iff_denotes "1999-12-31T23:59:59Z"
  obtain ⟨-, -, -, ⟨b, hb, -, -, -, hshown⟩, hlater⟩ := hlower a ha
  exact ⟨a, a', b, ha, ha', hb, hlater _ a' ha' (hg'.trans hg.symm) (by decide), (hshown hg).2⟩

end Datestamp

end Harvest
