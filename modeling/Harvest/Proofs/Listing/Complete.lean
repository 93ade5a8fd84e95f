import Harvest.Proofs.Listing.Harvest

/-!
# Complete harvests

A complete harvest of a store that stays as it is (`Repository.Harvests`) goes from page to page
until nothing is left.  There is at most one for every request (`Repository.Harvests.unique`).

In a standard format there is one, as long as the name of the set is short enough for a token.  Its
pages list nothing but the reference listing, and leave out only what may be skipped between a page
and its token.  They make up the reference listing if the times in it are aligned, so that tokens
carry them as they are (`Repository.exists_harvests`).
-/

namespace Harvest

/-- Two complete harvests that ask the same questions have the same pages. -/
theorem eq_of_harvest {c : Codec} {answer : ListRequest → Except Fault Page} {n n' i i' : Nat}
    {q : ListRequest} {pages pages' : List Page}
    (h : harvest c (fun _ => answer) n i q = .ok pages) (hcomplete : IsComplete pages)
    (h' : harvest c (fun _ => answer) n' i' q = .ok pages') (hcomplete' : IsComplete pages') :
    pages = pages' := by
  induction n generalizing n' i i' q pages pages' with
  | zero =>
    cases h
    exact absurd rfl hcomplete.ne_nil
  | succ n ih =>
    cases n' with
    | zero =>
      cases h'
      exact absurd rfl hcomplete'.ne_nil
    | succ n' =>
      obtain ⟨page, hpage, hrest⟩ := harvest_succ_eq_ok_iff.1 h
      obtain ⟨page', hpage', hrest'⟩ := harvest_succ_eq_ok_iff.1 h'
      obtain rfl : page = page' := Except.ok.inj (hpage.symm.trans hpage')
      obtain ⟨hnext, rfl⟩ | ⟨t, rest, hnext, hrest, rfl⟩ := hrest
      · obtain ⟨-, rfl⟩ | ⟨t, rest, hnext', -⟩ := hrest'
        · rfl
        · rw [hnext] at hnext'
          cases hnext'
      · obtain ⟨hnext', -⟩ | ⟨t', rest', hnext', hrest', rfl⟩ := hrest'
        · rw [hnext] at hnext'
          cases hnext'
        · obtain rfl : t = t' := Option.some.inj (hnext.symm.trans hnext')
          rw [ih hrest (hcomplete.tail hnext).2 hrest' (hcomplete'.tail hnext').2]

namespace Repository

variable {r : Repository} {s : Store} {q : ListRequest} {pages pages' : List Page}

/-- Some pages are the complete harvest of a request over a store that stays as it is: each one
but the first answers the token of the page before. -/
def Harvests (r : Repository) (s : Store) (q : ListRequest) (pages : List Page) : Prop :=
  IsComplete pages ∧ ∃ n, harvest r.codec (fun _ => r.answer s) n 0 q = .ok pages

theorem not_harvests_of_error {f : Fault} (h : r.answer s q = .error f) :
    ¬ r.Harvests s q pages := by
  rintro ⟨hcomplete, n, hn⟩
  obtain ⟨page, hpage⟩ := exists_answer_of_harvest hn hcomplete.ne_nil
  rw [h] at hpage
  cases hpage

/-- There is at most one complete harvest of a request. -/
theorem Harvests.unique (h : r.Harvests s q pages) (h' : r.Harvests s q pages') :
    pages = pages' := by
  obtain ⟨hcomplete, n, hn⟩ := h
  obtain ⟨hcomplete', n', hn'⟩ := h'
  exact eq_of_harvest hn hcomplete hn' hcomplete'

theorem le_of_undated : ∀ a b : Instant, none = some a → none = some b → a ≤ b := by
  rintro a b ⟨⟩

theorem tokensFit_of_isStandard (hs : s.WellFormed) (hformats : r.formats.IsStandard) {m : String}
    {o : FormatOptions} (ho : r.formats.options? m = some o) {set : Option String}
    (hset : Codec.optionSize set ≤ 256) {since upTo : Option Instant} {n i : Nat}
    (h : harvest r.codec (fun _ => r.answer s) n i
      { metadataPrefix := some m, set := set, since := since, upTo := upTo } = .ok pages) :
    TokensFit r.codec pages := by
  obtain ⟨hm, hsize⟩ := hformats.size_le ho
  have hshort : 1000 + 8 * (m.utf8ByteSize + Codec.optionSize set) ≤ Codec.maxLength := by
    rw [Codec.maxLength]
    omega
  exact tokensFit_of_short (fun i q page hpage => ⟨r, s, rfl, hs, hpage⟩) hm hshort h

/-- **There is a complete harvest, and it lists nothing but the reference listing**, as long as its
tokens fit.  It lists all of it but for what its tokens may skip, which is nothing where the times
in the listing are aligned. -/
theorem exists_harvests_of_fit (hs : s.Reachable) {p : Plan} (hp : r.Supports p)
    (hstart : p.start = none)
    (hfit : ∀ n pages, harvest r.codec (fun _ => r.answer s) n 0 p.request = .ok pages →
      TokensFit r.codec pages) :
    ∃ pages, r.Harvests s p.request pages ∧
      (pages.flatMap Page.records).Sublist ((r.whole s.records p).map Prod.snd) ∧
      (∀ e ∈ r.whole s.records p, e.2 ∈ pages.flatMap Page.records ∨ Skippable pages e.2) ∧
      ((∀ e ∈ r.whole s.records p, e.2.modified.IsAligned) →
        pages.flatMap Page.records = (r.whole s.records p).map Prod.snd) := by
  obtain ⟨m, set, rule, since, upTo, o, start⟩ := p
  cases hstart
  have hself := sized_self hp.registered
  have hanswers : r.answerSized m (fun _ => ⟨o.pageSize, r.settings.scanBatchSize⟩) s =
      fun _ => r.answer s := by
    funext i
    rw [answerSized, hself]
  obtain ⟨n, pages, hpages, hexhausts⟩ := harvest_from hs.wellFormed hp
    (fun _ => ⟨o.pageSize, r.settings.scanBatchSize⟩) (fun _ => hp.pageSize_pos) 0 _
    (planned_request (hp.sized hp.pageSize_pos)) (by rw [hanswers]; exact fun n => hfit n)
  rw [hanswers] at hpages
  exact ⟨pages, ⟨hexhausts.complete, n, hpages⟩, hexhausts.sublist, hexhausts.listed,
    fun haligned => hexhausts.records_eq hs.wellFormed (fun t ht => nomatch ht) hp.nodup
      fun e _ => (hexhausts.aligned haligned).not_skippable e.2⟩

section Standard

variable (hs : s.Reachable) (hformats : r.formats.IsStandard) {m : String} {o : FormatOptions}
  (ho : r.formats.options? m = some o) {set : Option String} {rule : Option SetRule}
  (hrule : r.resolveSet set = .ok rule) (hset : Codec.optionSize set ≤ 256)
  {since upTo : Option Instant} (hwindow : ∀ a b, since = some a → upTo = some b → a ≤ b)
  (hbounds : AlignedBounds since upTo)
include hs hformats ho hrule hset hwindow hbounds

/-- **In a standard format there is a complete harvest, and it lists nothing but the reference
listing**, and all of it but for what its tokens may skip. -/
theorem exists_harvests : ∃ pages, r.Harvests s
      { metadataPrefix := some m, set := set, since := since, upTo := upTo } pages ∧
    (pages.flatMap Page.records).Sublist
      ((r.whole s.records ⟨m, set, rule, since, upTo, o, none⟩).map Prod.snd) ∧
    (∀ e ∈ r.whole s.records ⟨m, set, rule, since, upTo, o, none⟩,
      e.2 ∈ pages.flatMap Page.records ∨ Skippable pages e.2) ∧
    ((∀ e ∈ r.whole s.records ⟨m, set, rule, since, upTo, o, none⟩, e.2.modified.IsAligned) →
      pages.flatMap Page.records =
        (r.whole s.records ⟨m, set, rule, since, upTo, o, none⟩).map Prod.snd) := by
  have hsupports : r.Supports ⟨m, set, rule, since, upTo, o, none⟩ :=
    ⟨(hformats.size_le ho).1, ho, (hformats m o ho).2, hrule, hwindow, hbounds⟩
  exact exists_harvests_of_fit hs hsupports rfl fun n pages hpages =>
    tokensFit_of_isStandard hs.wellFormed hformats ho hset hpages

/-- Whatever is a complete harvest lists nothing but the reference listing. -/
theorem Harvests.records_sublist (h : r.Harvests s
      { metadataPrefix := some m, set := set, since := since, upTo := upTo } pages) :
    (pages.flatMap Page.records).Sublist
      ((r.whole s.records ⟨m, set, rule, since, upTo, o, none⟩).map Prod.snd) := by
  obtain ⟨pages', hpages', hsublist, -⟩ :=
    exists_harvests hs hformats ho hrule hset hwindow hbounds
  rwa [h.unique hpages']

/-- Whatever is a complete harvest leaves out only what its tokens may skip. -/
theorem Harvests.mem_or_skippable (h : r.Harvests s
      { metadataPrefix := some m, set := set, since := since, upTo := upTo } pages) {x : Record}
    (hx : x ∈ (r.whole s.records ⟨m, set, rule, since, upTo, o, none⟩).map Prod.snd) :
    x ∈ pages.flatMap Page.records ∨ Skippable pages x := by
  obtain ⟨pages', hpages', -, hlisted, -⟩ :=
    exists_harvests hs hformats ho hrule hset hwindow hbounds
  obtain ⟨e, he, rfl⟩ := List.mem_map.1 hx
  rw [h.unique hpages']
  exact hlisted e he

/-- Whatever is a complete harvest of an archive with aligned times makes up the reference
listing. -/
theorem Harvests.records_eq (haligned : s.IsAligned) (h : r.Harvests s
      { metadataPrefix := some m, set := set, since := since, upTo := upTo } pages) :
    pages.flatMap Page.records =
      (r.whole s.records ⟨m, set, rule, since, upTo, o, none⟩).map Prod.snd := by
  obtain ⟨pages', hpages', -, -, hrecords⟩ :=
    exists_harvests hs hformats ho hrule hset hwindow hbounds
  rw [h.unique hpages']
  exact hrecords fun e he => isAligned_of_mem_whole haligned he

end Standard

end Repository

end Harvest
