import Harvest.Listing
import Harvest.Proofs.Store.Scan

/-!
# Reference listings

What a listing over some records comes to, without batches and pages: `Pass.ofType` for one record
type and `Pass.listing` for several.  Each listed record stands at a *spot*, and a listing is in
the strict order of its spots (`Pass.pairwise_listing`).

A listing that starts behind a spot is the part of the whole listing that comes after it
(`Pass.listing_drop`).  Hence listings can be cut anywhere and continued.
-/

namespace Harvest

/-- A record that is listed, with the place of its type in the listing's order. -/
abbrev Entry := Nat × Record

/-- Where a listed record stands. -/
def spotOf (e : Entry) : Spot := ⟨e.1, e.2.cursor⟩

namespace Pass

variable (p : Pass) (rs : List Record)

/-- The records of a type after a cursor, as they are listed. -/
def ofType (t : RecordType) (after : Option Cursor) : List Record :=
  (rs.filter (p.query t after).admits).filterMap p.listed?

/-- The records of several types, of which the first has the place `index` and starts after a
cursor. -/
def listing : Nat → List RecordType → Option Cursor → List Entry
  | _, [], _ => []
  | index, t :: ts, after =>
    (p.ofType rs t after).map (fun r => (index, r)) ++ listing (index + 1) ts none

variable {p rs}

/-! ### Listed records -/

theorem of_listed? {r x : Record} (h : p.listed? r = some x) :
    x.uri = r.uri ∧ x.recordType = r.recordType ∧ x.cursor = r.cursor := by
  unfold listed? at h
  split_ifs at h
  · cases h
    exact ⟨rfl, rfl, rfl⟩
  · split at h <;> cases h <;> exact ⟨rfl, rfl, rfl⟩

theorem mem_ofType {t : RecordType} {after : Option Cursor} {x : Record} :
    x ∈ p.ofType rs t after ↔
      ∃ r ∈ rs, (p.query t after).admits r = true ∧ p.listed? r = some x := by
  simp [ofType, List.mem_filterMap, and_assoc]

theorem admits_query_of_le {t : RecordType} {after : Option Cursor} {c : Cursor}
    (hc : ∀ a, after = some a → a < c) (r : Record) :
    (p.query t (some c)).admits r = ((p.query t after).admits r && decide (c < r.cursor)) := by
  rw [Bool.eq_iff_iff, Bool.and_eq_true, decide_eq_true_iff, ScanQuery.admits_iff,
    ScanQuery.admits_iff]
  constructor
  · rintro ⟨htype, hafter, hrest⟩
    have hlt : c < r.cursor := hafter c rfl
    exact ⟨⟨htype, fun a ha => lt_trans (hc a ha) hlt, hrest⟩, hlt⟩
  · rintro ⟨⟨htype, -, hrest⟩, hlt⟩
    refine ⟨htype, fun a ha => ?_, hrest⟩
    cases ha
    exact hlt

theorem filter_query {t : RecordType} {after : Option Cursor} {c : Cursor}
    (hc : ∀ a, after = some a → a < c) : rs.filter (p.query t (some c)).admits =
      (rs.filter (p.query t after).admits).filter (fun r => decide (c < r.cursor)) := by
  rw [List.filter_filter]
  exact List.filter_congr fun r _ => by rw [admits_query_of_le hc, Bool.and_comm]

theorem filter_ofType {t : RecordType} {after : Option Cursor} {c : Cursor}
    (hc : ∀ a, after = some a → a < c) :
    (p.ofType rs t after).filter (fun x => decide (c < x.cursor)) = p.ofType rs t (some c) := by
  have hlisted : ∀ r, (p.listed? r).filter (fun x => decide (c < x.cursor)) =
      if decide (c < r.cursor) then p.listed? r else none := by
    intro r
    cases hr : p.listed? r with
    | none => simp
    | some x => rw [Option.filter_some, (of_listed? hr).2.2]
  rw [ofType, ofType, filter_query hc]
  generalize rs.filter (p.query t after).admits = admitted
  rw [List.filter_filterMap, List.filterMap_filter]
  exact List.filterMap_congr fun r _ => hlisted r

/-! ### Order -/

theorem pairwise_admitted (h : Shelved rs) (t : RecordType) (after : Option Cursor) :
    (rs.filter (p.query t after).admits).Pairwise fun a b => a.cursor < b.cursor :=
  h.pairwise_filter fun _ hr => (ScanQuery.admits_iff.1 hr).1

theorem pairwise_ofType (h : Shelved rs) (t : RecordType) (after : Option Cursor) :
    (p.ofType rs t after).Pairwise fun a b => a.cursor < b.cursor := by
  refine (pairwise_admitted h t after).filterMap _ fun a b hab x hx y hy => ?_
  rw [(of_listed? hx).2.2, (of_listed? hy).2.2]
  exact hab

theorem le_index_of_mem_listing {index : Nat} {ts : List RecordType} {after : Option Cursor}
    {e : Entry} (he : e ∈ p.listing rs index ts after) : index ≤ e.1 := by
  induction ts generalizing index after with
  | nil => cases he
  | cons t ts ih =>
    rcases List.mem_append.1 he with he | he
    · obtain ⟨r, -, rfl⟩ := List.mem_map.1 he
      exact Nat.le_refl _
    · exact Nat.le_of_succ_le (ih he)

/-- **A listing is in the strict order of its spots.** -/
theorem pairwise_listing (h : Shelved rs) (index : Nat) (ts : List RecordType)
    (after : Option Cursor) :
    (p.listing rs index ts after).Pairwise fun a b => spotOf a < spotOf b := by
  induction ts generalizing index after with
  | nil => exact List.Pairwise.nil
  | cons t ts ih =>
    refine List.pairwise_append.2 ⟨?_, ih _ _, fun a ha b hb => ?_⟩
    · rw [List.pairwise_map]
      refine (pairwise_ofType h t after).imp fun hab => ?_
      exact Spot.lt_def.2 (.inr ⟨rfl, hab⟩)
    · obtain ⟨r, -, rfl⟩ := List.mem_map.1 ha
      exact Spot.lt_def.2 (.inl (le_index_of_mem_listing hb))

/-! ### Cutting -/

/-- A listing behind a spot is the part of the whole listing that comes after the spot. -/
theorem listing_drop (index i : Nat) (ts : List RecordType) (hi : i < ts.length) (c : Cursor) :
    p.listing rs (index + i) (ts.drop i) (some c) =
      (p.listing rs index ts none).filter fun e => decide ((⟨index + i, c⟩ : Spot) < spotOf e) := by
  induction i generalizing index ts with
  | zero =>
    -- the cut is in the first type, and the others lie behind it
    obtain ⟨t, ts, rfl⟩ := List.exists_cons_of_length_pos hi
    have hhere : ((p.ofType rs t none).map fun r => (index, r)).filter
        (fun e => decide ((⟨index, c⟩ : Spot) < spotOf e)) =
          (p.ofType rs t (some c)).map fun r => (index, r) := by
      have hnone : ∀ a, (none : Option Cursor) = some a → a < c := by rintro a ⟨⟩
      rw [← filter_ofType hnone, List.filter_map]
      refine congrArg _ (List.filter_congr fun r _ => decide_eq_decide.2 ?_)
      simp [Spot.lt_def, spotOf]
    have hrest : (p.listing rs (index + 1) ts none).filter
        (fun e => decide ((⟨index, c⟩ : Spot) < spotOf e)) = p.listing rs (index + 1) ts none :=
      List.filter_eq_self.2 fun e he =>
        decide_eq_true (Spot.lt_def.2 (.inl (le_index_of_mem_listing he)))
    simp only [Nat.add_zero, List.drop_zero, listing, List.filter_append, hhere, hrest]
  | succ i ih =>
    -- the first type lies in front of the cut
    obtain ⟨t, ts, rfl⟩ := List.exists_cons_of_length_pos (Nat.lt_of_le_of_lt (Nat.zero_le _) hi)
    have hhere : ((p.ofType rs t none).map fun r => (index, r)).filter
        (fun e => decide ((⟨index + (i + 1), c⟩ : Spot) < spotOf e)) = [] := by
      rw [List.filter_eq_nil_iff]
      intro e he hlt
      obtain ⟨r, -, rfl⟩ := List.mem_map.1 he
      obtain hlt | ⟨heq, -⟩ := Spot.lt_def.1 (of_decide_eq_true hlt)
      · simp only [spotOf] at hlt
        omega
      · simp only [spotOf] at heq
        omega
    have hrest := ih (index + 1) ts (by simpa using hi)
    rw [Nat.add_assoc, Nat.add_comm 1 i] at hrest
    rw [List.drop_succ_cons, hrest, listing, List.filter_append, hhere, List.nil_append]

theorem mem_listing {index : Nat} {ts : List RecordType} {e : Entry} :
    e ∈ p.listing rs index ts none ↔
      ∃ i t, ts[i]? = some t ∧ e.1 = index + i ∧ e.2 ∈ p.ofType rs t none := by
  induction ts generalizing index with
  | nil => simp [listing]
  | cons t ts ih =>
    rw [listing, List.mem_append, ih]
    constructor
    · rintro (he | ⟨i, u, hu, hi, he⟩)
      · obtain ⟨r, hr, rfl⟩ := List.mem_map.1 he
        exact ⟨0, t, rfl, rfl, hr⟩
      · exact ⟨i + 1, u, hu, by omega, he⟩
    · rintro ⟨i, u, hu, hi, he⟩
      cases i with
      | zero =>
        cases hu
        exact .inl (List.mem_map.2 ⟨e.2, he, Prod.ext hi.symm rfl⟩)
      | succ i => exact .inr ⟨i, u, hu, by omega, he⟩

end Pass

end Harvest
