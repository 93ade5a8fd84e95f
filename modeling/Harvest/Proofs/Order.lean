import Mathlib.Data.Prod.Lex
import Mathlib.Order.Basic
import Harvest.Store

/-!
# Orders

Instants and cursors are ordered as their ranks are, and so linearly; a question about two of them
is one about natural numbers (`Instant.lt_iff_rank_lt`, `Cursor.lt_iff_rank_lt`).  Places on the
shelf are ordered by type and cursor.

A *spot* is a place in a listing: the place of a record type among those of the format, and a
cursor.  Listings come in the order of their spots.
-/

namespace Harvest

/-- The linear order in which values come as their ranks do. -/
abbrev linearOrderOfRank {α : Type} [LE α] [LT α] [DecidableLE α] [DecidableLT α] [DecidableEq α]
    (rank : α → ℕ) (hrank : Function.Injective rank) (hle : ∀ a b, a ≤ b ↔ rank a ≤ rank b)
    (hlt : ∀ a b, a < b ↔ rank a < rank b) : LinearOrder α where
  le_refl a := (hle a a).2 (Nat.le_refl _)
  le_trans a b c h h' := (hle a c).2 (Nat.le_trans ((hle a b).1 h) ((hle b c).1 h'))
  lt_iff_le_not_ge a b := by
    rw [hlt, hle, hle]
    omega
  le_antisymm a b h h' := hrank (Nat.le_antisymm ((hle a b).1 h) ((hle b a).1 h'))
  le_total a b := by
    rw [hle, hle]
    exact Nat.le_total _ _
  toDecidableLE := inferInstance
  toDecidableLT := inferInstance
  toDecidableEq := inferInstance

namespace Instant

theorem le_iff_rank_le {s t : Instant} : s ≤ t ↔ s.rank ≤ t.rank := by
  have hs := s.nanos_lt
  have hs' := s.min_le
  have ht := t.nanos_lt
  have ht' := t.min_le
  rw [le_def]
  simp only [rank, nanosPerSecond] at *
  omega

theorem rank_injective : Function.Injective rank := by
  intro s t h
  have hs := s.nanos_lt
  have hs' := s.min_le
  have ht := t.nanos_lt
  have ht' := t.min_le
  simp only [rank, nanosPerSecond] at *
  exact Instant.ext (by omega) (by omega)

instance : LinearOrder Instant :=
  linearOrderOfRank rank rank_injective (fun _ _ => le_iff_rank_le) fun _ _ => lt_iff_rank_lt

end Instant

namespace Cursor

theorem rank_injective : Function.Injective rank := by
  intro a b h
  have ha := a.id.toNat_lt
  have hb := b.id.toNat_lt
  simp only [rank] at h
  exact Cursor.ext (Instant.rank_injective (by omega)) (UInt64.toNat_inj.1 (by omega))

theorem lt_iff_rank_lt {a b : Cursor} : a < b ↔ a.rank < b.rank := by
  have ha := a.id.toNat_lt
  have hb := b.id.toNat_lt
  rw [lt_def, Instant.lt_iff_rank_lt, ← Instant.rank_injective.eq_iff, UInt64.lt_iff_toNat_lt]
  simp only [rank]
  omega

instance : LE Cursor := ⟨fun a b => a.rank ≤ b.rank⟩

instance (a b : Cursor) : Decidable (a ≤ b) := inferInstanceAs (Decidable (a.rank ≤ b.rank))

instance : LinearOrder Cursor :=
  linearOrderOfRank rank rank_injective (fun _ _ => Iff.rfl) fun _ _ => lt_iff_rank_lt

theorem modified_le {a b : Cursor} (h : a < b) : a.modified ≤ b.modified :=
  h.elim le_of_lt fun h => le_of_eq h.1

/-- Fewer cursors are left exactly behind a later place. -/
theorem remaining_lt_iff {place place' : Option Cursor} :
    remaining place' < remaining place ↔
      ∃ a, place' = some a ∧ ∀ b, place = some b → b < a := by
  constructor
  · intro h
    cases place' with
    | none =>
      cases place <;> simp only [remaining] at h <;> omega
    | some a =>
      refine ⟨a, rfl, ?_⟩
      rintro b rfl
      rw [lt_iff_rank_lt]
      simp only [remaining] at h
      omega
  · rintro ⟨a, rfl, h⟩
    exact remaining_lt h

end Cursor

theorem RecordType.index_inj {t u : RecordType} : t.index = u.index ↔ t = u := by
  cases t <;> cases u <;> simp [index]

namespace Place

/-- Type and cursor, the type first. -/
def key (p : Place) : ℕ ×ₗ Cursor := toLex (p.recordType.index, p.cursor)

theorem key_injective : Function.Injective key := by
  intro p q h
  obtain ⟨hindex, hcursor⟩ := Prod.ext_iff.1 (toLex.injective h)
  exact Place.ext (RecordType.index_inj.1 hindex) hcursor

instance : LinearOrder Place := LinearOrder.lift' key key_injective

theorem before_iff {p q : Place} : p.before q ↔
    p.recordType.index < q.recordType.index ∨
      p.recordType = q.recordType ∧ p.cursor < q.cursor := by
  simp [before]

theorem before_iff_lt {p q : Place} : p.before q ↔ p < q := by
  rw [before_iff, ← RecordType.index_inj]
  exact (Prod.Lex.lt_iff (x := p.key) (y := q.key)).symm

theorem ne_of_before {p q : Place} (h : p.before q) : p ≠ q := (before_iff_lt.1 h).ne

end Place

/-! ### Spots -/

/-- A place in a listing: the place of a type in the listing's order, and a cursor. -/
@[ext]
structure Spot where
  index : Nat
  cursor : Cursor
  deriving DecidableEq

namespace Spot

/-- Types decide, then cursors. -/
def key (a : Spot) : ℕ ×ₗ Cursor := toLex (a.index, a.cursor)

theorem key_injective : Function.Injective key := by
  intro a b h
  obtain ⟨hindex, hcursor⟩ := Prod.ext_iff.1 (toLex.injective h)
  exact Spot.ext hindex hcursor

instance : LinearOrder Spot := LinearOrder.lift' key key_injective

theorem lt_def {a b : Spot} :
    a < b ↔ a.index < b.index ∨ a.index = b.index ∧ a.cursor < b.cursor :=
  Prod.Lex.lt_iff (x := a.key) (y := b.key)

instance (a b : Spot) : Decidable (a < b) := decidable_of_iff _ lt_def.symm

end Spot

end Harvest
