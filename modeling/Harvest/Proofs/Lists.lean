import Mathlib.Data.List.Perm.Subperm
import Mathlib.Tactic.SplitIfs

/-!
# Ordered lists

Facts about lists in the strict order of some relation `r`.  In such a list the elements at the
front are those that a test picks when the test is kept downwards, and the elements behind a
given one are those that come after it.
-/

namespace Harvest

variable {α β : Type} {r : α → α → Prop}

theorem takeWhile_eq_filter {p : α → Bool} {l : List α}
    (h : l.Pairwise fun a b => p b = true → p a = true) : l.takeWhile p = l.filter p := by
  induction l with
  | nil => rfl
  | cons a l ih =>
    obtain ⟨ha, hl⟩ := List.pairwise_cons.1 h
    by_cases hp : p a = true
    · rw [List.takeWhile_cons_of_pos hp, List.filter_cons_of_pos hp, ih hl]
    · -- the rest of the list fails the test as well
      rw [List.takeWhile_cons_of_neg hp, List.filter_cons_of_neg hp, eq_comm,
        List.filter_eq_nil_iff]
      exact fun b hb hpb => hp (ha b hb hpb)

theorem dropWhile_eq_filter {p : α → Bool} {l : List α}
    (h : l.Pairwise fun a b => p b = true → p a = true) :
    l.dropWhile p = l.filter fun a => !p a := by
  induction l with
  | nil => rfl
  | cons a l ih =>
    obtain ⟨ha, hl⟩ := List.pairwise_cons.1 h
    by_cases hp : p a = true
    · rw [List.dropWhile_cons_of_pos hp, List.filter_cons_of_neg (by simp [hp]), ih hl]
    · have hall : ∀ b ∈ a :: l, (!p b) = true := by
        intro b hb
        rcases List.mem_cons.1 hb with rfl | hb
        · simpa using hp
        · simpa using fun hpb => hp (ha b hb hpb)
      rw [List.dropWhile_cons_of_neg hp, List.filter_eq_self.2 hall]

theorem eq_or_rel_of_getLast? {l : List α} (h : l.Pairwise r) {a b : α} (ha : l.getLast? = some a)
    (hb : b ∈ l) : b = a ∨ r b a := by
  obtain ⟨front, rfl⟩ := List.getLast?_eq_some_iff.1 ha
  rcases List.mem_append.1 hb with hb | hb
  · exact .inr ((List.pairwise_append.1 h).2.2 b hb a List.mem_cons_self)
  · exact .inl (List.mem_singleton.1 hb)

/-- Behind the `n`-th element of an ordered list stand those that come after it. -/
theorem filter_eq_drop [DecidableRel r] (hr : ∀ a b, r a b → ¬ r b a)
    {l : List α} (h : l.Pairwise r) {n : Nat} {a : α} (ha : (l.take n).getLast? = some a) :
    l.filter (fun b => decide (r a b)) = l.drop n := by
  have hmem : a ∈ l.take n := List.mem_of_getLast? ha
  have hfront : (l.take n).filter (fun b => decide (r a b)) = [] := by
    rw [List.filter_eq_nil_iff]
    intro b hb hab
    have hab : r a b := of_decide_eq_true hab
    obtain rfl | hba := eq_or_rel_of_getLast? h.take ha hb
    · exact hr b b hab hab
    · exact hr b a hba hab
  have hback : (l.drop n).filter (fun b => decide (r a b)) = l.drop n := by
    rw [List.filter_eq_self]
    intro b hb
    rw [← List.take_append_drop n l] at h
    exact decide_eq_true ((List.pairwise_append.1 h).2.2 a hmem b hb)
  calc l.filter (fun b => decide (r a b))
      = (l.take n ++ l.drop n).filter (fun b => decide (r a b)) := by rw [List.take_append_drop]
    _ = l.drop n := by rw [List.filter_append, hfront, hback, List.nil_append]

theorem eq_of_pairwise_of_mem (hr : ∀ a b, r a b → ¬ r b a) {l m : List α}
    (hl : l.Pairwise r) (hm : m.Pairwise r) (h : ∀ a, a ∈ l ↔ a ∈ m) : l = m := by
  have hnodup : ∀ {k : List α}, k.Pairwise r → k.Nodup := fun hk =>
    hk.imp fun {a b} hab => by
      rintro rfl
      exact hr a a hab hab
  have hperm : l.Perm m := (List.perm_ext_iff_of_nodup (hnodup hl) (hnodup hm)).2 h
  exact hperm.eq_of_pairwise (fun a b _ _ hab hba => absurd hba (hr a b hab)) hl hm

theorem eq_toList_of_nodup {l : List α} {o : Option α} (hl : l.Nodup)
    (h : ∀ a, a ∈ l ↔ o = some a) : l = o.toList := by
  cases o with
  | none => exact List.eq_nil_iff_forall_not_mem.2 fun a ha => by cases (h a).1 ha
  | some a =>
    have hperm : l.Perm [a] := (List.perm_ext_iff_of_nodup hl (List.pairwise_singleton _ _)).2
      fun b => by rw [h, List.mem_singleton, Option.some.injEq, eq_comm]
    exact List.perm_singleton.1 hperm

end Harvest
