import Harvest.Proofs.Store.History
import Mathlib.Tactic.ByContra

/-!
# A store is a map from URIs to records

A store keeps its records twice over, on the shelf and in the catalogue.  To whoever calls it, it is
nothing but a map from URIs to records (`RecordMap`), in which no two URIs may have one type,
modification time and number.

One call of the store is one call of the map: they give the same answer, and what the store looks up
afterwards is what the map holds (`Store.Represents.write`).  By induction the same goes for every
history of calls (`Store.Represents.writes`), and reading the store is reading the map
(`Store.behaves_as_map`).
-/

namespace Harvest

/-- Records under their URIs. -/
abbrev RecordMap : Type := String → Option Record

namespace RecordMap

/-- The map with no records. -/
def empty : RecordMap := fun _ => none

/-- Another URI has a record with the type, modification time and number of a given one. -/
def Taken (m : RecordMap) (uri : String) (r : Record) : Prop :=
  ∃ other x, m other = some x ∧ other ≠ uri ∧
    x.recordType = r.recordType ∧ x.modified = r.modified ∧ x.id = r.id

/-- Give a URI a record; the record of no other one changes. -/
def update (m : RecordMap) (uri : String) (r : Record) : RecordMap :=
  fun u => if u = uri then some r else m u

open Classical in
/-- Give a URI a record, unless that is taken. -/
noncomputable def put (m : RecordMap) (uri : String) (r : Record) :
    Except Fault.Kind Bool × RecordMap :=
  if m.Taken uri r then (.error .store, m) else (.ok true, m.update uri r)

/-- Change the record of a URI, if it has one. -/
noncomputable def modify (m : RecordMap) (uri : String) (change : Record → Record) :
    Except Fault.Kind Bool × RecordMap :=
  match m uri with
  | none => (.ok false, m)
  | some r => m.put uri (change r)

/-- The answer of a map to a call, and the map after it. -/
noncomputable def write (m : RecordMap) : Write → Except Fault.Kind Bool × RecordMap
  | .upsert r => m.put r.uri r
  | .setPublish uri publish time => m.modify uri fun r => { r with publish, modified := time }
  | .setSuppressed uri suppressed time =>
    m.modify uri fun r => { r with suppressed, modified := time }
  | .delete uri time => m.modify uri fun r => { r.tombstone with modified := time }

/-- The map after some calls. -/
noncomputable def writes (m : RecordMap) (ws : List Write) : RecordMap :=
  ws.foldl (fun m w => (m.write w).2) m

/-- An ancestor as the map has it: one with a record is published if that is, and not deleted. -/
def resolve (m : RecordMap) (a : Ancestor) : Ancestor :=
  { a with publish := ((m a.uri).map fun x => x.publish && !x.deleted).getD a.publish }

/-- The record of a URI, with its ancestors as the map has them. -/
def get (m : RecordMap) (uri : String) : Option Record :=
  (m uri).map fun r => { r with ancestors := r.ancestors.map m.resolve }

/-- So many URIs have a record. -/
def HasSize (m : RecordMap) (n : Nat) : Prop :=
  ∃ uris : List String, uris.Nodup ∧ (∀ uri, uri ∈ uris ↔ (m uri).isSome) ∧ uris.length = n

/-- The least modification time of a record; there is none exactly if there are no records. -/
def HasEarliest (m : RecordMap) : Option Instant → Prop
  | none => ∀ uri, m uri = none
  | some t => (∃ uri x, m uri = some x ∧ x.modified = t) ∧
      ∀ uri x, m uri = some x → t ≤ x.modified

end RecordMap

namespace Store

/-- What a call is answered with: the kind of a fault, or whether there was a record to write. -/
def reply (s : Store) (w : Write) : Except Fault.Kind Bool :=
  match s.write? w with
  | .error f => .error f.kind
  | .ok s' => .ok s'.isSome

/-- A store represents a map: it is well formed, and looks up what the map holds. -/
structure Represents (s : Store) (m : RecordMap) : Prop where
  wellFormed : s.WellFormed
  lookup : ∀ uri, s.lookup uri = m uri

variable {s s' : Store} {m : RecordMap} {r : Record} {f : Fault}

theorem represents_empty : empty.Represents .empty := ⟨WellFormed.empty, fun _ => rfl⟩

/-! ### One call -/

theorem kind_of_put (h : s.put r = .error f) : f.kind = .store := by
  rw [put_eq] at h
  split at h
  · cases h
    rfl
  · cases h

theorem Represents.taken_iff (h : s.Represents m) :
    m.Taken r.uri r ↔ ¬ ∀ x ∈ s.shelf, x.place = r.place → x.uri = r.uri := by
  simp only [RecordMap.Taken, ← h.lookup, lookup_eq_some_iff h.wellFormed]
  constructor
  · rintro ⟨other, x, ⟨hx, rfl⟩, hne, htype, hmodified, hid⟩ hfree
    exact hne (hfree x hx (by simp [Record.place, Record.cursor, htype, hmodified, hid]))
  · intro hnot
    by_contra hnone
    refine hnot fun x hx hplace => ?_
    by_contra hne
    simp only [Record.place, Record.cursor, Place.mk.injEq, Cursor.mk.injEq] at hplace
    exact hnone ⟨x.uri, x, ⟨hx, rfl⟩, hne, hplace⟩

/-- A write fails exactly when the place is taken, and else gives the URI its record. -/
theorem Represents.put_cases (h : s.Represents m) (r : Record) :
    (m.Taken r.uri r ∧ ∃ f, s.put r = .error f) ∨
      ¬ m.Taken r.uri r ∧ ∃ s', s.put r = .ok s' ∧ s'.Represents (m.update r.uri r) := by
  rw [h.taken_iff]
  cases hput : s.put r with
  | error f =>
    refine .inl ⟨fun hfree => ?_, f, rfl⟩
    rw [(put_eq_ok_iff h.wellFormed).2 ⟨hfree, rfl⟩] at hput
    cases hput
  | ok s' =>
    refine .inr ⟨not_not_intro ((put_eq_ok_iff h.wellFormed).1 hput).1, s', rfl, ?_⟩
    refine ⟨h.wellFormed.put hput, fun uri => ?_⟩
    rw [lookup_put h.wellFormed hput, RecordMap.update, h.lookup]

theorem Represents.write_eq (h : s.Represents m) (w : Write) : m.write w =
    match w.record? s with
    | none => (.ok false, m)
    | some r => m.put w.target r := by
  have hmodify : ∀ uri change, m.modify uri change =
      match (s.lookup uri).map change with
      | none => (.ok false, m)
      | some r => m.put uri r := by
    intro uri change
    rw [RecordMap.modify, h.lookup]
    cases m uri <;> rfl
  cases w with
  | upsert r => rfl
  | setPublish uri publish time => exact hmodify uri _
  | setSuppressed uri suppressed time => exact hmodify uri _
  | delete uri time => exact hmodify uri _

/-- **A call of the store is a call of the map.** -/
theorem Represents.write (h : s.Represents m) (w : Write) :
    s.reply w = (m.write w).1 ∧ (s.write w).Represents (m.write w).2 := by
  rw [h.write_eq w, reply, Store.write, write?_eq]
  cases hr : w.record? s with
  | none => exact ⟨rfl, h⟩
  | some r =>
    rw [← uri_of_record? h.wellFormed hr]
    obtain ⟨htaken, f, hput⟩ | ⟨hfree, s', hput, hs'⟩ := h.put_cases r
    · simp only [hput, Except.map, RecordMap.put, if_pos htaken, kind_of_put hput, true_and]
      exact h
    · simp only [hput, Except.map, RecordMap.put, if_neg hfree, Option.isSome_some, true_and]
      exact hs'

/-! ### Histories -/

/-- **A history of calls of the store is one of the map.** -/
theorem Represents.writes (h : s.Represents m) (ws : List Write) :
    (s.writes ws).Represents (m.writes ws) := by
  induction ws generalizing s m with
  | nil => exact h
  | cons w ws ih => exact ih (h.write w).2

/-- The first write that fails ends the writing of records. -/
theorem foldlM_put_eq_error_iff {rs : List Record} : rs.foldlM Store.put s = .error f ↔
    ∃ front r back s', rs = front ++ r :: back ∧ front.foldlM Store.put s = .ok s' ∧
      s'.put r = .error f := by
  induction rs generalizing s with
  | nil =>
    constructor
    · rintro ⟨⟩
    · rintro ⟨front, r, back, s', hrs, -⟩
      exact absurd hrs (by simp)
  | cons r rs ih =>
    rw [List.foldlM_cons]
    cases hput : s.put r with
    | error g =>
      rw [error_bind, Except.error.injEq]
      constructor
      · rintro rfl
        exact ⟨[], r, rs, s, rfl, rfl, hput⟩
      · rintro ⟨front, r', back, s', hrs, hfront, hfail⟩
        cases front with
        | nil =>
          obtain ⟨rfl, rfl⟩ := List.cons.inj hrs
          cases hfront
          rw [hput] at hfail
          exact Except.error.inj hfail
        | cons x front =>
          obtain ⟨rfl, rfl⟩ := List.cons.inj hrs
          rw [List.foldlM_cons, hput] at hfront
          cases hfront
    | ok t =>
      rw [ok_bind, ih]
      constructor
      · rintro ⟨front, r', back, s', rfl, hfront, hfail⟩
        exact ⟨r :: front, r', back, s', rfl, by rw [List.foldlM_cons, hput]; exact hfront, hfail⟩
      · rintro ⟨front, r', back, s', hrs, hfront, hfail⟩
        cases front with
        | nil =>
          obtain ⟨rfl, rfl⟩ := List.cons.inj hrs
          cases hfront
          rw [hput] at hfail
          cases hfail
        | cons x front =>
          obtain ⟨rfl, rfl⟩ := List.cons.inj hrs
          rw [List.foldlM_cons, hput] at hfront
          exact ⟨front, r', back, s', rfl, hfront, hfail⟩

/-! ### Reading -/

theorem Represents.hasSize (h : s.Represents m) : m.HasSize s.size := by
  refine ⟨s.shelf.map Record.uri, ?_, fun uri => ?_, List.length_map _⟩
  · -- two places with one URI would hold one record
    refine List.pairwise_map.2 (h.wellFormed.shelved.imp_of_mem fun {a b} ha hb hab huri => ?_)
    rw [h.wellFormed.eq_of_uri ha hb huri] at hab
    exact lt_irrefl _ (Place.before_iff_lt.1 hab)
  · rw [← h.lookup, Option.isSome_iff_exists]
    simp only [lookup_eq_some_iff h.wellFormed, List.mem_map]

theorem Represents.view (h : s.Represents m) (r : Record) :
    s.view r = { r with ancestors := r.ancestors.map m.resolve } := by
  have hcurrent : s.current = m.resolve := by
    funext a
    rw [current, RecordMap.resolve, h.lookup]
    cases m a.uri <;> rfl
  rw [Store.view, hcurrent]

theorem Represents.get (h : s.Represents m) (uri : String) : s.get uri = m.get uri := by
  rw [Store.get, RecordMap.get, h.lookup, funext h.view]

theorem exists_foldl_earlier (l : List Record) (t : Instant) :
    ∃ u, l.foldl earlier (some t) = some u ∧ (u = t ∨ ∃ x ∈ l, x.modified = u) ∧ u ≤ t ∧
      ∀ x ∈ l, u ≤ x.modified := by
  induction l generalizing t with
  | nil => exact ⟨t, rfl, .inl rfl, le_refl _, by simp⟩
  | cons r l ih =>
    obtain ⟨u, hu, hin, hle, hleast⟩ := ih (if r.modified < t then r.modified else t)
    refine ⟨u, hu, ?_⟩
    simp only [List.mem_cons, exists_eq_or_imp, forall_eq_or_imp]
    split_ifs at hin hle with hlt
    · exact ⟨.inr (hin.imp_left Eq.symm), le_trans hle (le_of_lt hlt), hle, hleast⟩
    · exact ⟨hin.imp_right .inr, hle, le_trans hle (not_lt.1 hlt), hleast⟩

theorem earliest_cases (s : Store) : s.shelf = [] ∧ s.earliest = none ∨
    ∃ x ∈ s.shelf, s.earliest = some x.modified ∧ ∀ y ∈ s.shelf, x.modified ≤ y.modified := by
  rw [earliest]
  cases s.shelf with
  | nil => exact .inl ⟨rfl, rfl⟩
  | cons r l =>
    obtain ⟨u, hu, hin, hle, hleast⟩ := exists_foldl_earlier l r.modified
    have hfold : (r :: l).foldl earlier none = some u := hu
    rw [hfold]
    obtain rfl | ⟨x, hx, rfl⟩ := hin
    · exact .inr ⟨r, List.mem_cons_self, rfl, List.forall_mem_cons.2 ⟨hle, hleast⟩⟩
    · exact .inr ⟨x, List.mem_cons_of_mem _ hx, rfl, List.forall_mem_cons.2 ⟨hle, hleast⟩⟩

theorem Represents.hasEarliest (h : s.Represents m) : m.HasEarliest s.earliest := by
  have hmem : ∀ uri x, m uri = some x ↔ x ∈ s.shelf ∧ x.uri = uri := fun uri x => by
    rw [← h.lookup, lookup_eq_some_iff h.wellFormed]
  obtain ⟨hempty, hnone⟩ | ⟨x, hx, hearliest, hleast⟩ := s.earliest_cases
  · rw [hnone]
    intro uri
    rw [Option.eq_none_iff_forall_ne_some]
    intro x hx
    have hin := ((hmem uri x).1 hx).1
    rw [hempty] at hin
    cases hin
  · rw [hearliest]
    exact ⟨⟨x.uri, x, (hmem _ _).2 ⟨hx, rfl⟩, rfl⟩,
      fun uri y hy => hleast y ((hmem uri y).1 hy).1⟩

/-- **A store behaves as a map from URIs to records.**  After any history of calls, shelf and
catalogue hold the same records; the next call is answered as the map answers it; and what is read
is what the map says.  A store that is made of records is one to which they are written in turn. -/
theorem behaves_as_map :
    (∀ ws : List Write,
      let s := empty.writes ws
      let m := RecordMap.empty.writes ws
      ((∀ uri p, s.catalogue.find? uri = some p ↔ ∃ r ∈ s.shelf, r.uri = uri ∧ r.place = p) ∧
        s.shelf.Pairwise (fun a b => a.uri ≠ b.uri ∧ a.place ≠ b.place)) ∧
      (∀ w, s.reply w = (m.write w).1) ∧
      (∀ uri, s.lookup uri = m uri) ∧ (∀ uri, s.get uri = m.get uri) ∧
      m.HasSize s.size ∧ m.HasEarliest s.earliest) ∧
    ∀ rs : List Record,
      (∀ s, ofRecords rs = .ok s → s = empty.writes (rs.map .upsert)) ∧
      ∀ f, ofRecords rs = .error f ↔ ∃ front r back s, rs = front ++ r :: back ∧
        ofRecords front = .ok s ∧ s.write? (.upsert r) = .error f := by
  refine ⟨fun ws => ?_, fun rs => ⟨fun s hs => eq_writes_of_foldlM hs, fun f => ?_⟩⟩
  · have h := represents_empty.writes ws
    refine ⟨⟨h.wellFormed.catalogued, ?_⟩, fun w => (h.write w).1, h.lookup, h.get, h.hasSize,
      h.hasEarliest⟩
    refine h.wellFormed.shelved.imp_of_mem fun {a b} ha hb hab => ⟨fun huri => ?_, ?_⟩
    · rw [h.wellFormed.eq_of_uri ha hb huri] at hab
      exact lt_irrefl _ (Place.before_iff_lt.1 hab)
    · exact Place.ne_of_before hab
  · have hwrite : ∀ (s : Store) (r : Record), s.write? (.upsert r) = .error f ↔
        s.put r = .error f := by
      intro s r
      rw [write?]
      cases s.put r <;> simp [Except.map]
    simp only [hwrite]
    exact foldlM_put_eq_error_iff

end Store

end Harvest
