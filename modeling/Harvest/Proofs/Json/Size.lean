import Harvest.Json.Raw
import Mathlib.Tactic.SplitIfs

/-!
# How long JSON texts are

A text has a character for each of its lexemes (`Json.length_lexemes?_le`), and a lexeme for each
part of the tree that it spells: brackets and commas, and around every member of an object its key
and a colon (`Json.width_ofText?_le`).  Both are invariants of a machine that goes through its input
step by step; a step takes one more piece of the input and adds at most that much to what is held.
-/

namespace Harvest.Json

/-! ### Lexemes -/

/-- The lexemes a scanner has found, with the one that it is in. -/
def Scanner.size (s : Scanner) : Nat := s.found.length + if s.place = .gap then 0 else 1

theorem size_start?_le {found : List Lexeme} {c : Char} {s : Scanner}
    (h : start? found c = some s) : s.size ≤ found.length + 1 := by
  unfold start? at h
  split_ifs at h
  · cases h
    simp [Scanner.size]
  · cases h
    simp [Scanner.size]
  · cases h
    simp [Scanner.size]
  · obtain ⟨m, -, rfl⟩ := Option.map_eq_some_iff.1 h
    simp [Scanner.size]

theorem Scanner.size_step_le {s s' : Scanner} {c : Char} (h : s.step c = some s') :
    s'.size ≤ s.size + 1 := by
  obtain ⟨place, found⟩ := s
  cases place with
  | gap => exact size_start?_le h
  | word cs =>
    simp only [step] at h
    split_ifs at h
    · cases h
      simp [size]
    · obtain ⟨l, -, hstart⟩ := Option.bind_eq_some_iff.1 h
      have hle := size_start?_le hstart
      simpa [size] using hle
  | text us =>
    simp only [step] at h
    split_ifs at h <;> cases h <;> simp [size]
  | escape us =>
    simp only [step] at h
    split_ifs at h
    · cases h
      simp [size]
    · obtain ⟨u, -, rfl⟩ := Option.map_eq_some_iff.1 h
      simp [size]
  | hex us left value =>
    obtain ⟨d, -, hd⟩ := Option.bind_eq_some_iff.1 h
    simp only at hd
    split_ifs at hd <;> cases hd <;> simp [size]

theorem Scanner.size_run_le {cs : List Char} {s s' : Scanner} (h : s.run cs = some s') :
    s'.size ≤ s.size + cs.length := by
  induction cs generalizing s with
  | nil =>
    cases h
    exact Nat.le_refl _
  | cons c cs ih =>
    rw [run] at h
    cases hstep : s.step c with
    | none =>
      rw [hstep] at h
      cases h
    | some t =>
      rw [hstep] at h
      have hrun := ih h
      have hle := size_step_le hstep
      rw [List.length_cons]
      omega

theorem Scanner.length_finish {s : Scanner} {ls : List Lexeme} (h : s.finish = some ls) :
    ls.length = s.size := by
  obtain ⟨place, found⟩ := s
  cases place with
  | gap =>
    cases h
    simp [size]
  | word cs =>
    obtain ⟨l, -, hl⟩ := Option.bind_eq_some_iff.1 h
    cases hl
    simp [size]
  | text us => cases h
  | escape us => cases h
  | hex us left value => cases h

/-- **A text has no more lexemes than characters.** -/
theorem length_lexemes?_le {cs : List Char} {ls : List Lexeme} (h : lexemes? cs = some ls) :
    ls.length ≤ cs.length := by
  unfold lexemes? at h
  cases hrun : ({} : Scanner).run cs with
  | none =>
    rw [hrun] at h
    cases h
  | some s =>
    rw [hrun] at h
    rw [Scanner.length_finish h]
    have hle := Scanner.size_run_le hrun
    simpa [Scanner.size] using hle

/-! ### Trees -/

/-- How many lexemes a value takes at least, looked at from outside: a list has brackets and
commas, and an object keys and colons as well. -/
def Raw.width : Raw → Nat
  | .list items => 2 * items.length + 1
  | .object members => 4 * members.length + 1
  | _ => 1

/-- How many lexemes an open list or object has taken once the next value is due. -/
def Frame.width : Frame → Nat
  | .list items => 2 * items.length + 1
  | .object members => 4 * members.length + 1
  | .member members _ => 4 * members.length + 3

/-- Whether a lexeme is missing before the next value or key is due. -/
def Want.missing : Want → Nat
  | .colon => 1
  | .separator => 1
  | _ => 0

/-- The lexemes that all open lists and objects have taken. -/
def framesWidth : List Frame → Nat
  | [] => 0
  | f :: fs => f.width + framesWidth fs

namespace Reader

/-- What a reader holds is accounted for by the `n` lexemes it has taken. -/
def Within (n : Nat) : Reader → Prop
  | .reading frames want => framesWidth frames ≤ n + want.missing
  | .done v => v.width ≤ n

variable {n : Nat} {r r' : Reader} {frames : List Frame} {l : Lexeme} {v : Raw}

/-- A finished value adds a comma, or a key and a colon as well, to what is open. -/
theorem Within.put (h : framesWidth frames ≤ n) (hv : v.width ≤ n + 1)
    (hput : Reader.put v frames = some r) : r.Within (n + 1) := by
  obtain _ | ⟨f, fs⟩ := frames
  · cases hput
    exact hv
  rw [framesWidth] at h
  cases f with
  | list items =>
    cases hput
    rw [Frame.width] at h
    rw [Within, framesWidth, Frame.width, List.length_cons, Want.missing]
    omega
  | object members => cases hput
  | member members key =>
    cases hput
    rw [Frame.width] at h
    rw [Within, framesWidth, Frame.width, List.length_cons, Want.missing]
    omega

theorem Within.value (h : framesWidth frames ≤ n) (hvalue : Reader.value frames l = some r) :
    r.Within (n + 1) := by
  have hscalar : ∀ v : Raw, v.width = 1 → Reader.put v frames = some r → r.Within (n + 1) :=
    fun v hv hput => .put h (by omega) hput
  have hopen : ∀ f : Frame, ∀ want, f.width = 1 →
      (Reader.reading (f :: frames) want).Within (n + 1) := fun f want hf => by
    rw [Within, framesWidth, hf]
    omega
  cases l with
  | null => exact hscalar _ rfl hvalue
  | bool b => exact hscalar _ rfl hvalue
  | number m => exact hscalar _ rfl hvalue
  | text s => exact hscalar _ rfl hvalue
  | openList =>
    cases hvalue
    exact hopen _ _ rfl
  | openObject =>
    cases hvalue
    exact hopen _ _ rfl
  | closeList => cases hvalue
  | closeObject => cases hvalue
  | colon => cases hvalue
  | comma => cases hvalue

theorem Within.key (h : framesWidth frames ≤ n) (hkey : Reader.key frames l = some r) :
    r.Within (n + 1) := by
  unfold Reader.key at hkey
  split at hkey
  · cases hkey
    rw [framesWidth, Frame.width] at h
    rw [Within, framesWidth, Frame.width, Want.missing]
    omega
  · cases hkey

theorem Within.close (h : framesWidth frames ≤ n + 1) (hclose : Reader.close frames l = some r) :
    r.Within (n + 1) := by
  unfold Reader.close at hclose
  split at hclose
  · rw [framesWidth, Frame.width] at h
    refine .put (by omega) ?_ hclose
    rw [Raw.width, List.length_reverse]
    omega
  · rw [framesWidth, Frame.width] at h
    refine .put (by omega) ?_ hclose
    rw [Raw.width, List.length_reverse]
    omega
  · cases hclose

/-- One more lexeme accounts for all that a step adds. -/
theorem Within.step (h : r.Within n) (hstep : r.step l = some r') : r'.Within (n + 1) := by
  cases r with
  | done v => cases hstep
  | reading frames want =>
    cases want with
    | value => exact .value h hstep
    | item =>
      simp only [Reader.step] at hstep
      split_ifs at hstep
      · exact .close (Nat.le_succ_of_le h) hstep
      · exact .value h hstep
    | member =>
      simp only [Reader.step] at hstep
      split_ifs at hstep
      · exact .close (Nat.le_succ_of_le h) hstep
      · exact .key h hstep
    | key => exact .key h hstep
    | colon =>
      simp only [Reader.step] at hstep
      split_ifs at hstep
      cases hstep
      exact h
    | separator =>
      simp only [Reader.step] at hstep
      split_ifs at hstep
      · split at hstep <;> cases hstep <;> exact h
      · exact .close h hstep

theorem Within.run {ls : List Lexeme} (h : r.Within n) (hrun : r.run ls = some r') :
    r'.Within (n + ls.length) := by
  induction ls generalizing n r with
  | nil =>
    cases hrun
    exact h
  | cons l ls ih =>
    rw [Reader.run] at hrun
    cases hstep : r.step l with
    | none =>
      rw [hstep] at hrun
      cases hrun
    | some t =>
      rw [hstep] at hrun
      rw [List.length_cons, Nat.add_comm ls.length, ← Nat.add_assoc]
      exact ih (h.step hstep) hrun

end Reader

/-- **A text has a character for every bracket, comma, key and colon of its tree.** -/
theorem width_ofText?_le {s : String} {v : Raw} (h : Raw.ofText? s = some v) :
    v.width ≤ s.toList.length := by
  unfold Raw.ofText? at h
  cases hls : lexemes? s.toList with
  | none =>
    rw [hls] at h
    cases h
  | some ls =>
    rw [hls] at h
    simp only [Raw.ofLexemes?] at h
    cases hrun : (Reader.reading [] .value).run ls with
    | none =>
      rw [hrun] at h
      cases h
    | some r =>
      rw [hrun] at h
      have hstart : (Reader.reading [] .value).Within 0 := Nat.le_refl 0
      have hwithin := hstart.run hrun
      rw [Nat.zero_add] at hwithin
      cases r with
      | reading frames want => cases h
      | done w =>
        cases h
        exact Nat.le_trans hwithin (length_lexemes?_le hls)

end Harvest.Json
