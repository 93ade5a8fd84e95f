import Harvest.Proofs.Engine
import Harvest.Request
import Mathlib.Tactic.SplitIfs

/-!
# Requests that fit their verbs

Validation looks at the verb first and then at the arguments (`Request.validate_eq`).  What a
request that passes has to look like follows from what each of the two steps insists on
(`Request.validate_eq_ok_iff`).
-/

namespace Harvest

theorem Verb.ofName?_eq_some_iff {name : String} {v : Verb} :
    Verb.ofName? name = some v ↔ name = v.name := by
  constructor
  · intro h
    simpa [eq_comm] using List.find?_some h
  · rintro rfl
    cases v <;> rfl

theorem Verb.ofName_eq_ok_iff {name : String} {v : Verb} :
    Verb.ofName name = .ok v ↔ name = v.name := by
  rw [← ofName?_eq_some_iff]
  unfold ofName
  cases ofName? name <;> simp

namespace Request

variable {q : Request} {v : Verb} {a : Argument}

theorem mem_present_iff : a ∈ q.present ↔ a ≠ .verb ∧ (q.value? a).isSome := by
  have hall : a ∈ Argument.all := by cases a <;> decide
  simp [present, hall]

/-! ### Validation in two steps -/

/-- The verb of a request that has it once and means one of the six. -/
def verbOnce (q : Request) : Except Fault Verb :=
  if Argument.verb ∈ q.repeated then .error .repeatedVerb
  else
    match q.verb with
    | none => .error .missingVerb
    | some name => Verb.ofName name

/-- Insist that the arguments fit a verb. -/
def fit (q : Request) (v : Verb) : Except Fault Unit :=
  match q.repeated, q.unknown, q.present.find? (· ∉ v.allowed) with
  | a :: _, _, _ => .error (.repeatedArgument a.name)
  | [], name :: _, _ => .error (.illegalArgument name)
  | [], [], some a => .error (.argumentNotAllowed a.name v.name)
  | [], [], none => q.requireFor v

/-- The verb comes first, then the arguments. -/
theorem validate_eq (q : Request) :
    q.validate = q.verbOnce >>= fun v => (q.fit v).map fun _ => v := by
  unfold validate verbOnce
  by_cases hrepeated : Argument.verb ∈ q.repeated
  · simp [hrepeated]
  rw [if_neg hrepeated, if_neg hrepeated]
  cases q.verb with
  | none => rfl
  | some name =>
    cases hname : Verb.ofName name with
    | error f => simp [hname]
    | ok v =>
      simp only [hname, ok_bind, fit]
      cases q.repeated with
      | cons a as => rfl
      | nil =>
        cases q.unknown with
        | cons s ss => rfl
        | nil =>
          cases q.present.find? (· ∉ v.allowed) with
          | some a => rfl
          | none => cases q.requireFor v <;> simp [Except.map]

theorem verbOnce_eq_ok_iff :
    q.verbOnce = .ok v ↔ Argument.verb ∉ q.repeated ∧ q.verb = some v.name := by
  unfold verbOnce
  split_ifs with hrepeated
  · simp [hrepeated]
  · cases q.verb <;> simp [hrepeated, Verb.ofName_eq_ok_iff]

theorem fit_eq_ok_iff : q.fit v = .ok () ↔
    q.repeated = [] ∧ q.unknown = [] ∧ (∀ a ∈ q.present, a ∈ v.allowed) ∧
      q.requireFor v = .ok () := by
  have hallowed : q.present.find? (· ∉ v.allowed) = none ↔ ∀ a ∈ q.present, a ∈ v.allowed := by
    simp [List.find?_eq_none]
  rw [← hallowed, fit]
  cases q.repeated with
  | cons a as => simp
  | nil =>
    cases q.unknown with
    | cons name names => simp
    | nil => cases q.present.find? (· ∉ v.allowed) <;> simp

/-- The request names its verb, has nothing twice and nothing unknown, and has the arguments that
its verb allows and needs. -/
theorem validate_eq_ok_iff : q.validate = .ok v ↔
    q.verb = some v.name ∧ q.repeated = [] ∧ q.unknown = [] ∧ (∀ a ∈ q.present, a ∈ v.allowed) ∧
      q.requireFor v = .ok () := by
  rw [validate_eq, bind_eq_ok_iff]
  simp only [map_eq_ok_iff, verbOnce_eq_ok_iff]
  constructor
  · rintro ⟨u, ⟨-, hverb⟩, _, hfit, rfl⟩
    exact ⟨hverb, fit_eq_ok_iff.1 hfit⟩
  · rintro ⟨hverb, hfit⟩
    refine ⟨v, ⟨?_, hverb⟩, (), fit_eq_ok_iff.2 hfit, rfl⟩
    rw [hfit.1]
    exact List.not_mem_nil

theorem value?_eq_none (h : q.validate = .ok v) (ha : a ≠ .verb) (hnot : a ∉ v.allowed) :
    q.value? a = none := by
  obtain ⟨-, -, -, hallowed, -⟩ := validate_eq_ok_iff.1 h
  refine Option.not_isSome_iff_eq_none.1 fun hsome => ?_
  exact hnot (hallowed a (mem_present_iff.2 ⟨ha, hsome⟩))

end Request

end Harvest
