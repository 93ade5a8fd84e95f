import Harvest.Fault

/-!
# Computations over a source

Answering a request reads a source, may fail, and leaves a log.  `Engine σ α` is such a
computation over a source with states in `σ`: it takes the source's state and gives a `Reply`
with the result, the state afterwards and the lines that were logged, also when it fails.
`Engine.run_bind` says what one computation after another does.
-/

namespace Harvest

/-- How important a line of the log is. -/
inductive LogLevel where
  | error
  | warning
  | debug
  | trace
  deriving DecidableEq, Repr

/-- A line of the log. -/
structure LogLine where
  level : LogLevel
  text : String
  deriving DecidableEq, Repr

/-- What a computation leaves: its result, the state of the source, and the log. -/
structure Reply (σ α : Type) where
  result : Except Fault α
  state : σ
  log : List LogLine

/-- A computation over a source with states in `σ`. -/
def Engine (σ α : Type) : Type := σ → Reply σ α

namespace Engine

variable {σ α β : Type}

/-- Run a computation from a state. -/
def run (m : Engine σ α) (s : σ) : Reply σ α := m s

/-- Give a value and do nothing. -/
def value (a : α) : Engine σ α := fun s => ⟨.ok a, s, []⟩

/-- Go on with the result of a computation, unless it failed. -/
def andThen (m : Engine σ α) (f : α → Engine σ β) : Engine σ β := fun s =>
  match m s with
  | ⟨.ok a, s', log⟩ =>
    let r := f a s'
    ⟨r.result, r.state, log ++ r.log⟩
  | ⟨.error e, s', log⟩ => ⟨.error e, s', log⟩

instance : Monad (Engine σ) where
  pure := value
  bind := andThen

/-- Fail. -/
def fail (f : Fault) : Engine σ α := fun s => ⟨.error f, s, []⟩

/-- A result that is already there. -/
def ofExcept : Except Fault α → Engine σ α
  | .ok a => value a
  | .error f => fail f

/-- Log some lines. -/
def tell (lines : List LogLine) : Engine σ Unit := fun s => ⟨.ok (), s, lines⟩

/-- Log a line. -/
def note (level : LogLevel) (text : String) : Engine σ Unit := tell [⟨level, text⟩]

/-- Ask the source. -/
def ask (question : σ → Except Fault α × σ) : Engine σ α := fun s =>
  let (result, s') := question s
  ⟨result, s', []⟩

/-- Look at how a computation ends; this never fails. -/
def attempt (m : Engine σ α) : Engine σ (Except Fault α) := fun s =>
  let r := m s
  ⟨.ok r.result, r.state, r.log⟩

/-- The second computation goes on from the state of the first one and adds to its log; a fault of
the first one ends both. -/
theorem run_bind (m : Engine σ α) (f : α → Engine σ β) (s : σ) :
    (m >>= f).run s =
      match m.run s with
      | ⟨.ok a, s', log⟩ =>
        ⟨((f a).run s').result, ((f a).run s').state, log ++ ((f a).run s').log⟩
      | ⟨.error e, s', log⟩ => ⟨.error e, s', log⟩ := rfl

end Engine

end Harvest
