import DurableMessaging.Deployment

/-!
# Units of work

Rows to be stored together and actions to be done once they are. A commit stores all the rows or
none; only after it has stored them are the actions done, each once and in order, whatever becomes
of the others. A unit that is rolled back or dropped leaves no trace.
-/

namespace DurableMessaging

structure UnitOfWork (α : Type) where
  /-- The rows staged so far, in order. -/
  staged : List Row
  /-- What is to be done after the commit, in order. -/
  deferred : List α

/-- How the deferred actions of a commit went. -/
structure CommitReport where
  run : Nat
  failed : Nat
  deriving DecidableEq, Repr

namespace CommitReport

def zero : CommitReport := ⟨0, 0⟩

def count (r : CommitReport) : Completion → CommitReport
  | .completed => { r with run := r.run + 1 }
  | .crashed => { r with failed := r.failed + 1 }

end CommitReport

namespace UnitOfWork

variable {α σ : Type}

def empty : UnitOfWork α := ⟨[], []⟩

/-- Opens a unit; the store must be available. -/
def start (s : Store) : Except StoreError (UnitOfWork α) := do
  s.ensureAvailable
  return empty

def stage (u : UnitOfWork α) (s : Store) (row : Row) : Except StoreError (UnitOfWork α) := do
  return { u with staged := ← s.stage u.staged row }

def defer (u : UnitOfWork α) (action : α) : UnitOfWork α :=
  { u with deferred := u.deferred ++ [action] }

/-- Does actions in order, a failed one not stopping the others. -/
def runAll (perform : α → σ → Completion × σ) : List α → CommitReport → σ → CommitReport × σ
  | [], report, s => (report, s)
  | action :: actions, report, s =>
    let (completion, s) := perform action s
    runAll perform actions (report.count completion) s

/-- Stores the staged rows and then does the deferred actions. -/
def commit {ρ : Type} (perform : α → Deployment ρ → Completion × Deployment ρ)
    (u : UnitOfWork α) (d : Deployment ρ) : Except StoreError CommitReport × Deployment ρ :=
  match d.store.commit u.staged with
  | (.error e, store) => (.error e, { d with store })
  | (.ok (), store) =>
    let (report, d) := runAll perform u.deferred .zero { d with store }
    (.ok report, d)

end UnitOfWork

end DurableMessaging
