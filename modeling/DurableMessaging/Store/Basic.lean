import DurableMessaging.Store.Table

/-!
# The outbox store

The table of rows, the next row id, and switches that make it unreachable or fail a commit. Rows
enter the table only by a commit, all of a transaction's rows at once.
-/

namespace DurableMessaging

structure Store where
  table : Table
  nextId : RowId
  available : Bool
  /-- The next commit fails. -/
  failsNextCommit : Bool

namespace Store

/-- An empty store that gives out ids from `first` on. -/
def startingAt (first : RowId) : Store := ⟨.empty, first, true, false⟩

def ensureAvailable (s : Store) : Except StoreError Unit :=
  if s.available then .ok () else .error (.unavailable "in-memory store switched off")

/-- Gives out the next id. After the last 64-bit word comes zero. -/
def allocateId (s : Store) : Except StoreError (RowId × Store) := do
  s.ensureAvailable
  return (s.nextId, { s with nextId := s.nextId + 1 })

/-- Adds a row to those staged in a transaction. -/
def stage (s : Store) (staged : List Row) (row : Row) : Except StoreError (List Row) := do
  s.ensureAvailable
  if staged.any (·.id == row.id) then throw (.duplicateId row.id)
  return staged ++ [row]

/-- Puts the staged rows into the table, unless one of their ids is taken. A failure that was asked
for happens once. -/
def commit (s : Store) (staged : List Row) : Except StoreError Unit × Store :=
  match s.ensureAvailable with
  | .error e => (.error e, s)
  | .ok () =>
    if s.failsNextCommit then
      (.error (.commitFailed "injected commit failure"), { s with failsNextCommit := false })
    else
      match staged.find? fun row => s.table.contains row.id with
      | some row => (.error (.duplicateId row.id), s)
      | none => (.ok (), { s with table := staged.foldl .insert s.table })

/-- Removes a row, and tells whether it was there. -/
def delete (s : Store) (id : RowId) : Except StoreError (Bool × Store) := do
  s.ensureAvailable
  return (s.table.contains id, { s with table := s.table.erase id })

/-- Marks a pending row as sent, and tells whether there was one. -/
def markSent (s : Store) (id : RowId) : Except StoreError (Bool × Store) := do
  s.ensureAvailable
  if (s.table.get? id).any Row.isPending then
    return (true, { s with table := s.table.setStatus id .sent })
  else return (false, s)

/-- Treats the row of a confirmed publish as the policy says. -/
def settle (s : Store) (id : RowId) : AckPolicy → Except StoreError (Bool × Store)
  | .delete => s.delete id
  | .markSent => s.markSent id

/-- One page of pending rows. -/
def pending (s : Store) (after : Option RowId) (limit : Nat) : Except StoreError (List Row) := do
  s.ensureAvailable
  return s.table.pending after limit

def get (s : Store) (id : RowId) : Except StoreError (Option Row) := do
  s.ensureAvailable
  return s.table.get? id

/-- A page of pending rows lies after its cursor. -/
theorem pending_after {s : Store} {after : RowId} {limit : Nat} {rows : List Row}
    (h : s.pending (some after) limit = .ok rows) : ∀ row ∈ rows, after < row.id := by
  simp only [pending, ensureAvailable] at h
  split at h
  · injection h with h
    subst h
    intro row hrow
    have := (List.mem_filter.1 (List.mem_of_mem_take hrow)).2
    simp only [Option.all_some, Bool.and_eq_true, decide_eq_true_eq] at this
    exact this.1
  · cases h

end Store

end DurableMessaging
