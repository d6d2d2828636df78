import DurableMessaging.Proofs.Store.Rows
import DurableMessaging.UnitOfWork
import Mathlib.Data.List.Induction

/-!
# Transactions on one store

Any number of transactions are open on a store at a time, and their operations alternate with those
of other clients in any order. Beside them goes a log of what has changed the table, in which
nothing appears of a transaction but its successful commit.
-/

namespace DurableMessaging

inductive TableChange where
  | committed (tx : Nat) (rows : List Row)
  | deleted (id : RowId)
  | markedSent (id : RowId)

def Shelf.apply (shelf : Shelf) : TableChange → Shelf
  | .committed _ rows => rows.foldl .put shelf
  | .deleted id => Function.update shelf id none
  | .markedSent id => Function.update shelf id ((shelf id).map (·.asSent))

/-- A store with the transactions on it. -/
structure Sessions where
  store : Store
  opened : Nat
  /-- What each transaction has staged; none if it ended or was never opened. -/
  staged : Nat → Option (List Row)
  /-- What has changed the table, the oldest first. -/
  log : List TableChange

inductive SessionMove where
  | start
  | stage (tx : Nat) (row : Row)
  | commit (tx : Nat)
  /-- A transaction is rolled back or dropped. -/
  | discard (tx : Nat)
  | allocateId
  | delete (id : RowId)
  | markSent (id : RowId)
  | setAvailable (available : Bool)
  | failNextCommit

def SessionMove.stagesIn (tx : Nat) : SessionMove → Bool
  | .stage t _ => t == tx
  | _ => false

namespace Sessions

def fresh (store : Store) : Sessions := ⟨store, 0, fun _ => none, []⟩

/-- The sessions after a move. One that the store refuses, or that names no open transaction, leaves
them as they are; but a transaction has ended with its commit, whatever became of it. -/
def step (s : Sessions) : SessionMove → Sessions
  | .start =>
    match (UnitOfWork.start s.store : Except StoreError (UnitOfWork Empty)) with
    | .error _ => s
    | .ok u =>
      { s with opened := s.opened + 1, staged := Function.update s.staged s.opened (some u.staged) }
  | .stage tx row =>
    match s.staged tx with
    | none => s
    | some rows =>
      match s.store.stage rows row with
      | .error _ => s
      | .ok rows => { s with staged := Function.update s.staged tx (some rows) }
  | .commit tx =>
    match s.staged tx with
    | none => s
    | some rows =>
      match s.store.commit rows with
      | (.error _, store) => { s with store, staged := Function.update s.staged tx none }
      | (.ok (), store) =>
        { s with
          store, staged := Function.update s.staged tx none, log := s.log ++ [.committed tx rows] }
  | .discard tx => { s with staged := Function.update s.staged tx none }
  | .allocateId =>
    match s.store.allocateId with
    | .error _ => s
    | .ok (_, store) => { s with store }
  | .delete id =>
    match s.store.delete id with
    | .error _ => s
    | .ok (_, store) => { s with store, log := s.log ++ [.deleted id] }
  | .markSent id =>
    match s.store.markSent id with
    | .error _ => s
    | .ok (false, store) => { s with store }
    | .ok (true, store) => { s with store, log := s.log ++ [.markedSent id] }
  | .setAvailable available => { s with store.available := available }
  | .failNextCommit => { s with store.failsNextCommit := true }

def run (store : Store) (moves : List SessionMove) : Sessions := moves.foldl step (fresh store)

theorem run_concat (store : Store) (moves : List SessionMove) (m : SessionMove) :
    run store (moves ++ [m]) = (run store moves).step m :=
  List.foldl_append

end Sessions

/-! ## Each operation of the store -/

namespace Store

theorem ensureAvailable_cases (s : Store) :
    (s.available = true ∧ s.ensureAvailable = .ok ()) ∨
      (s.available = false ∧ ∃ e, s.ensureAvailable = .error e) := by
  unfold ensureAvailable
  cases s.available with
  | true => exact .inl ⟨rfl, rfl⟩
  | false => exact .inr ⟨rfl, _, rfl⟩

/-- Why a commit may be refused. -/
def Refuses (s : Store) (rows : List Row) : Prop :=
  s.available = false ∨ s.failsNextCommit = true ∨ ∃ row ∈ rows, (s.table.get? row.id).isSome

/-- The store after a commit that brought nothing in. -/
def spent (s : Store) : Store := { s with failsNextCommit := s.failsNextCommit && !s.available }

/-- A commit brings in all of its rows, or is refused for a reason and brings in none. -/
theorem commit_cases (s : Store) (rows : List Row) :
    (¬s.Refuses rows ∧ s.commit rows = (.ok (), { s with table := rows.foldl .insert s.table })) ∨
      (s.Refuses rows ∧ ∃ e, s.commit rows = (.error e, s.spent)) := by
  obtain ⟨table, nextId, available, fails⟩ := s
  unfold commit Refuses spent
  cases available with
  | false => exact .inr ⟨.inl rfl, _, by cases fails <;> rfl⟩
  | true =>
      cases fails with
      | true => exact .inr ⟨.inr (.inl rfl), _, rfl⟩
      | false =>
          dsimp only [ensureAvailable]
          cases hf : rows.find? fun row => table.contains row.id with
          | none =>
              refine .inl ⟨?_, rfl⟩
              rintro (h | h | ⟨row, hrow, hid⟩)
              · cases h
              · cases h
              · have absent := List.find?_eq_none.mp hf row hrow
                rw [Table.contains_iff, ← Table.isSome_get?_iff] at absent
                exact absent hid
          | some row =>
              refine .inr ⟨.inr (.inr ⟨row, List.mem_of_find?_eq_some hf, ?_⟩), _, rfl⟩
              rw [Table.isSome_get?_iff, ← Table.contains_iff]
              exact List.find?_some (p := fun row : Row => table.contains row.id) hf

theorem commit_empty (s : Store) : (s.commit []).2 = s.spent := by
  rcases s.commit_cases [] with ⟨welcome, hc⟩ | ⟨-, e, hc⟩
  · have armed : s.failsNextCommit = false :=
      Bool.eq_false_iff.mpr fun h => welcome (.inr (.inl h))
    rw [hc, spent, armed, Bool.false_and, ← armed]
    rfl
  · rw [hc]

theorem stage_eq_ok {s : Store} {rows rows' : List Row} {row : Row} (h : s.stage rows row = .ok rows') :
    rows' = rows ++ [row] ∧ ∀ r ∈ rows, r.id ≠ row.id := by
  simp only [stage, bind, Except.bind, pure, Except.pure] at h
  split at h
  · cases h
  · split at h
    · cases h
    · rename_i hdup
      cases h
      refine ⟨rfl, fun r hr hid => hdup ?_⟩
      exact List.any_eq_true.mpr ⟨r, hr, beq_iff_eq.mpr hid⟩

theorem delete_eq_ok {s s' : Store} {id : RowId} {found : Bool} (h : s.delete id = .ok (found, s')) :
    s' = { s with table := s.table.erase id } := by
  rcases s.ensureAvailable_cases with ⟨-, ha⟩ | ⟨-, e, ha⟩ <;>
    simp only [delete, ha, bind, Except.bind, pure, Except.pure] at h <;> cases h
  rfl

theorem markSent_eq_ok {s s' : Store} {id : RowId} {found : Bool}
    (h : s.markSent id = .ok (found, s')) :
    (found = false ∧ s' = s) ∨
      (found = true ∧ (∃ row, s.table.get? id = some row ∧ row.status = .pending) ∧
        s' = { s with table := s.table.setStatus id .sent }) := by
  rcases s.ensureAvailable_cases with ⟨-, ha⟩ | ⟨-, e, ha⟩
  · simp only [markSent, ha, bind, Except.bind, pure, Except.pure] at h
    split at h
    · rename_i hp
      cases h
      cases hrow : s.table.get? id with
      | none => rw [hrow] at hp; cases hp
      | some row =>
          rw [hrow] at hp
          exact .inr ⟨rfl, ⟨row, rfl, beq_iff_eq.mp hp⟩, rfl⟩
    · cases h
      exact .inl ⟨rfl, rfl⟩
  · simp only [markSent, ha, bind, Except.bind] at h
    cases h

theorem allocateId_table {s s' : Store} {id : RowId} (h : s.allocateId = .ok (id, s')) :
    s'.table = s.table := by
  rcases s.ensureAvailable_cases with ⟨-, ha⟩ | ⟨-, e, ha⟩ <;>
    simp only [allocateId, ha, bind, Except.bind, pure, Except.pure] at h <;> cases h
  rfl

end Store

namespace UnitOfWork

variable {α : Type}

theorem start_eq_ok {s : Store} {u : UnitOfWork α} (h : start s = .ok u) : u = empty := by
  rcases s.ensureAvailable_cases with ⟨-, ha⟩ | ⟨-, e, ha⟩ <;>
    simp only [start, ha, bind, Except.bind, pure, Except.pure] at h <;> cases h
  rfl

theorem stage_eq_ok {u u' : UnitOfWork α} {s : Store} {row : Row} (h : u.stage s row = .ok u') :
    u' = { u with staged := u.staged ++ [row] } ∧ ∀ r ∈ u.staged, r.id ≠ row.id := by
  simp only [stage, bind, Except.bind, pure, Except.pure] at h
  split at h
  · cases h
  · rename_i hs
    cases h
    obtain ⟨rfl, fresh⟩ := Store.stage_eq_ok hs
    exact ⟨rfl, fresh⟩

end UnitOfWork

theorem Row.nodup_ids_concat {rows : List Row} {row : Row} (h : (rows.map (·.id)).Nodup)
    (fresh : ∀ r ∈ rows, r.id ≠ row.id) : ((rows ++ [row]).map (·.id)).Nodup := by
  rw [List.map_append, List.nodup_append]
  refine ⟨h, List.pairwise_singleton _ _, ?_⟩
  rintro _ hid _ hrow rfl
  obtain ⟨r, hr, he⟩ := List.mem_map.mp hid
  exact fresh r hr (he.trans (List.mem_singleton.mp hrow))

/-! ## What a move changes -/

/-- What becomes of a row that stays in a table. -/
def Row.Settles (row row' : Row) : Prop := row' = row ∨ (row.status = .pending ∧ row' = row.asSent)

/-- A table has taken in rows under ids that were free, and holds what it held. -/
structure Table.Gains (t t' : Table) (rows : List Row) : Prop where
  free : ∀ row ∈ rows, t.get? row.id = none
  mem : ∀ row, row ∈ t'.rows ↔ row ∈ t.rows ∨ row ∈ rows
  size : t'.size = t.size + rows.length

theorem Table.gains_foldl_insert {t : Table} {rows : List Row} (distinct : (rows.map (·.id)).Nodup)
    (free : ∀ row ∈ rows, t.get? row.id = none) : t.Gains (rows.foldl .insert t) rows := by
  have absent : ∀ row ∈ rows, row.id ∉ t.ids := by
    intro row hrow hid
    rw [← Table.isSome_get?_iff, free row hrow] at hid
    cases hid
  refine ⟨free, fun row => ?_, Table.size_foldl_insert distinct absent⟩
  rw [Table.mem_foldl_insert distinct, or_comm]
  refine or_congr_left (and_iff_left_of_imp fun hrow hid => ?_)
  obtain ⟨r, hr, he⟩ := List.mem_map.mp hid
  exact absent r hr (he ▸ List.mem_map_of_mem hrow)

/-- What a commit brings in goes under ids that were free. -/
theorem Store.gains_of_commit {s s' : Store} {rows : List Row}
    (distinct : (rows.map (·.id)).Nodup) (h : s.commit rows = (.ok (), s')) :
    s.table.Gains s'.table rows := by
  rcases s.commit_cases rows with ⟨welcome, hc⟩ | ⟨-, e, hc⟩
  · cases hc.symm.trans h
    refine Table.gains_foldl_insert distinct fun row hrow => ?_
    exact Option.not_isSome_iff_eq_none.mp fun taken => welcome (.inr (.inr ⟨row, hrow, taken⟩))
  · cases hc.symm.trans h

namespace Sessions

theorem step_cases (s : Sessions) (m : SessionMove) :
    ((s.step m).store.table = s.store.table ∧ (s.step m).log = s.log) ∨
    (∃ tx rows, m = .commit tx ∧ s.staged tx = some rows ∧ ¬s.store.Refuses rows ∧
      (s.step m).store.table = rows.foldl .insert s.store.table ∧
      (s.step m).log = s.log ++ [.committed tx rows]) ∨
    (∃ id, m = .delete id ∧ (s.step m).store.table = s.store.table.erase id ∧
      (s.step m).log = s.log ++ [.deleted id]) ∨
    (∃ id, m = .markSent id ∧
      (∃ row, s.store.table.get? id = some row ∧ row.status = .pending) ∧
      (s.step m).store.table = s.store.table.setStatus id .sent ∧
      (s.step m).log = s.log ++ [.markedSent id]) := by
  cases m with
  | start =>
      refine .inl ?_
      dsimp only [step]
      split <;> exact ⟨rfl, rfl⟩
  | stage tx row =>
      refine .inl ?_
      dsimp only [step]
      split
      · exact ⟨rfl, rfl⟩
      · split <;> exact ⟨rfl, rfl⟩
  | commit tx =>
      dsimp only [step]
      cases htx : s.staged tx with
      | none => exact .inl ⟨rfl, rfl⟩
      | some rows =>
          dsimp only
          rcases s.store.commit_cases rows with ⟨welcome, hc⟩ | ⟨-, e, hc⟩
          · rw [hc]
            exact .inr (.inl ⟨tx, rows, rfl, htx, welcome, rfl, rfl⟩)
          · rw [hc]
            exact .inl ⟨rfl, rfl⟩
  | discard tx => exact .inl ⟨rfl, rfl⟩
  | allocateId =>
      refine .inl ?_
      dsimp only [step]
      split
      · exact ⟨rfl, rfl⟩
      · rename_i h
        exact ⟨Store.allocateId_table h, rfl⟩
  | delete id =>
      dsimp only [step]
      split
      · exact .inl ⟨rfl, rfl⟩
      · rename_i h
        refine .inr (.inr (.inl ⟨id, rfl, ?_, rfl⟩))
        rw [Store.delete_eq_ok h]
  | markSent id =>
      dsimp only [step]
      split
      · exact .inl ⟨rfl, rfl⟩
      · rename_i h
        obtain ⟨-, rfl⟩ | ⟨hf, -⟩ := Store.markSent_eq_ok h
        · exact .inl ⟨rfl, rfl⟩
        · cases hf
      · rename_i h
        obtain ⟨hf, -⟩ | ⟨-, pending, rfl⟩ := Store.markSent_eq_ok h
        · cases hf
        · exact .inr (.inr (.inr ⟨id, rfl, pending, rfl, rfl⟩))
  | setAvailable available => exact .inl ⟨rfl, rfl⟩
  | failNextCommit => exact .inl ⟨rfl, rfl⟩

/-- A transaction ends with its commit. -/
theorem step_commit {s : Sessions} {tx : Nat} {rows : List Row} (h : s.staged tx = some rows) :
    (s.step (.commit tx)).store = (s.store.commit rows).2 ∧
      (s.step (.commit tx)).opened = s.opened ∧
      (s.step (.commit tx)).staged = Function.update s.staged tx none := by
  dsimp only [step]
  rw [h]
  dsimp only
  split <;> rename_i hc <;> rw [hc] <;> exact ⟨rfl, rfl, rfl⟩

theorem log_commit {s : Sessions} {tx : Nat} {rows : List Row} {store : Store}
    (h : s.staged tx = some rows) (hc : s.store.commit rows = (.ok (), store)) :
    (s.step (.commit tx)).log = s.log ++ [.committed tx rows] := by
  dsimp only [step]
  rw [h]
  dsimp only
  rw [hc]

/-- The table after a move, from the table before it and what is new in the log. -/
theorem shelf_step (s : Sessions) (m : SessionMove) :
    ∃ changes : List TableChange, (s.step m).log = s.log ++ changes ∧
      (s.step m).store.table.shelf = changes.foldl .apply s.store.table.shelf := by
  rcases s.step_cases m with ⟨ht, hl⟩ | ⟨tx, rows, -, -, -, ht, hl⟩ | ⟨id, -, ht, hl⟩ |
    ⟨id, -, -, ht, hl⟩
  · exact ⟨[], by rw [hl, List.append_nil], by rw [ht]; rfl⟩
  · exact ⟨[_], hl, by rw [ht, Table.shelf_foldl_insert]; rfl⟩
  · exact ⟨[_], hl, by rw [ht, Table.shelf_erase]; rfl⟩
  · exact ⟨[_], hl, by rw [ht, Table.shelf_setSent]; rfl⟩

/-- A row that is there before and after a move has at most become sent. -/
theorem settles_step {s : Sessions} {m : SessionMove} {id : RowId} {row row' : Row}
    (before : s.store.table.get? id = some row) (after : (s.step m).store.table.get? id = some row') :
    row.Settles row' := by
  have same (h : s.store.table.get? id = some row') : row.Settles row' :=
    .inl (Option.some.inj (h.symm.trans before))
  change Table.shelf _ id = _ at after
  rcases s.step_cases m with ⟨ht, -⟩ | ⟨tx, rows, -, -, welcome, ht, -⟩ | ⟨gone, -, ht, -⟩ |
    ⟨sent, -, ⟨r, hr, pending⟩, ht, -⟩ <;> rw [ht] at after
  · exact same after
  · -- the ids of a commit that succeeds were free, so this one is not among them
    rw [Table.shelf_foldl_insert, Shelf.foldl_put_of_ne] at after
    · exact same after
    · rintro r hr rfl
      exact welcome (.inr (.inr ⟨r, hr, by rw [before]; rfl⟩))
  · rw [Table.shelf_erase] at after
    by_cases h : id = gone
    · rw [h, Function.update_self] at after
      cases after
    · rw [Function.update_of_ne h] at after
      exact same after
  · rw [Table.shelf_setSent] at after
    by_cases h : id = sent
    · subst h
      rw [Function.update_self, Table.shelf, before] at after
      cases before.symm.trans hr
      exact .inr ⟨pending, (Option.some.inj after).symm⟩
    · rw [Function.update_of_ne h] at after
      exact same after

/-- What a transaction has staged has grown by at most one row, under an id that it had not staged. -/
theorem staged_step_cases {s : Sessions} {m : SessionMove} {tx : Nat} {rows : List Row}
    (h : (s.step m).staged tx = some rows) :
    s.staged tx = some rows ∨ rows = [] ∨
      ∃ rows' row, s.staged tx = some rows' ∧ rows = rows' ++ [row] ∧ ∀ r ∈ rows', r.id ≠ row.id := by
  have ended {t : Nat} (h : Function.update s.staged t none tx = some rows) :
      s.staged tx = some rows := by
    by_cases ht : tx = t
    · rw [ht, Function.update_self] at h
      cases h
    · rwa [Function.update_of_ne ht] at h
  cases m with
  | start =>
      dsimp only [step] at h
      split at h
      · exact .inl h
      · rename_i u hu
        dsimp only at h
        by_cases ht : tx = s.opened
        · rw [ht, Function.update_self, UnitOfWork.start_eq_ok hu] at h
          exact .inr (.inl (Option.some.inj h).symm)
        · rw [Function.update_of_ne ht] at h
          exact .inl h
  | stage t row =>
      dsimp only [step] at h
      split at h
      · exact .inl h
      · rename_i rows' hrows
        split at h
        · exact .inl h
        · rename_i hs
          dsimp only at h
          by_cases ht : tx = t
          · subst ht
            rw [Function.update_self] at h
            obtain ⟨rfl, hne⟩ := Store.stage_eq_ok hs
            exact .inr (.inr ⟨rows', row, hrows, (Option.some.inj h).symm, hne⟩)
          · rw [Function.update_of_ne ht] at h
            exact .inl h
  | commit t =>
      dsimp only [step] at h
      split at h
      · exact .inl h
      · split at h <;> exact .inl (ended h)
  | discard t => exact .inl (ended h)
  | allocateId => dsimp only [step] at h; split at h <;> exact .inl h
  | delete id => dsimp only [step] at h; split at h <;> exact .inl h
  | markSent id => dsimp only [step] at h; split at h <;> exact .inl h
  | setAvailable available => exact .inl h
  | failNextCommit => exact .inl h

theorem shelf_run (store : Store) (moves : List SessionMove) :
    (run store moves).store.table.shelf = (run store moves).log.foldl .apply store.table.shelf := by
  induction moves using List.reverseRecOn with
  | nil => rfl
  | append_singleton moves m ih =>
      rw [run_concat]
      obtain ⟨changes, hl, ht⟩ := (run store moves).shelf_step m
      rw [hl, ht, ih, List.foldl_append]

/-- No transaction stages two rows under one id. -/
theorem distinct_run {store : Store} {moves : List SessionMove} {tx : Nat} {rows : List Row}
    (h : (run store moves).staged tx = some rows) : (rows.map (·.id)).Nodup := by
  induction moves using List.reverseRecOn generalizing rows with
  | nil => cases h
  | append_singleton moves m ih =>
      rw [run_concat] at h
      obtain before | rfl | ⟨rows', row, before, rfl, hne⟩ := staged_step_cases h
      · exact ih before
      · exact List.nodup_nil
      · exact Row.nodup_ids_concat (ih before) hne

/-! ## What a transaction stages is not seen -/

/-- What transaction `t` has staged, were it not for the rows of `tx`. -/
def conceal (tx t : Nat) (rows : Option (List Row)) : Option (List Row) :=
  if t = tx then rows.map fun _ => [] else rows

/-- The same sessions, but that one transaction has staged nothing; the logs may differ. -/
structure Unstaged (tx : Nat) (s s' : Sessions) : Prop where
  store : s'.store = s.store
  opened : s'.opened = s.opened
  staged : ∀ t, s'.staged t = conceal tx t (s.staged t)

namespace Unstaged

variable {tx : Nat} {s s' : Sessions}

theorem update {staged staged' : Nat → Option (List Row)}
    (h : ∀ t, staged' t = conceal tx t (staged t)) (t₀ : Nat) (rows : Option (List Row)) (t : Nat) :
    Function.update staged' t₀ (conceal tx t₀ rows) t =
      conceal tx t (Function.update staged t₀ rows t) := by
  by_cases ht : t = t₀
  · subst ht
    rw [Function.update_self, Function.update_self]
  · rw [Function.update_of_ne ht, Function.update_of_ne ht, h]

theorem conceal_none (t : Nat) : conceal tx t none = none := by
  unfold conceal
  split <;> rfl

theorem conceal_empty (t : Nat) : conceal tx t (some []) = some [] := by
  unfold conceal
  split <;> rfl

/-- Staging in the transaction itself keeps it so, on one side alone. -/
theorem stage (h : Unstaged tx s s') (row : Row) : Unstaged tx (s.step (.stage tx row)) s' := by
  dsimp only [step]
  split
  · exact h
  · rename_i rows hrows
    split
    · exact h
    · refine ⟨h.store, h.opened, fun t => ?_⟩
      rw [h.staged]
      by_cases ht : t = tx
      · subst ht
        simp only [conceal, if_pos, hrows, Function.update_self, Option.map_some]
      · dsimp only
        rw [Function.update_of_ne ht]

/-- As long as the transaction has not committed, every other move keeps it so. -/
theorem step (h : Unstaged tx s s') {m : SessionMove} (hm : m.stagesIn tx = false)
    (quiet : ∀ rows, .committed tx rows ∉ (s.step m).log) : Unstaged tx (s.step m) (s'.step m) := by
  obtain ⟨store, opened, staged, log⟩ := s
  obtain ⟨store', opened', staged', log'⟩ := s'
  obtain ⟨rfl, rfl, hst⟩ := h
  dsimp only at hst
  cases m with
  | start =>
      dsimp only [Sessions.step]
      split
      · exact ⟨rfl, rfl, hst⟩
      · rename_i u hu
        refine ⟨rfl, rfl, fun t => ?_⟩
        rw [UnitOfWork.start_eq_ok hu]
        have := update hst opened' (some []) t
        rwa [conceal_empty] at this
  | stage t row =>
      have ht : t ≠ tx := by
        rintro rfl
        simp only [SessionMove.stagesIn, beq_self_eq_true] at hm
        cases hm
      have seen : staged' t = staged t := (hst t).trans (if_neg ht)
      dsimp only [Sessions.step]
      rw [seen]
      split
      · exact ⟨rfl, rfl, hst⟩
      · split
        · exact ⟨rfl, rfl, hst⟩
        · rename_i rows _
          refine ⟨rfl, rfl, fun t' => ?_⟩
          have := update hst t (some rows) t'
          rwa [conceal, if_neg ht] at this
  | commit t =>
      cases hrows : staged t with
      | none =>
          have hrows' : staged' t = none := by rw [hst, hrows, conceal_none]
          dsimp only [Sessions.step]
          rw [hrows, hrows']
          exact ⟨rfl, rfl, hst⟩
      | some rows =>
          obtain ⟨rows', hrows', same⟩ : ∃ rows', staged' t = some rows' ∧
              (store'.commit rows').2 = (store'.commit rows).2 := by
            by_cases ht : t = tx
            · subst ht
              refine ⟨[], by rw [hst, hrows, conceal, if_pos rfl]; rfl, ?_⟩
              rcases store'.commit_cases rows with ⟨-, hc⟩ | ⟨-, e, hc⟩
              · -- a commit that succeeded would stand in the log
                refine absurd ?_ (quiet rows)
                rw [log_commit (s := ⟨store', opened', staged, log⟩) hrows hc]
                exact List.mem_append_right _ (List.mem_singleton_self _)
              · rw [hc, Store.commit_empty]
            · exact ⟨rows, by rw [hst, hrows, conceal, if_neg ht], rfl⟩
          have left := step_commit (s := ⟨store', opened', staged, log⟩) hrows
          have right := step_commit (s := ⟨store', opened', staged', log'⟩) hrows'
          refine ⟨?_, right.2.1.trans left.2.1.symm, fun t' => ?_⟩
          · rw [right.1, left.1, same]
          · rw [right.2.2, left.2.2]
            have := update hst t none t'
            rwa [conceal_none] at this
  | discard t =>
      refine ⟨rfl, rfl, fun t' => ?_⟩
      have := update hst t none t'
      rwa [conceal_none] at this
  | allocateId => dsimp only [Sessions.step]; split <;> exact ⟨rfl, rfl, hst⟩
  | delete id => dsimp only [Sessions.step]; split <;> exact ⟨rfl, rfl, hst⟩
  | markSent id => dsimp only [Sessions.step]; split <;> exact ⟨rfl, rfl, hst⟩
  | setAvailable available => exact ⟨rfl, rfl, hst⟩
  | failNextCommit => exact ⟨rfl, rfl, hst⟩

end Unstaged

theorem unstaged_run {store : Store} {moves : List SessionMove} {tx : Nat}
    (h : ∀ rows, .committed tx rows ∉ (run store moves).log) :
    Unstaged tx (run store moves) (run store (moves.filter fun m => !m.stagesIn tx)) := by
  induction moves using List.reverseRecOn with
  | nil => exact ⟨rfl, rfl, fun t => (Unstaged.conceal_none t).symm⟩
  | append_singleton moves m ih =>
      rw [run_concat] at h ⊢
      rw [List.filter_append]
      have before : ∀ rows, .committed tx rows ∉ (run store moves).log := by
        intro rows hrows
        obtain ⟨changes, hl, -⟩ := (run store moves).shelf_step m
        exact h rows (hl ▸ List.mem_append_left changes hrows)
      cases hm : m.stagesIn tx with
      | false =>
          rw [List.filter_cons_of_pos (by rw [hm]; rfl), List.filter_nil, run_concat]
          exact (ih before).step hm h
      | true =>
          rw [List.filter_cons_of_neg (by simp only [hm, Bool.not_true, Bool.false_eq_true,
            not_false_eq_true]), List.filter_nil, List.append_nil]
          cases m with
          | stage t row =>
              cases beq_iff_eq.mp hm
              exact (ih before).stage row
          | _ => cases hm

/-! ## Atomic transactions -/

/-- What the store owes its transactions at a moment. -/
structure Atomic (s : Sessions) : Prop where
  /-- Rows are staged in order under distinct ids, and a refused one changes nothing. -/
  stages : ∀ tx rows row, s.staged tx = some rows →
    match s.store.stage rows row with
    | .error _ => s.step (.stage tx row) = s
    | .ok _ => (∀ r ∈ rows, r.id ≠ row.id) ∧ s.step (.stage tx row) =
        { s with staged := Function.update s.staged tx (some (rows ++ [row])) }
  /-- A commit succeeds unless there is a reason against it, and brings in what was staged. -/
  commits : ∀ tx rows, s.staged tx = some rows → ¬s.store.Refuses rows →
    (s.store.commit rows).1 = .ok () ∧
      s.store.table.Gains (s.step (.commit tx)).store.table rows ∧
      (s.step (.commit tx)).staged tx = none
  /-- A commit that is refused brings in nothing. -/
  refuses : ∀ tx rows, s.staged tx = some rows → s.store.Refuses rows →
    (∃ e, (s.store.commit rows).1 = .error e) ∧
      (s.step (.commit tx)).store.table = s.store.table ∧ (s.step (.commit tx)).staged tx = none
  discards : ∀ tx, (s.step (.discard tx)).store = s.store ∧ (s.step (.discard tx)).staged tx = none
  /-- Each row is found under its own id. -/
  filed : ∀ row ∈ s.store.table.rows, s.store.table.get? row.id = some row
  settles : ∀ m id row row', s.store.table.get? id = some row →
    (s.step m).store.table.get? id = some row' → row.Settles row'

theorem atomic_of_distinct {s : Sessions}
    (distinct : ∀ tx rows, s.staged tx = some rows → (rows.map (·.id)).Nodup) : s.Atomic where
  stages tx rows row h := by
    cases hs : s.store.stage rows row with
    | error e => simp only [step, h, hs]
    | ok rows' =>
        obtain ⟨rfl, hne⟩ := Store.stage_eq_ok hs
        exact ⟨hne, by simp only [step, h, hs]⟩
  commits tx rows h welcome := by
    obtain ⟨hstore, -, hstaged⟩ := step_commit h
    rcases s.store.commit_cases rows with ⟨-, hc⟩ | ⟨refused, -⟩
    · rw [hstore, hstaged, hc, Function.update_self]
      exact ⟨rfl, Store.gains_of_commit (distinct tx rows h) hc, rfl⟩
    · exact absurd refused welcome
  refuses tx rows h refused := by
    obtain ⟨hstore, -, hstaged⟩ := step_commit h
    rcases s.store.commit_cases rows with ⟨welcome, -⟩ | ⟨-, e, hc⟩
    · exact absurd refused welcome
    · rw [hstore, hstaged, hc, Function.update_self]
      exact ⟨⟨e, rfl⟩, rfl, rfl⟩
  discards tx := ⟨rfl, Function.update_self ..⟩
  filed row hrow := Table.get?_eq_some_iff.mpr ⟨hrow, rfl⟩
  settles _ _ _ _ before after := settles_step before after

/-- However transactions alternate with each other and with the other clients of a store, they are
atomic, and the table comes of their successful commits and of the changes by others. As long as a
transaction has not committed, the store is the one that there would be had it staged nothing. -/
theorem transactions_atomic_and_isolated (store : Store) (moves : List SessionMove) :
    (run store moves).Atomic ∧
      (run store moves).store.table.shelf = (run store moves).log.foldl .apply store.table.shelf ∧
      ∀ tx, (∀ rows, .committed tx rows ∉ (run store moves).log) →
        (run store (moves.filter fun m => !m.stagesIn tx)).store = (run store moves).store :=
  ⟨atomic_of_distinct fun _ _ => distinct_run, shelf_run store moves,
    fun _ quiet => (unstaged_run quiet).store⟩

/-- Two transactions stage the same id: the one that commits first wins, the other brings in
nothing, and neither did its staging before show. -/
theorem second_commit_under_one_id_refused :
    let row (payload : String) : Row :=
      ⟨1, "m", payload, 0, "", "orders", none, .direct, none, .pending⟩
    let moves : List SessionMove :=
      [.start, .start, .stage 0 (row "1"), .stage 1 (row "2"), .commit 0]
    let s := run (.startingAt 1) moves
    s.store.table.rows = [row "1"] ∧ s.staged 1 = some [row "2"] ∧
      (s.step (.commit 1)).store.table = s.store.table ∧
      (run (.startingAt 1) (moves.filter fun m => !m.stagesIn 1)).store = s.store := by
  intro row moves s
  obtain ⟨atomic, -, isolated⟩ := transactions_atomic_and_isolated (.startingAt 1) moves
  have staged : s.staged 1 = some [row "2"] := rfl
  refine ⟨rfl, staged, (atomic.refuses 1 _ staged ?_).2.1, isolated 1 ?_⟩
  · exact .inr (.inr ⟨row "2", List.mem_singleton_self _, rfl⟩)
  · intro rows h
    cases List.mem_singleton.mp h

end Sessions

end DurableMessaging
