import DurableMessaging.Proofs.Store.Sessions

/-!
# How units of work end

A unit ends by its commit, by a rollback or by being dropped. Only a commit that the store takes
leads to the deferred actions, which may be anything. They are watched: each invocation goes to a
log beside the deployment, which the actions cannot see.
-/

namespace DurableMessaging

variable {ρ α ε : Type}

/-! ## Logs beside a deployment -/

namespace Deployment

def withRig {ρ' : Type} (d : Deployment ρ) (rig : ρ') : Deployment ρ' := { d with rig }

def beside (d : Deployment ρ) (log : List ε) : Deployment (ρ × List ε) := d.withRig (d.rig, log)

/-- The deployment that does not know of the log beside it. -/
def bare (d : Deployment (ρ × List ε)) : Deployment ρ := d.withRig d.rig.1

@[simp] theorem bare_beside (d : Deployment ρ) (log : List ε) : (d.beside log).bare = d := rfl

@[simp] theorem rig_beside (d : Deployment ρ) (log : List ε) :
    (d.beside log).rig = (d.rig, log) := rfl

@[simp] theorem store_beside (d : Deployment ρ) (log : List ε) :
    (d.beside log).store = d.store := rfl

end Deployment

/-! ## Watching actions -/

/-- One invocation of an action. -/
structure Invocation (α : Type) where
  action : α
  /-- What the action finds in the table. -/
  table : Table
  completion : Completion

abbrev Performance (α ρ : Type) := α → Deployment ρ → Completion × Deployment ρ

namespace Performance

def watched (perform : Performance α ρ) : Performance α (ρ × List (Invocation α)) := fun a d =>
  let (completion, d') := perform a d.bare
  (completion, d'.beside (d.rig.2 ++ [⟨a, d.store.table, completion⟩]))

/-- The invocations of actions that are performed one after another. -/
def invocations (perform : Performance α ρ) : List α → Deployment ρ → List (Invocation α)
  | [], _ => []
  | a :: as, d => ⟨a, d.store.table, (perform a d).1⟩ :: invocations perform as (perform a d).2

variable (perform : Performance α ρ)

theorem runAll_watched (as : List α) (report : CommitReport) (d : Deployment ρ)
    (log : List (Invocation α)) :
    UnitOfWork.runAll perform.watched as report (d.beside log) =
      ((UnitOfWork.runAll perform as report d).1,
        (UnitOfWork.runAll perform as report d).2.beside (log ++ perform.invocations as d)) := by
  induction as generalizing report d log with
  | nil =>
      unfold invocations
      rw [List.append_nil]
      rfl
  | cons a as ih =>
      have rest := ih (report.count (perform a d).1) (perform a d).2
        (log ++ [⟨a, d.store.table, (perform a d).1⟩])
      rw [List.append_assoc] at rest
      exact rest

theorem map_action_invocations (as : List α) (d : Deployment ρ) :
    (perform.invocations as d).map (·.action) = as := by
  induction as generalizing d with
  | nil => rfl
  | cons a as ih => exact congrArg (a :: ·) (ih _)

theorem table_of_mem_head? {as : List α} {d : Deployment ρ} {i : Invocation α}
    (h : i ∈ (perform.invocations as d).head?) : i.table = d.store.table := by
  cases as with
  | nil => cases h
  | cons a as =>
      cases h
      rfl

/-- A report counts every invocation, and apart those that crashed. -/
theorem report_runAll (as : List α) (report : CommitReport) (d : Deployment ρ) :
    let r := (UnitOfWork.runAll perform as report d).1
    r.run + r.failed = report.run + report.failed + as.length ∧
      r.failed = report.failed + (perform.invocations as d).countP (·.completion = .crashed) := by
  induction as generalizing report d with
  | nil => exact ⟨rfl, rfl⟩
  | cons a as ih =>
      obtain ⟨total, failed⟩ := ih (report.count (perform a d).1) (perform a d).2
      unfold UnitOfWork.runAll invocations
      rw [List.countP_cons, List.length_cons]
      dsimp only at total failed ⊢
      rw [total, failed]
      cases (perform a d).1 with
      | completed => simp [CommitReport.count]; omega
      | crashed => simp [CommitReport.count]; omega

end Performance

/-! ## Until a unit ends -/

inductive UnitMove (α ρ : Type) where
  | stage (row : Row)
  | defer (action : α)
  /-- Others do something, to the store or to anything else. -/
  | meanwhile (f : Deployment ρ → Deployment ρ)

/-- The actions registered by some moves, in order. -/
def UnitMove.registered (moves : List (UnitMove α ρ)) : List α :=
  moves.filterMap fun | .defer action => some action | _ => none

namespace UnitOfWork

/-- A row that the store refuses to stage leaves the unit as it is. -/
def step (s : UnitOfWork α × Deployment ρ) : UnitMove α ρ → UnitOfWork α × Deployment ρ
  | .stage row =>
    match s.1.stage s.2.store row with
    | .error _ => s
    | .ok u => (u, s.2)
  | .defer action => (s.1.defer action, s.2)
  | .meanwhile f => (s.1, f s.2)

/-- A new unit and the deployment after some moves. -/
def prepare (d : Deployment ρ) (moves : List (UnitMove α ρ)) : UnitOfWork α × Deployment ρ :=
  moves.foldl step (empty, d)

theorem prepare_concat (d : Deployment ρ) (moves : List (UnitMove α ρ)) (m : UnitMove α ρ) :
    prepare d (moves ++ [m]) = step (prepare d moves) m :=
  List.foldl_append

/-- No unit stages two rows under one id. -/
theorem distinct_prepare (d : Deployment ρ) (moves : List (UnitMove α ρ)) :
    ((prepare d moves).1.staged.map (·.id)).Nodup := by
  induction moves using List.reverseRecOn with
  | nil => exact List.nodup_nil
  | append_singleton moves m ih =>
      rw [prepare_concat]
      cases m with
      | stage row =>
          dsimp only [step]
          split
          · exact ih
          · rename_i hs
            obtain ⟨rfl, fresh⟩ := stage_eq_ok hs
            exact Row.nodup_ids_concat ih fresh
      | defer action => exact ih
      | meanwhile f => exact ih

theorem deferred_prepare (d : Deployment ρ) (moves : List (UnitMove α ρ)) :
    (prepare d moves).1.deferred = UnitMove.registered moves := by
  induction moves using List.reverseRecOn with
  | nil => rfl
  | append_singleton moves m ih =>
      rw [prepare_concat, UnitMove.registered, List.filterMap_append]
      cases m with
      | stage row =>
          refine Eq.trans ?_ (ih.trans (List.append_nil _).symm)
          dsimp only [step]
          split
          · rfl
          · rename_i hs
            obtain ⟨rfl, -⟩ := stage_eq_ok hs
            rfl
      | defer action => exact congrArg (· ++ [action]) ih
      | meanwhile f => exact ih.trans (List.append_nil _).symm

end UnitOfWork

/-! ## The end -/

/-- A unit in the hands of its owner. -/
structure UnitHandle (α : Type) where
  /-- What is staged; none once the transaction was taken out. -/
  transaction : Option (List Row)
  deferred : List α

inductive UnitExit where
  | commit
  | rollback
  | drop

namespace UnitHandle

/-- Nothing is left of a discarded unit. Rolling back a transaction only forgets its rows. -/
def discard (_ : UnitHandle α) : UnitHandle α := ⟨none, []⟩

/-- Ends a unit, and gives what its owner is told, what is left of the unit and the deployment. Once
the owner has let go of it, a unit discards whatever it still has. -/
def close (perform : Performance α ρ) (h : UnitHandle α) (d : Deployment ρ) :
    UnitExit → Option (Except StoreError CommitReport) × UnitHandle α × Deployment ρ
  | .commit =>
    -- both parts are taken out of the unit before the store is asked
    let left : UnitHandle α := ⟨none, []⟩
    match h.transaction with
    | none => (some (.ok .zero), left.discard, d)
    | some staged =>
      let (result, d) := (UnitOfWork.mk staged h.deferred).commit perform d
      (some result, left.discard, d)
  | .rollback => (none, h.discard.discard, d)
  | .drop => (none, h.discard, d)

end UnitHandle

namespace UnitOfWork

def handle (u : UnitOfWork α) : UnitHandle α := ⟨some u.staged, u.deferred⟩

/-- How a commit went that the store took. -/
structure Performed (registered : List α) (staged : List Row) (before : Table)
    (report : CommitReport) (log : List (Invocation α)) : Prop where
  /-- Each action was invoked once, in the order of registration. -/
  once : log.map (·.action) = registered
  /-- The first action found all the staged rows in the table. -/
  stored : ∀ first ∈ log.head?, before.Gains first.table staged
  total : report.run + report.failed = registered.length
  failed : report.failed = log.countP (·.completion = .crashed)

theorem commit_of_ok (perform : Performance α ρ) {u : UnitOfWork α} {d : Deployment ρ}
    {store : Store} (h : d.store.commit u.staged = (.ok (), store)) :
    u.commit perform d =
      (.ok (runAll perform u.deferred .zero { d with store }).1,
        (runAll perform u.deferred .zero { d with store }).2) := by
  unfold commit
  rw [h]

theorem commit_of_error (perform : Performance α ρ) {u : UnitOfWork α} {d : Deployment ρ}
    {e : StoreError} {store : Store} (h : d.store.commit u.staged = (.error e, store)) :
    u.commit perform d = (.error e, { d with store }) := by
  unfold commit
  rw [h]

/-- However a unit came to be and whatever its actions do, they are invoked after a commit that the
store takes, each once and in order, whether others crash or not, and the report counts them. If the
commit fails, or the unit is rolled back or dropped, none is invoked, the table is as it was and
nothing is left that could be invoked. -/
theorem invokes_actions_once_after_commit (perform : Performance α ρ) (d : Deployment ρ)
    (moves : List (UnitMove α ρ)) (exit : UnitExit) :
    let u := (prepare d moves).1
    let before := (prepare d moves).2
    let (told, left, after) := u.handle.close perform before exit
    ∃ log,
      u.handle.close perform.watched (before.beside []) exit =
        (told, left, after.beside log) ∧
      left = ⟨none, []⟩ ∧
      match exit, before.store.commit u.staged with
      | .commit, (.ok (), _) => ∃ report, told = some (.ok report) ∧
          Performed (UnitMove.registered moves) u.staged before.store.table report log
      | .commit, (.error e, _) =>
          told = some (.error e) ∧ log = [] ∧ after.store.table = before.store.table
      | _, _ => told = none ∧ log = [] ∧ after = before := by
  have distinct := distinct_prepare d moves
  have deferred := deferred_prepare d moves
  generalize prepare d moves = s at distinct deferred
  obtain ⟨u, before⟩ := s
  dsimp only at distinct deferred ⊢
  cases exit with
  | rollback => exact ⟨[], rfl, rfl, rfl, rfl, rfl⟩
  | drop => exact ⟨[], rfl, rfl, rfl, rfl, rfl⟩
  | commit =>
      dsimp only [UnitHandle.close, handle, UnitHandle.discard]
      rcases hc : before.store.commit u.staged with ⟨e | ⟨⟩, store⟩
      · rw [commit_of_error perform hc, commit_of_error perform.watched (d := before.beside []) hc]
        refine ⟨[], rfl, rfl, rfl, rfl, ?_⟩
        rcases before.store.commit_cases u.staged with ⟨-, ok⟩ | ⟨-, e, refused⟩
        · cases ok.symm.trans hc
        · cases refused.symm.trans hc
          rfl
      · rw [commit_of_ok perform hc, commit_of_ok perform.watched (d := before.beside []) hc]
        obtain ⟨total, failed⟩ := perform.report_runAll u.deferred .zero { before with store }
        refine ⟨perform.invocations u.deferred { before with store }, ?_, rfl, _, rfl,
          ?_, ?_, ?_, ?_⟩
        · dsimp only
          rw [← List.nil_append (perform.invocations u.deferred { before with store })]
          exact congrArg (fun r => (some (Except.ok r.1), (⟨none, []⟩ : UnitHandle α), r.2))
            (perform.runAll_watched u.deferred .zero { before with store } [])
        · rw [perform.map_action_invocations, deferred]
        · intro first hf
          rw [perform.table_of_mem_head? hf]
          exact Store.gains_of_commit distinct hc
        · rw [total, ← deferred]
          exact Nat.zero_add _
        · rw [failed]
          exact Nat.zero_add _

end UnitOfWork

end DurableMessaging
