import DurableMessaging.Resend.Pass
import DurableMessaging.Sender.Basic

/-!
# Runs of an outbox and what happens in them

An outbox is a deployment with the units of work that are open and the passes that are under way. A
run is a list of moves, each an operation of a client or a switch; beside it goes the history of
what happened to rows, publishes and confirms.
-/

namespace DurableMessaging

variable {ρ : Type}

/-! ## Histories -/

inductive OutboxEvent where
  | allocated (id : RowId)
  | committed (row : Row)
  /-- The row's unit of work was rolled back or dropped, or its commit failed. -/
  | discarded (row : Row)
  /-- The broker took a publish; the callback is to get its confirm. -/
  | accepted (m : OutboundMessage) (callback : ConfirmCallback)
  | fired (callback : ConfirmCallback) (confirm : Confirm)
  deriving DecidableEq

/-- What happened, the oldest first. -/
abbrev History := List OutboxEvent

namespace History

def allocations (h : History) : Nat :=
  h.countP fun | .allocated _ => true | _ => false

def committed (h : History) : List Row :=
  h.filterMap fun | .committed row => some row | _ => none

def discarded (h : History) : List Row :=
  h.filterMap fun | .discarded row => some row | _ => none

/-- How many publishes were taken whose confirms go to a callback. -/
def acceptances (h : History) (callback : ConfirmCallback) : Nat :=
  h.countP fun | .accepted _ c => c == callback | _ => false

def firings (h : History) (callback : ConfirmCallback) : Nat :=
  h.countP fun | .fired c _ => c == callback | _ => false

end History

/-- The firing of a confirm that is due. -/
def OutboxEvent.ofDue (c : ConfirmCallback × Confirm) : OutboxEvent := .fired c.1 c.2

/-- What happens when a row is published. -/
def Deployment.publishEvents (d : Deployment ρ) (settler : Nat) (row : Row) : History :=
  match d.broker.declare row.topology with
  | .error _ => []
  | .ok b =>
    match b.publish row.message (.settle settler row.id) with
    | .error _ => []
    | .ok p => .accepted row.message (.settle settler row.id) :: p.confirm.toList.map .ofDue

/-- What happens when announcements are performed one after another. -/
def Deployment.announceEvents : List Announcement → Deployment ρ → History
  | [], _ => []
  | a :: as, d => d.publishEvents a.settler a.row ++ announceEvents as (a.perform .inMemory d).2

def UnitOfWork.commitEvents (u : UnitOfWork Announcement) (d : Deployment ρ) : History :=
  match d.store.commit u.staged with
  | (.error _, _) => u.staged.map .discarded
  | (.ok (), store) => u.staged.map .committed ++ Deployment.announceEvents u.deferred { d with store }

/-- What happens when an id is asked for. -/
def Store.allocateEvents (s : Store) : History :=
  match s.allocateId with
  | .error _ => []
  | .ok (id, _) => [.allocated id]

def Sender.trySendEvents (s : Sender) (draft : Draft) (d : Deployment ρ) : History :=
  match s.sendIn id .empty draft d with
  | (.error _, _) => d.store.allocateEvents
  | (.ok (_, u), d') => d.store.allocateEvents ++ u.commitEvents d'

/-- The rows that a pass is about to visit. -/
def PassPhase.rows : PassPhase → List Row
  | .query _ => []
  | .walk rows _ _ => rows

/-- The rows that a pass is about to visit after a step. -/
def PassStep.rows : PassStep → List Row
  | .next p => p.phase.rows
  | .ended _ => []

namespace Pass

def stepEvents (r : Resender) (p : Pass) (d : Deployment ρ) : History :=
  match p.phase with
  | .walk (row :: _) _ _ => if row.age d.now < r.minAge then [] else d.publishEvents r.settler row
  | _ => []

/-- What happens until the pass ends. -/
def events (r : Resender) (p : Pass) (d : Deployment ρ) : History :=
  stepEvents r p d ++
    match _h : step .inMemory r p d with
    | (.ended _, _) => []
    | (.next p, d) => p.events r d
termination_by p.measure
decreasing_by exact measure_step _h

theorem events_of_ended {r : Resender} {p : Pass} {d d' : Deployment ρ}
    {outcome : Reply StoreError PassReport} (h : step .inMemory r p d = (.ended outcome, d')) :
    p.events r d = stepEvents r p d := by
  rw [events]
  split
  · exact List.append_nil _
  · rename_i hn
    rw [h] at hn
    cases hn

theorem events_of_next {r : Resender} {p p' : Pass} {d d' : Deployment ρ}
    (h : step .inMemory r p d = (.next p', d')) :
    p.events r d = stepEvents r p d ++ p'.events r d' := by
  rw [events]
  split
  · rename_i he
    rw [h] at he
    cases he
  · rename_i hn
    rw [h] at hn
    cases hn
    rfl

end Pass

/-! ## Runs -/

structure Outbox (ρ : Type) where
  deployment : Deployment ρ
  /-- The open units of work. -/
  units : List (UnitOfWork Announcement)
  /-- The passes under way that other clients may interrupt. -/
  passes : List (Resender × Pass)

inductive OutboxMove where
  | addSettler (policy : AckPolicy)
  | openUnit
  | stage (unit : Nat) (sender : Sender) (draft : Draft)
  | commit (unit : Nat)
  /-- A unit is rolled back or dropped. -/
  | discard (unit : Nat)
  | trySend (sender : Sender) (draft : Draft)
  | pass (resender : Resender)
  | startPass (resender : Resender)
  | stepPass (pass : Nat)
  | setConfirmMode (mode : ConfirmMode)
  | settleHeld (ack : Bool)
  | loseHeld
  | setStoreAvailable (available : Bool)
  | setBrokerAvailable (available : Bool)
  | failNextCommit
  | setClock (now : Instant)

namespace Outbox

def start (now : Instant) (first : RowId) (rig : ρ) : Outbox ρ := ⟨.start now first rig, [], []⟩

/-- The outbox after a move; one that names no open unit or pass changes nothing. -/
def step (o : Outbox ρ) : OutboxMove → Outbox ρ
  | .addSettler policy => { o with deployment := (o.deployment.addSettler policy).2 }
  | .openUnit =>
    match UnitOfWork.start o.deployment.store with
    | .error _ => o
    | .ok u => { o with units := o.units ++ [u] }
  | .stage unit sender draft =>
    match o.units[unit]? with
    | none => o
    | some u =>
      match sender.sendIn id u draft o.deployment with
      | (.error _, d) => { o with deployment := d }
      | (.ok (_, u), d) => { o with deployment := d, units := o.units.set unit u }
  | .commit unit =>
    match o.units[unit]? with
    | none => o
    | some u =>
      { o with
        deployment := (u.commit (Announcement.perform .inMemory) o.deployment).2
        units := o.units.eraseIdx unit }
  | .discard unit => { o with units := o.units.eraseIdx unit }
  | .trySend sender draft =>
    { o with deployment := (sender.trySend .inMemory draft o.deployment).2 }
  | .pass resender => { o with deployment := (resender.pass .inMemory o.deployment).2 }
  | .startPass resender => { o with passes := o.passes ++ [(resender, .start)] }
  | .stepPass pass =>
    match o.passes[pass]? with
    | none => o
    | some (r, p) =>
      match p.step .inMemory r o.deployment with
      | (.next p, d) => { o with deployment := d, passes := o.passes.set pass (r, p) }
      | (.ended _, d) => { o with deployment := d, passes := o.passes.eraseIdx pass }
  | .setConfirmMode mode => { o with deployment.broker.confirmMode := mode }
  | .settleHeld ack => { o with deployment := (o.deployment.settleHeld ack).2 }
  | .loseHeld => { o with deployment := o.deployment.loseHeld.2 }
  | .setStoreAvailable available => { o with deployment.store.available := available }
  | .setBrokerAvailable available => { o with deployment.broker.available := available }
  | .failNextCommit => { o with deployment.store.failsNextCommit := true }
  | .setClock now => { o with deployment.now := now }

/-- What happens in a move. -/
def events (o : Outbox ρ) : OutboxMove → History
  | .stage unit _ _ =>
    match o.units[unit]? with
    | none => []
    | some _ => o.deployment.store.allocateEvents
  | .commit unit =>
    match o.units[unit]? with
    | none => []
    | some u => u.commitEvents o.deployment
  | .discard unit =>
    match o.units[unit]? with
    | none => []
    | some u => u.staged.map .discarded
  | .trySend sender draft => sender.trySendEvents draft o.deployment
  | .pass resender => Pass.start.events resender o.deployment
  | .stepPass pass =>
    match o.passes[pass]? with
    | none => []
    | some (r, p) => p.stepEvents r o.deployment
  | .settleHeld ack => (o.deployment.broker.releaseConfirms ack).1.map .ofDue
  | _ => []

end Outbox

/-- An outbox with its history. -/
structure Chronicle (ρ : Type) where
  outbox : Outbox ρ
  history : History

namespace Chronicle

def step (c : Chronicle ρ) (m : OutboxMove) : Chronicle ρ :=
  ⟨c.outbox.step m, c.history ++ c.outbox.events m⟩

/-- The moves of a run, from an outbox with an empty table. -/
def run (now : Instant) (first : RowId) (rig : ρ) (moves : List OutboxMove) : Chronicle ρ :=
  moves.foldl step ⟨.start now first rig, []⟩

theorem outbox_run (now : Instant) (first : RowId) (rig : ρ) (moves : List OutboxMove) :
    (run now first rig moves).outbox = moves.foldl .step (.start now first rig) := by
  suffices h : ∀ c : Chronicle ρ, (moves.foldl step c).outbox = moves.foldl .step c.outbox from h _
  induction moves with
  | nil => exact fun _ => rfl
  | cons m moves ih => exact fun c => ih (c.step m)

end Chronicle

end DurableMessaging
