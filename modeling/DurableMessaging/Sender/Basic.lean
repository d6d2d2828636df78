import DurableMessaging.Sender.MessageId
import DurableMessaging.Sender.Publisher
import DurableMessaging.UnitOfWork

/-!
# Senders

A message is accepted once its row is stored. Publishing it is tried right after the commit, and
whether that works has no part in the answer.
-/

namespace DurableMessaging

/-- What a caller says about a message. -/
structure Draft where
  exchange : String
  routingKey : String
  payload : String
  queue : Option String
  /-- The sender's own type if none is given. -/
  exchangeType : Option ExchangeType
  appType : Option String
  deriving DecidableEq, Repr

structure Sender where
  /-- Gets the confirms of this sender's rows. -/
  settler : Nat
  exchangeType : ExchangeType
  deriving DecidableEq, Repr

namespace Sender

variable {ρ α : Type}

/-- A sender as its settings say, with a settler of its own. -/
def ofSettings (s : SenderSettings) (d : Deployment ρ) : Sender × Deployment ρ :=
  let (settler, d) := d.addSettler s.ackPolicy
  (⟨settler, s.exchangeType⟩, d)

def withExchangeType (s : Sender) (t : ExchangeType) : Sender := { s with exchangeType := t }

def withSettler (s : Sender) (settler : Nat) : Sender := { s with settler }

/-- The pending row for a draft. -/
def row (s : Sender) (draft : Draft) (id : RowId) (messageId : String) (now : Instant) : Row where
  id := id
  messageId := messageId
  payload := draft.payload
  createdAt := (now : Int)
  exchange := draft.exchange
  routingKey := draft.routingKey
  queue := draft.queue
  exchangeType := draft.exchangeType.getD s.exchangeType
  appType := draft.appType
  status := .pending

/-- Stages a message in a caller's unit of work, to be published once that commits. An id is used
up even if the row is then refused. -/
def sendIn (s : Sender) (announce : Announcement → α) (u : UnitOfWork α) (draft : Draft)
    (d : Deployment ρ) : Except SendError (RowId × UnitOfWork α) × Deployment ρ :=
  match d.store.allocateId with
  | .error e => (.error ⟨e⟩, d)
  | .ok (id, store) =>
    let row := s.row draft id (MessageId.ofDraw d.draws) d.now
    let d := { d with store, draws := d.draws + 1 }
    match u.stage d.store row with
    | .error e => (.error ⟨e⟩, d)
    | .ok u => (.ok (id, u.defer (announce ⟨s.settler, row⟩)), d)

/-- Accepts a message in a unit of work of its own. -/
def trySend (s : Sender) (g : Gateway ρ) (draft : Draft) (d : Deployment ρ) :
    Except SendError RowId × Deployment ρ :=
  match UnitOfWork.start d.store with
  | .error e => (.error ⟨e⟩, d)
  | .ok u =>
    match s.sendIn id u draft d with
    | (.error e, d) => (.error e, d)
    | (.ok (id, u), d) =>
      match u.commit (Announcement.perform g) d with
      | (.error e, d) => (.error ⟨e⟩, d)
      | (.ok _, d) => (.ok id, d)

/-- Accepts a message and tells whether that worked. -/
def send (s : Sender) (g : Gateway ρ) (draft : Draft) (d : Deployment ρ) : Bool × Deployment ρ :=
  match s.trySend g draft d with
  | (.ok _, d) => (true, d)
  | (.error _, d) => (false, d)

/-- Publishes a message without a row, and tells whether the broker took it. -/
def sendUnstored (s : Sender) (g : Gateway ρ) (exchange routingKey payload : String)
    (d : Deployment ρ) : Reply Empty Bool × Deployment ρ :=
  match g.declare (.ofExchange exchange s.exchangeType) d with
  | (.crashed, d) => (.crashed, d)
  | (.failed _, d) => (.returned false, d)
  | (.returned (), d) =>
    let m : OutboundMessage :=
      ⟨exchange, routingKey, MessageId.ofDraw d.draws, payload.toUTF8, none⟩
    match g.publish m .ignore { d with draws := d.draws + 1 } with
    | (.crashed, d) => (.crashed, d)
    | (.failed _, d) => (.returned false, d)
    | (.returned (), d) => (.returned true, d)

end Sender

end DurableMessaging
