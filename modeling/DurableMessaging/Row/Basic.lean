import DurableMessaging.Error
import DurableMessaging.Exchange
import DurableMessaging.Text.Decimal
import DurableMessaging.Time

/-!
# Outbox rows

A row holds a message that was accepted and is not yet known to have been published. Its id also
serves as the correlation between a publish and its confirm.
-/

namespace DurableMessaging

/-- The id of a row. -/
abbrev RowId := UInt64

namespace RowId

def text (id : RowId) : String := id.toNat.repr

/-- An id from its text, blanks around it ignored. -/
def read (s : String) : Except Text.IntegerError RowId := Text.word? s

/-- The row that a correlation token names. -/
def readCorrelation (s : String) : Except BrokerError RowId :=
  (read s).mapError fun _ => .invalidCorrelation s

end RowId

/-- A row is pending until its publish is confirmed. -/
inductive RowStatus where
  | pending
  | sent
  deriving DecidableEq, Repr, Inhabited

def RowStatus.name : RowStatus → String
  | .pending => "pending"
  | .sent => "sent"

def RowStatus.ofName? : String → Option RowStatus
  | "pending" => some .pending
  | "sent" => some .sent
  | _ => none

/-- What becomes of a row once its publish is confirmed. -/
inductive AckPolicy where
  | delete
  | markSent
  deriving DecidableEq, Repr, Inhabited

def AckPolicy.name : AckPolicy → String
  | .delete => "delete"
  | .markSent => "mark_sent"

def AckPolicy.ofName? : String → Option AckPolicy
  | "delete" => some .delete
  | "mark_sent" => some .markSent
  | _ => none

structure Row where
  id : RowId
  /-- Travels with the message; consumers recognise duplicates by it. -/
  messageId : String
  payload : String
  createdAt : Timestamp
  exchange : String
  routingKey : String
  queue : Option String
  exchangeType : ExchangeType
  appType : Option String
  status : RowStatus
  deriving DecidableEq, Repr

namespace Row

def isPending (row : Row) : Bool := row.status == .pending

def age (row : Row) (now : Instant) : Duration := row.createdAt.age now

/-- The topology a row is published into. -/
def topology (row : Row) : Topology :=
  ⟨row.exchange, row.exchangeType, row.queue, row.routingKey⟩

end Row

end DurableMessaging
