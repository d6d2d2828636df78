import DurableMessaging.Row.Basic

/-!
# Messages and confirms

What passes between a broker and its clients: messages to publish, the confirms that answer them,
deliveries to consumers and how those are settled.
-/

namespace DurableMessaging

/-- Payloads are compared byte by byte. -/
instance decEqPayload : DecidableEq ByteArray := ByteArray.decEq

/-- A message on its way to the broker. -/
structure OutboundMessage where
  exchange : String
  routingKey : String
  messageId : String
  payload : ByteArray
  /-- The row that the message was accepted as, if any. -/
  correlation : Option RowId
  deriving DecidableEq

inductive ConfirmOutcome where
  | ack
  | nack (reason : String)
  deriving DecidableEq, Repr

/-- The broker's answer to one publish. -/
structure Confirm where
  correlation : Option RowId
  outcome : ConfirmOutcome
  deriving DecidableEq, Repr

/-- The confirm for a publish that the broker took, or did not. -/
def Confirm.ofAck (correlation : Option RowId) (ack : Bool) : Confirm :=
  ⟨correlation, if ack then .ack else .nack "nacked by broker"⟩

/-- Names one delivery to the broker. -/
abbrev DeliveryTag := UInt64

/-- A message handed to a worker. -/
structure Delivery where
  tag : DeliveryTag
  queue : String
  exchange : String
  routingKey : String
  messageId : Option String
  payload : ByteArray
  /-- Whether it has been handed out before. -/
  redelivered : Bool
  deriving DecidableEq

/-- What the broker does with a delivery. -/
inductive Settlement where
  | ack
  | requeue
  | reject
  deriving DecidableEq, Repr

/-- What a consumer decides about a delivery. -/
inductive Action where
  | accept
  | retry
  | reject
  deriving DecidableEq, Repr

namespace Action

def name : Action → String
  | .accept => "accept"
  | .retry => "retry"
  | .reject => "reject"

def ofName? : String → Option Action
  | "accept" => some .accept
  | "retry" => some .retry
  | "reject" => some .reject
  | _ => none

/-- Holds until a decision is reached, so an undecided delivery comes back. -/
def initial : Action := .retry

def settlement : Action → Settlement
  | .accept => .ack
  | .retry => .requeue
  | .reject => .reject

end Action

/-- How a consumer wants to read a queue. -/
structure ConsumerSpec where
  queue : String
  concurrency : Nat
  /-- Unsettled deliveries that one worker may hold. -/
  prefetch : Nat
  deriving DecidableEq, Repr

/-- Where a consumer reads from. -/
structure ConsumeTarget where
  exchange : String
  routingKey : String
  queue : String
  exchangeType : ExchangeType
  deriving DecidableEq, Repr

namespace ConsumeTarget

/-- A target on an exchange of the usual type. -/
def of (exchange routingKey queue : String) : ConsumeTarget := ⟨exchange, routingKey, queue, .usual⟩

def topology (t : ConsumeTarget) : Topology :=
  ⟨t.exchange, t.exchangeType, some t.queue, t.routingKey⟩

end ConsumeTarget

end DurableMessaging
