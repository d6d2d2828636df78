import DurableMessaging.Broker.Basic
import DurableMessaging.Cache.Basic
import DurableMessaging.Consumer.Engine
import DurableMessaging.Store.Settler

/-!
# Deployments

One store, one broker and one cache with the components that share them, and a clock. Components
reach the broker through a gateway, which may be any behaviour at all; the in-memory gateway passes
every call to the broker and hands each confirm to the callback it belongs to.
-/

namespace DurableMessaging

/-- What is done with the confirm of a publish. -/
inductive ConfirmCallback where
  /-- A settler applies it to the row that was published. -/
  | settle (settler : Nat) (row : RowId)
  | ignore
  /-- It is kept for inspection. -/
  | keep
  /-- It reaches another callback with another correlation. -/
  | relabel (correlation : Option RowId) (callback : ConfirmCallback)
  deriving DecidableEq, Repr

/-- The state of a deployment; `rig` is whatever else its gateway and cache clients need. -/
structure Deployment (ρ : Type) where
  now : Instant
  store : Store
  broker : Broker ConfirmCallback
  cache : Cache
  settlers : List Settler
  engines : List Engine
  /-- Message ids drawn so far. -/
  draws : Nat
  /-- Confirms kept for inspection, the oldest first. -/
  confirms : List Confirm
  rig : ρ

namespace Deployment

variable {ρ : Type}

/-- An empty deployment whose rows are numbered from `first` on. -/
def start (now : Instant) (first : RowId) (rig : ρ) : Deployment ρ where
  now := now
  store := .startingAt first
  broker := .empty
  cache := .empty
  settlers := []
  engines := []
  draws := 0
  confirms := []
  rig := rig

def addSettler (d : Deployment ρ) (policy : AckPolicy) : Nat × Deployment ρ :=
  (d.settlers.length, { d with settlers := d.settlers ++ [.new policy] })

def addEngine (d : Deployment ρ) (e : Engine) : Nat × Deployment ρ :=
  (d.engines.length, { d with engines := d.engines ++ [e] })

/-- Lets a settler apply a confirm for a publish of row `expected`. -/
def settleConfirm (d : Deployment ρ) (settler : Nat) (expected : RowId) (confirm : Confirm) :
    Deployment ρ :=
  match d.settlers[settler]? with
  | none => d
  | some s =>
    let (s, store) := s.handle d.store expected confirm
    { d with store, settlers := d.settlers.set settler s }

/-- Hands a confirm to a callback. -/
def fire (d : Deployment ρ) : ConfirmCallback → Confirm → Deployment ρ
  | .settle settler row, confirm => d.settleConfirm settler row confirm
  | .ignore, _ => d
  | .keep, confirm => { d with confirms := d.confirms ++ [confirm] }
  | .relabel correlation callback, confirm => d.fire callback { confirm with correlation }

/-- Fires every held confirm as an ack or a nack, the oldest first, and tells how many there were.
Confirms held meanwhile stay held. -/
def settleHeld (d : Deployment ρ) (ack : Bool) : Nat × Deployment ρ :=
  let (due, broker) := d.broker.releaseConfirms ack
  (due.length, due.foldl (fun d (callback, confirm) => d.fire callback confirm) { d with broker })

/-- Forgets every held confirm, and tells how many there were. -/
def loseHeld (d : Deployment ρ) : Nat × Deployment ρ :=
  (d.broker.held.length, { d with broker := d.broker.loseConfirms })

/-- One call to the cache. -/
def callCache (call : CacheCall) (d : Deployment ρ) : Except CacheError call.Answer × Deployment ρ :=
  let (answer, cache) := d.cache.perform d.now call
  (answer, { d with cache })

/-- Settles a delivery of a queue. -/
def settle (queue : String) (tag : DeliveryTag) (s : Settlement) (d : Deployment ρ) :
    Except BrokerError Unit × Deployment ρ :=
  match d.broker.settle queue tag s with
  | .ok broker => (.ok (), { d with broker })
  | .error e => (.error e, d)

end Deployment

/-- How components reach the broker. -/
structure Gateway (ρ : Type) where
  declare : Topology → Deployment ρ → Reply BrokerError Unit × Deployment ρ
  publish :
    OutboundMessage → ConfirmCallback → Deployment ρ → Reply BrokerError Unit × Deployment ρ
  /-- The ids of the workers that were started. -/
  startConsumer : ConsumerSpec → Deployment ρ → Reply BrokerError (List WorkerId) × Deployment ρ

namespace Gateway

variable {ρ : Type}

/-- The gateway to the deployment's own broker. -/
def inMemory : Gateway ρ where
  declare t d :=
    match d.broker.declare t with
    | .ok broker => (.returned (), { d with broker })
    | .error e => (.failed e, d)
  publish m callback d :=
    match d.broker.publish m callback with
    | .error e => (.failed e, d)
    | .ok p =>
      let d := { d with broker := p.broker }
      match p.confirm with
      | none => (.returned (), d)
      | some (callback, confirm) => (.returned (), d.fire callback confirm)
  startConsumer spec d :=
    match d.broker.startConsumer spec with
    | .ok (ids, broker) => (.returned ids, { d with broker })
    | .error e => (.failed e, d)

end Gateway

end DurableMessaging
