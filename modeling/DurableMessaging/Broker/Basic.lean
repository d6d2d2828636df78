import DurableMessaging.Broker.Message
import DurableMessaging.Registry

/-!
# The broker

Exchanges, queues and bindings in memory. A publish puts one copy on every queue it is routed to
and is then confirmed at once or later; a worker takes copies from the front of its queue and
settles each under its tag. What a worker leaves unsettled goes back to the front.

The broker does not know what a publisher does with a confirm: it keeps a callback of any type and
hands it back with the confirm when one is due.
-/

namespace DurableMessaging

/-- One copy of a message on a queue. -/
structure Copy where
  exchange : String
  routingKey : String
  messageId : Option String
  payload : ByteArray
  /-- Whether it has been handed out before. -/
  redelivered : Bool
  deriving DecidableEq

/-- Workers are numbered without bound; there are never as many as a word of 64 bits can count. -/
abbrev WorkerId := Nat

/-- A copy handed to a worker and not yet settled. -/
structure Outstanding where
  tag : DeliveryTag
  worker : WorkerId
  copy : Copy
  deriving DecidableEq

structure Queue where
  /-- The front first. -/
  ready : List Copy
  /-- The latest delivery last. -/
  unacked : List Outstanding
  deadLetters : List Copy
  deriving DecidableEq

structure Binding where
  exchange : String
  queue : String
  pattern : String
  deriving DecidableEq, Repr

/-- When a publish is confirmed: at once with an ack or a nack, or on request. -/
inductive ConfirmMode where
  | ack
  | nack
  | hold
  deriving DecidableEq, Repr

structure HeldConfirm (κ : Type) where
  correlation : Option RowId
  callback : κ
  deriving DecidableEq, Repr

structure PublishRecord where
  exchange : String
  routingKey : String
  messageId : String
  correlation : Option RowId
  routedTo : List String
  deriving DecidableEq, Repr

structure SettlementRecord where
  tag : DeliveryTag
  queue : String
  messageId : Option String
  settlement : Settlement
  deriving DecidableEq, Repr

/-- A running reader of a queue. -/
structure Worker where
  id : WorkerId
  queue : String
  prefetch : Nat
  deriving DecidableEq, Repr

structure Broker (κ : Type) where
  exchanges : Registry ExchangeType
  queues : Registry Queue
  bindings : List Binding
  workers : List Worker
  nextTag : DeliveryTag
  nextWorker : WorkerId
  available : Bool
  confirmMode : ConfirmMode
  /-- The oldest first. -/
  held : List (HeldConfirm κ)
  /-- Every accepted publish, the oldest first. -/
  published : List PublishRecord
  /-- Every settled delivery, the oldest first. -/
  settlements : List SettlementRecord

/-! ## Queues -/

namespace Copy

def asRedelivered (c : Copy) : Copy := { c with redelivered := true }

end Copy

namespace Queue

def empty : Queue := ⟨[], [], []⟩

def push (q : Queue) (c : Copy) : Queue := { q with ready := q.ready ++ [c] }

/-- How many deliveries a worker has not settled. -/
def heldBy (q : Queue) (worker : WorkerId) : Nat :=
  (q.unacked.filter (·.worker == worker)).length

/-- Hands the front copy to a worker. Whatever is outstanding under the same tag is forgotten. -/
def take? (q : Queue) (worker : WorkerId) (tag : DeliveryTag) : Option (Copy × Queue) :=
  match q.ready with
  | [] => none
  | c :: ready =>
    some (c, { q with ready, unacked := q.unacked.filter (·.tag != tag) ++ [⟨tag, worker, c⟩] })

/-- Ends a delivery. The queue is unchanged if the tag is not outstanding. -/
def settle? (q : Queue) (tag : DeliveryTag) (s : Settlement) : Option (Copy × Queue) :=
  match q.unacked.find? (·.tag == tag) with
  | none => none
  | some o =>
    let q := { q with unacked := q.unacked.filter (·.tag != tag) }
    some (o.copy,
      match s with
      | .ack => q
      | .requeue => { q with ready := o.copy.asRedelivered :: q.ready }
      | .reject => { q with deadLetters := q.deadLetters ++ [o.copy] })

/-- Puts what a worker has not settled back to the front. Several copies come back in the order in
which they were handed out, but nobody is to rely on an order among them. -/
def recover (q : Queue) (worker : WorkerId) : Queue :=
  { q with
    ready := (q.unacked.filter (·.worker == worker)).map (·.copy.asRedelivered) ++ q.ready
    unacked := q.unacked.filter (·.worker != worker) }

end Queue

/-! ## Routing -/

/-- Adds a name to a strictly ascending list. -/
def insertName (name : String) : List String → List String
  | [] => [name]
  | n :: names =>
    if name < n then name :: n :: names
    else if name = n then n :: names
    else n :: insertName name names

/-- Names in strictly ascending order, each once. -/
def sortNames (names : List String) : List String := names.foldr insertName []

@[simp] theorem mem_insertName {name n : String} {names : List String} :
    n ∈ insertName name names ↔ n = name ∨ n ∈ names := by
  induction names with
  | nil => simp [insertName]
  | cons m names ih =>
    unfold insertName
    split
    · simp
    · split
      · rename_i h
        simp [h]
      · simp only [List.mem_cons, ih]
        exact or_left_comm

@[simp] theorem mem_sortNames {n : String} {names : List String} :
    n ∈ sortNames names ↔ n ∈ names := by
  induction names with
  | nil => rfl
  | cons m names ih =>
    rw [List.mem_cons, ← ih]
    exact mem_insertName

theorem pairwise_insertName {name : String} {names : List String}
    (h : names.Pairwise (· < ·)) : (insertName name names).Pairwise (· < ·) := by
  induction names with
  | nil => exact List.pairwise_singleton _ _
  | cons m names ih =>
    obtain ⟨hm, hnames⟩ := List.pairwise_cons.mp h
    unfold insertName
    split
    · rename_i hlt
      refine List.pairwise_cons.mpr ⟨fun n hn => ?_, h⟩
      rcases List.mem_cons.mp hn with rfl | hn
      · exact hlt
      · exact String.lt_trans hlt (hm n hn)
    · split
      · exact h
      · rename_i hnlt hne
        refine List.pairwise_cons.mpr ⟨fun n hn => ?_, ih hnames⟩
        rcases mem_insertName.mp hn with rfl | hn
        · exact String.not_le.mp fun hle => hne (String.le_antisymm hle (String.not_lt.mp hnlt))
        · exact hm n hn

theorem pairwise_sortNames (names : List String) : (sortNames names).Pairwise (· < ·) := by
  induction names with
  | nil => exact List.Pairwise.nil
  | cons m names ih => exact pairwise_insertName ih

theorem nodup_sortNames (names : List String) : (sortNames names).Nodup := by
  refine (pairwise_sortNames names).imp ?_
  rintro n _ hlt rfl
  exact String.lt_irrefl n hlt

namespace Broker

variable {κ : Type}

def empty : Broker κ where
  exchanges := .empty
  queues := .empty
  bindings := []
  workers := []
  nextTag := 1
  nextWorker := 0
  available := true
  confirmMode := .ack
  held := []
  published := []
  settlements := []

/-- The queues that a publish on an exchange reaches. -/
def targets (b : Broker κ) (exchange : String) (t : ExchangeType) (key : String) : List String :=
  sortNames
    ((b.bindings.filter fun x => x.exchange == exchange && t.routes x.pattern key).map (·.queue))

def ensureAvailable (b : Broker κ) : Except BrokerError Unit :=
  if b.available then .ok () else .error (.unavailable "in-memory broker switched off")

/-! ## Topology -/

def addExchange (b : Broker κ) (name : String) (t : ExchangeType) :
    Except BrokerError (Broker κ) :=
  match b.exchanges.get? name with
  | none => .ok { b with exchanges := b.exchanges.insert name t }
  | some known =>
    if known = t then .ok b
    else
      .error (.topologyConflict
        ("exchange " ++ name ++ " already declared as " ++ known.name ++ ", not " ++ t.name))

/-- Adds a queue and its binding, each unless it is there. -/
def bind (b : Broker κ) (x : Binding) : Broker κ :=
  { b with
    queues := if b.queues.contains x.queue then b.queues else b.queues.insert x.queue .empty
    bindings := if x ∈ b.bindings then b.bindings else b.bindings ++ [x] }

def declare (b : Broker κ) (t : Topology) : Except BrokerError (Broker κ) := do
  b.ensureAvailable
  let b ← b.addExchange t.exchange t.exchangeType
  match t.queue with
  | none => return b
  | some queue => return b.bind ⟨t.exchange, queue, t.routingKey⟩

/-! ## Publishing -/

/-- Puts a copy at the back of each of some queues. -/
def pushAll (b : Broker κ) (queues : List String) (c : Copy) : Broker κ :=
  { b with queues := queues.foldl (fun r name => r.modify name (·.push c)) b.queues }

/-- What a publish leads to: the broker after it, and the confirm if it is due at once. -/
structure Published (κ : Type) where
  broker : Broker κ
  confirm : Option (κ × Confirm)

def accept (b : Broker κ) (m : OutboundMessage) (t : ExchangeType) : Broker κ :=
  let routedTo := b.targets m.exchange t m.routingKey
  let b := b.pushAll routedTo ⟨m.exchange, m.routingKey, some m.messageId, m.payload, false⟩
  { b with
    published :=
      b.published ++ [⟨m.exchange, m.routingKey, m.messageId, m.correlation, routedTo⟩] }

def publish (b : Broker κ) (m : OutboundMessage) (callback : κ) :
    Except BrokerError (Published κ) := do
  b.ensureAvailable
  match b.exchanges.get? m.exchange with
  | none => throw (.unknownExchange m.exchange)
  | some t =>
    let b := b.accept m t
    match b.confirmMode with
    | .ack => return ⟨b, some (callback, .ofAck m.correlation true)⟩
    | .nack => return ⟨b, some (callback, .ofAck m.correlation false)⟩
    | .hold => return ⟨{ b with held := b.held ++ [⟨m.correlation, callback⟩] }, none⟩

/-- Gives out every held confirm, the oldest first, as acks or nacks. -/
def releaseConfirms (b : Broker κ) (ack : Bool) : List (κ × Confirm) × Broker κ :=
  (b.held.map fun h => (h.callback, .ofAck h.correlation ack), { b with held := [] })

/-- Forgets every held confirm, as a lost connection does. -/
def loseConfirms (b : Broker κ) : Broker κ := { b with held := [] }

/-- Puts a message straight onto a queue. -/
def enqueue (b : Broker κ) (queue : String) (messageId : Option String) (payload : ByteArray) :
    Except BrokerError (Broker κ) :=
  if b.queues.contains queue then
    .ok (b.pushAll [queue] ⟨"", queue, messageId, payload, false⟩)
  else .error (.unknownQueue queue)

/-! ## Consuming -/

/-- Starts the workers of a consumer; their ids are consecutive. -/
def startConsumer (b : Broker κ) (spec : ConsumerSpec) :
    Except BrokerError (List WorkerId × Broker κ) := do
  b.ensureAvailable
  if spec.concurrency = 0 then throw (.invalidSpec "concurrency must be at least 1")
  if spec.prefetch = 0 then throw (.invalidSpec "prefetch must be at least 1")
  if !b.queues.contains spec.queue then throw (.unknownQueue spec.queue)
  let ids := List.range' b.nextWorker spec.concurrency
  return (ids,
    { b with
      workers := b.workers ++ ids.map (⟨·, spec.queue, spec.prefetch⟩)
      nextWorker := b.nextWorker + spec.concurrency })

def worker? (b : Broker κ) (id : WorkerId) : Option Worker := b.workers.find? (·.id == id)

/-- Hands a worker its next delivery: the front of its queue, if the broker is available and the
worker may hold one more. -/
def take? (b : Broker κ) (id : WorkerId) : Option (Delivery × Broker κ) :=
  if b.available then do
    let w ← b.worker? id
    let q ← b.queues.get? w.queue
    if q.heldBy id < w.prefetch then do
      let (c, q) ← q.take? id b.nextTag
      some
        (⟨b.nextTag, w.queue, c.exchange, c.routingKey, c.messageId, c.payload, c.redelivered⟩,
          { b with queues := b.queues.insert w.queue q, nextTag := b.nextTag + 1 })
    else none
  else none

def settle (b : Broker κ) (queue : String) (tag : DeliveryTag) (s : Settlement) :
    Except BrokerError (Broker κ) :=
  match b.queues.get? queue with
  | none => .error (.unknownQueue queue)
  | some q =>
    match q.settle? tag s with
    | none => .error (.unknownDeliveryTag tag)
    | some (c, q) =>
      .ok
        { b with
          queues := b.queues.insert queue q
          settlements := b.settlements ++ [⟨tag, queue, c.messageId, s⟩] }

/-- Takes back what a worker has not settled. -/
def recover (b : Broker κ) (id : WorkerId) : Broker κ :=
  match b.worker? id with
  | none => b
  | some w => { b with queues := b.queues.modify w.queue (·.recover id) }

/-- Ends a worker. -/
def endWorker (b : Broker κ) (id : WorkerId) : Broker κ :=
  let b := b.recover id
  { b with workers := b.workers.filter (·.id != id) }

/-! ## Inspection -/

def queue (b : Broker κ) (name : String) : Queue := (b.queues.get? name).getD .empty

def publishCount (b : Broker κ) (messageId : String) : Nat :=
  (b.published.filter (·.messageId == messageId)).length

end Broker

end DurableMessaging
