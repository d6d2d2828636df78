import DurableMessaging.Consumer.Worker
import DurableMessaging.Proofs.Broker.Change
import DurableMessaging.Proofs.Consumer.Bench

/-!
# A worker alone at a queue

What one worker with an engine does to a deployment by one delivery: it takes the front copy of its
queue, lets the engine decide about it at the deployment's own clock and cache, and settles it.
-/

namespace DurableMessaging

/-- The calls to a cache and to handlers, the oldest first. -/
structure Logbook where
  journal : List CallRecord
  handlings : List Handling

namespace Deployment

def bench (d : Deployment Logbook) : Bench := ⟨d.now, d.cache, d.rig.journal, d.rig.handlings⟩

def withBench (d : Deployment Logbook) (b : Bench) : Deployment Logbook :=
  { d with now := b.now, cache := b.cache, rig := ⟨b.journal, b.handlings⟩ }

end Deployment

/-- The clock and the cache of a deployment are a bench. -/
def Surroundings.deployed (around : Surroundings Bench) : Surroundings (Deployment Logbook) where
  cache call d :=
    let (reply, b) := around.cache call d.bench
    (reply, d.withBench b)
  handler payload d :=
    let (reply, b) := around.handler payload d.bench
    (reply, d.withBench b)

theorem Decision.run_deployed (around : Surroundings Bench) (p : Decision) (d : Deployment Logbook) :
    p.run around.deployed d = ((p.run around d.bench).1, d.withBench (p.run around d.bench).2) := by
  induction p generalizing d with
  | done v => rfl
  | ask call next ih => exact ih _ _
  | handle payload next ih => exact ih _ _

theorem Deployment.deliver_eq {engine : Nat} {e : Engine} {d : Deployment Logbook}
    (he : d.engines[engine]? = some e) {around : Surroundings Bench} {delivery : Delivery}
    {v : Verdict} {after : Bench} (run : (e.rule.decide delivery).run around d.bench = (v, after))
    {b : Broker ConfirmCallback}
    (settled : d.broker.settle delivery.queue delivery.tag v.action.settlement = .ok b) :
    deliver engine around.deployed delivery d = (.completed, { d.withBench after with
      broker := b
      engines := d.engines.set engine ((e.countVerdict v).countAction v.action) }) := by
  unfold deliver
  rw [he]
  dsimp only [Engine.deliver, Engine.decide]
  rw [Decision.run_deployed, run]
  dsimp only [settle, withBench]
  rw [settled]

theorem Engine.rule_countAction (e : Engine) (a : Action) : (e.countAction a).rule = e.rule := by
  cases a <;> rfl

/-! ## Turns of a worker -/

/-- A worker with an engine. The `n`-th call of a handler is answered by the `n`-th handler, and the
`n`-th call to the cache is made after the `n`-th pause. -/
structure Shift where
  worker : WorkerId
  engine : Nat
  handlers : Nat → Json.Value → Reply HandlerError Bool
  pauses : Nat → Duration

/-- A bench, and the tag of the next delivery. -/
structure Desk where
  tag : DeliveryTag
  bench : Bench

def Deployment.desk (d : Deployment Logbook) : Desk := ⟨d.broker.nextTag, d.bench⟩

/-- A queue without deliveries under way, after the front copy was taken and settled. -/
def Queue.afterFront (c : Copy) (ready deadLetters : List Copy) : Settlement → Queue
  | .ack => ⟨ready, [], deadLetters⟩
  | .requeue => ⟨c.asRedelivered :: ready, [], deadLetters⟩
  | .reject => ⟨ready, [], deadLetters ++ [c]⟩

/-- A copy as it is handed out. -/
def Copy.delivered (c : Copy) (tag : DeliveryTag) (queue : String) : Delivery :=
  ⟨tag, queue, c.exchange, c.routingKey, c.messageId, c.payload, c.redelivered⟩

theorem Queue.settle?_single (o : Outstanding) (ready deadLetters : List Copy) (s : Settlement) :
    settle? ⟨ready, [o], deadLetters⟩ o.tag s =
      some (o.copy, afterFront o.copy ready deadLetters s) := by
  have found : [o].find? (·.tag == o.tag) = some o := List.find?_cons_of_pos (beq_self_eq_true _)
  have none : [o].filter (·.tag != o.tag) = [] :=
    List.filter_cons_of_neg (by rw [bne_self_eq_false]; exact nofun)
  unfold settle?
  dsimp only
  rw [found, none]
  cases s <;> rfl

namespace Broker

variable {κ : Type} {b : Broker κ} {worker : WorkerId} {w : Worker} {c : Copy}
  {ready deadLetters : List Copy}

theorem queue_eq {queue : String} {q : Queue} (hq : b.queues.get? queue = some q) :
    b.queue queue = q := by
  unfold Broker.queue
  rw [hq]
  rfl

theorem take?_front (hw : b.worker? worker = some w) (room : 1 ≤ w.prefetch)
    (available : b.available = true)
    (hq : b.queues.get? w.queue = some ⟨c :: ready, [], deadLetters⟩) :
    b.take? worker = some (b.handOver w c ⟨ready, [⟨b.nextTag, worker, c⟩], deadLetters⟩) := by
  have admitted : b.admits w = true := by
    unfold admits
    rw [available, queue_eq hq, Bool.true_and, decide_eq_true_eq]
    exact room
  rw [take?_eq hw, if_pos admitted, queue_eq hq]
  rfl

theorem take?_empty (hw : b.worker? worker = some w)
    (hq : b.queues.get? w.queue = some ⟨[], [], deadLetters⟩) : b.take? worker = none := by
  rw [take?_eq hw, queue_eq hq]
  exact ite_self _

/-- The broker after the front of a queue was handed to a worker and settled. -/
def afterFront (b : Broker κ) (queue : String) (worker : WorkerId) (c : Copy)
    (ready deadLetters : List Copy) (s : Settlement) : Broker κ :=
  { b with
    queues := (b.queues.insert queue ⟨ready, [⟨b.nextTag, worker, c⟩], deadLetters⟩).insert queue
      (.afterFront c ready deadLetters s)
    nextTag := b.nextTag + 1
    settlements := b.settlements ++ [⟨b.nextTag, queue, c.messageId, s⟩] }

theorem settle_handOver (b : Broker κ) (w : Worker) (worker : WorkerId) (c : Copy)
    (ready deadLetters : List Copy) (s : Settlement) :
    (b.handOver w c ⟨ready, [⟨b.nextTag, worker, c⟩], deadLetters⟩).2.settle w.queue b.nextTag s =
      .ok (b.afterFront w.queue worker c ready deadLetters s) := by
  unfold settle handOver
  dsimp only
  rw [Registry.get?_insert, if_pos rfl]
  dsimp only
  rw [Queue.settle?_single ⟨b.nextTag, worker, c⟩ ready deadLetters s]
  rfl

end Broker

namespace Shift

/-- A delivery, and the handler whose turn it is. -/
def attempt (s : Shift) (b : Bench) (delivery : Delivery) : Attempt :=
  ⟨delivery, s.handlers b.handlings.length⟩

def callback (s : Shift) : DeliveryCallback Logbook := fun delivery d =>
  Deployment.deliver s.engine ((s.attempt d.bench delivery).surroundings s.pauses).deployed delivery d

def turn? (s : Shift) (d : Deployment Logbook) : Option (Deployment Logbook) :=
  d.turn? s.callback s.worker

/-- The deployment after some deliveries, if there are as many. -/
def turns (s : Shift) : Nat → Deployment Logbook → Option (Deployment Logbook)
  | 0, d => some d
  | n + 1, d => (s.turn? d).bind (s.turns n)

theorem turns_add (s : Shift) (m n : Nat) (d : Deployment Logbook) :
    s.turns (m + n) d = (s.turns m d).bind (s.turns n) := by
  induction m generalizing d with
  | zero => rw [Nat.zero_add]; rfl
  | succ m ih =>
      rw [Nat.succ_add]
      change (s.turn? d).bind (s.turns (m + n)) = ((s.turn? d).bind (s.turns m)).bind (s.turns n)
      rw [Option.bind_assoc]
      exact Option.bind_congr fun d' _ => ih d'

/-- The decision about a copy that is handed out under the next tag. -/
def decision (s : Shift) (rule : DecisionRule) (queue : String) (c : Copy) (x : Desk) :
    Verdict × Desk :=
  let delivery := c.delivered x.tag queue
  let (v, b) :=
    (rule.decide delivery).run ((s.attempt x.bench delivery).surroundings s.pauses) x.bench
  (v, ⟨x.tag + 1, b⟩)

theorem turn?_of_front {s : Shift} {d : Deployment Logbook} {e : Engine} {w : Worker} {c : Copy}
    {ready dead : List Copy} (he : d.engines[s.engine]? = some e)
    (hw : d.broker.worker? s.worker = some w) (room : 1 ≤ w.prefetch)
    (available : d.broker.available = true)
    (hq : d.broker.queues.get? w.queue = some ⟨c :: ready, [], dead⟩) :
    let v := (s.decision e.rule w.queue c d.desk).1
    ∃ d', s.turn? d = some d' ∧ d'.desk = (s.decision e.rule w.queue c d.desk).2 ∧
      d'.broker = d.broker.afterFront w.queue s.worker c ready dead v.action.settlement ∧
      d'.engines = d.engines.set s.engine ((e.countVerdict v).countAction v.action) := by
  unfold decision
  dsimp only [Deployment.desk]
  generalize run : (e.rule.decide (c.delivered d.broker.nextTag w.queue)).run
    ((s.attempt d.bench (c.delivered d.broker.nextTag w.queue)).surroundings s.pauses) d.bench = r
  obtain ⟨v, after⟩ := r
  let taken := d.broker.handOver w c ⟨ready, [⟨d.broker.nextTag, s.worker, c⟩], dead⟩
  have settled := d.broker.settle_handOver w s.worker c ready dead v.action.settlement
  have delivered : s.callback taken.1 { d with broker := taken.2 } = _ :=
    Deployment.deliver_eq (d := { d with broker := taken.2 }) he run settled
  refine ⟨{ d.withBench after with
    broker := d.broker.afterFront w.queue s.worker c ready dead v.action.settlement
    engines := d.engines.set s.engine ((e.countVerdict v).countAction v.action) }, ?_, rfl, rfl, rfl⟩
  unfold turn? Deployment.turn?
  rw [Broker.take?_front hw room available hq]
  dsimp only
  rw [delivered]
  rfl

end Shift

end DurableMessaging
