import DurableMessaging.Consumer.Worker
import DurableMessaging.Proofs.Cache.Records
import DurableMessaging.Proofs.Outbox.History

/-!
# Runs from the outbox to the handler

A pipeline is an outbox whose deployment has one engine, and a consumer with a single worker once
that is started. The worker decides about a delivery call by call, and between two calls anything
else may happen.
-/

namespace DurableMessaging

/-- One call of the handler. -/
structure Handling where
  delivery : Delivery
  reply : Reply HandlerError Bool
  deriving DecidableEq

/-- Whether the handler told that the message of an id on a queue is processed. -/
def Handling.succeededFor (x : Handling) (queue messageId : String) : Bool :=
  x.delivery.queue == queue && x.delivery.messageId == some messageId && x.reply == .returned true

/-- The end of a decision: the delivery is settled and counted. -/
def Deployment.conclude {ρ : Type} (delivery : Delivery) (v : Verdict) (d : Deployment ρ) :
    Deployment ρ :=
  let (_, d) := d.settle delivery.queue delivery.tag v.action.settlement
  { d with engines := d.engines.modify 0 fun e => (e.countVerdict v).countAction v.action }

structure Pipeline where
  chronicle : Chronicle Unit
  worker : Option WorkerId
  /-- The delivery that the worker is busy with, and what is left to decide about it. -/
  inHand : Option (Delivery × Decision)
  /-- Every call of the handler, the oldest first. -/
  handlings : List Handling
  /-- Every dedup record that was written, with its key. -/
  records : List (String × CacheEntry)

inductive PipelineMove where
  | outbox (m : OutboxMove)
  | declare (t : Topology)
  | consume (target : ConsumeTarget)
  | take
  /-- The next call about the delivery in hand; a handler that is called replies thus. -/
  | proceed (reply : Reply HandlerError Bool)
  | sweepCache

namespace Pipeline

def start (now : Instant) (first : RowId) (e : Engine) : Pipeline where
  chronicle := ⟨⟨((Deployment.start now first ()).addEngine e).2, [], []⟩, []⟩
  worker := none
  inHand := none
  handlings := []
  records := []

def deployment (p : Pipeline) : Deployment Unit := p.chronicle.outbox.deployment

def history (p : Pipeline) : History := p.chronicle.history

def withDeployment (p : Pipeline) (d : Deployment Unit) : Pipeline :=
  { p with chronicle.outbox.deployment := d }

/-- Starts the consumer, unless there is one. -/
def consume (p : Pipeline) (target : ConsumeTarget) : Pipeline :=
  match p.worker, p.deployment.engines[0]? with
  | none, some e =>
    match e.consume .inMemory target 1 p.deployment with
    | (.returned workers, d) => { p.withDeployment d with worker := workers.head? }
    | (_, d) => p.withDeployment d
  | _, _ => p

/-- The worker, if it is idle, takes a delivery if there is one. -/
def take (p : Pipeline) : Pipeline :=
  match p.worker, p.inHand, p.deployment.engines[0]? with
  | some w, none, some e =>
    match p.deployment.broker.take? w with
    | none => p
    | some (delivery, broker) =>
      { p.withDeployment { p.deployment with broker } with
        inHand := some (delivery, e.rule.decide delivery) }
  | _, _, _ => p

def proceed (p : Pipeline) (reply : Reply HandlerError Bool) : Pipeline :=
  match p.inHand with
  | none => p
  | some (delivery, .done v) =>
    { p.withDeployment (p.deployment.conclude delivery v) with inHand := none }
  | some (delivery, .ask call next) =>
    let (answer, d) := p.deployment.callCache call
    { p.withDeployment d with
      inHand := some (delivery, next (.ofExcept answer))
      records := p.records ++ (call.record? p.deployment.now).toList }
  | some (delivery, .handle _ next) =>
    { p with
      inHand := some (delivery, next reply)
      handlings := p.handlings ++ [⟨delivery, reply⟩] }

def step (p : Pipeline) : PipelineMove → Pipeline
  | .outbox m => { p with chronicle := p.chronicle.step m }
  | .declare t => p.withDeployment (Gateway.inMemory.declare t p.deployment).2
  | .consume target => p.consume target
  | .take => p.take
  | .proceed reply => p.proceed reply
  | .sweepCache =>
    p.withDeployment
      { p.deployment with cache := (p.deployment.cache.purge p.deployment.now).2 }

/-- The moves of a run, from an empty deployment. -/
def run (now : Instant) (first : RowId) (e : Engine) (moves : List PipelineMove) : Pipeline :=
  moves.foldl step (start now first e)

theorem run_append (now : Instant) (first : RowId) (e : Engine) (moves moves' : List PipelineMove) :
    run now first e (moves ++ moves') = moves'.foldl step (run now first e moves) :=
  List.foldl_append

/-- No dedup record that was written has expired. -/
def Lasting (p : Pipeline) : Prop := ∀ r ∈ p.records, r.2.isLive p.deployment.now = true

instance (p : Pipeline) : Decidable p.Lasting :=
  inferInstanceAs (Decidable (∀ r ∈ p.records, r.2.isLive p.deployment.now = true))

/-! ## What a move of the consumer can do -/

theorem declare_cases (t : Topology) (d : Deployment Unit) :
    (Gateway.inMemory.declare t d).2 = d ∨
      ∃ b, d.broker.declare t = .ok b ∧ (Gateway.inMemory.declare t d).2 = { d with broker := b } := by
  dsimp only [Gateway.inMemory]
  cases h : d.broker.declare t with
  | error e => exact .inl rfl
  | ok b => exact .inr ⟨b, rfl, rfl⟩

theorem consume_cases (p : Pipeline) (target : ConsumeTarget) :
    p.consume target = p ∨
      ∃ b worker, p.deployment.broker.declare target.topology = .ok b ∧
        (p.consume target = p.withDeployment { p.deployment with broker := b } ∨
          ∃ spec ids b', b.startConsumer spec = .ok (ids, b') ∧
            p.consume target =
              { p.withDeployment { p.deployment with broker := b' } with worker }) := by
  unfold consume
  cases hw : p.worker with
  | some w => exact .inl rfl
  | none =>
      cases he : p.deployment.engines[0]? with
      | none => exact .inl rfl
      | some e =>
          dsimp only [Engine.consume, Gateway.inMemory]
          cases hd : p.deployment.broker.declare target.topology with
          | error err => exact .inl rfl
          | ok b =>
              dsimp only
              cases hs : b.startConsumer ⟨target.queue, 1, e.prefetch⟩ with
              | error err => exact .inr ⟨b, none, rfl, .inl rfl⟩
              | ok r => exact .inr ⟨b, r.1.head?, rfl, .inr ⟨_, r.1, r.2, hs, rfl⟩⟩

theorem take_cases (p : Pipeline) :
    p.take = p ∨
      ∃ w e delivery b, p.inHand = none ∧ p.deployment.engines[0]? = some e ∧
        p.deployment.broker.take? w = some (delivery, b) ∧
        p.take =
          { p.withDeployment { p.deployment with broker := b } with
            inHand := some (delivery, e.rule.decide delivery) } := by
  unfold take
  cases hw : p.worker with
  | none => exact .inl rfl
  | some w =>
      cases hi : p.inHand with
      | some x => exact .inl rfl
      | none =>
          cases he : p.deployment.engines[0]? with
          | none => exact .inl rfl
          | some e =>
              dsimp only
              cases ht : p.deployment.broker.take? w with
              | none => exact .inl rfl
              | some r => exact .inr ⟨w, e, r.1, r.2, rfl, rfl, ht, rfl⟩

theorem proceed_idle {p : Pipeline} (h : p.inHand = none) (reply : Reply HandlerError Bool) :
    p.proceed reply = p := by
  unfold proceed
  rw [h]

theorem proceed_done {p : Pipeline} {delivery : Delivery} {v : Verdict}
    (h : p.inHand = some (delivery, .done v)) (reply : Reply HandlerError Bool) :
    p.proceed reply =
      { p.withDeployment (p.deployment.conclude delivery v) with inHand := none } := by
  unfold proceed
  rw [h]

theorem proceed_ask {p : Pipeline} {delivery : Delivery} {call : CacheCall}
    {next : Reply CacheError call.Answer → Decision}
    (h : p.inHand = some (delivery, .ask call next)) (reply : Reply HandlerError Bool) :
    p.proceed reply =
      { p.withDeployment (p.deployment.callCache call).2 with
        inHand := some (delivery, next (.ofExcept (p.deployment.callCache call).1))
        records := p.records ++ (call.record? p.deployment.now).toList } := by
  unfold proceed
  rw [h]

theorem proceed_handle {p : Pipeline} {delivery : Delivery} {payload : Json.Value}
    {next : Reply HandlerError Bool → Decision}
    (h : p.inHand = some (delivery, .handle payload next)) (reply : Reply HandlerError Bool) :
    p.proceed reply =
      { p with
        inHand := some (delivery, next reply)
        handlings := p.handlings ++ [⟨delivery, reply⟩] } := by
  unfold proceed
  rw [h]

/-! ## A decision without interruption -/

/-- What an engine meets in a deployment where the handler replies the same at all times. -/
def surroundings (reply : Reply HandlerError Bool) : Surroundings (Deployment Unit) where
  cache call d :=
    let (answer, d) := d.callCache call
    (.ofExcept answer, d)
  handler _ d := (reply, d)

theorem engines_run (reply : Reply HandlerError Bool) (q : Decision) (d : Deployment Unit) :
    (q.run (surroundings reply) d).2.engines = d.engines := by
  induction q generalizing d with
  | done v => rfl
  | ask call next ih => exact ih _ _
  | handle payload next ih => exact ih _ _

theorem proceed_run (reply : Reply HandlerError Bool) {delivery : Delivery} {q : Decision}
    {p : Pipeline} (h : p.inHand = some (delivery, q)) :
    ∃ n, let p' := (List.replicate n (PipelineMove.proceed reply)).foldl step p
      p'.inHand = none ∧ p'.deployment =
        (q.run (surroundings reply) p.deployment).2.conclude delivery
          (q.run (surroundings reply) p.deployment).1 := by
  induction q generalizing p with
  | done v =>
      have hp := proceed_done h reply
      exact ⟨1, congrArg (·.inHand) hp, congrArg (·.deployment) hp⟩
  | ask call next ih =>
      have hp := proceed_ask h reply
      obtain ⟨n, hn⟩ := ih _ (congrArg (·.inHand) hp)
      rw [show (p.proceed reply).deployment = _ from congrArg (·.deployment) hp] at hn
      exact ⟨n + 1, hn⟩
  | handle payload next ih =>
      have hp := proceed_handle h reply
      obtain ⟨n, hn⟩ := ih _ (congrArg (·.inHand) hp)
      rw [show (p.proceed reply).deployment = _ from congrArg (·.deployment) hp] at hn
      exact ⟨n + 1, hn⟩

/-- A decision that nothing interrupts leads to what the engine does with the delivery. -/
theorem proceed_deliver (reply : Reply HandlerError Bool) {delivery : Delivery} {e : Engine}
    {p : Pipeline} (he : p.deployment.engines[0]? = some e)
    (h : p.inHand = some (delivery, e.rule.decide delivery)) :
    ∃ n, let p' := (List.replicate n (PipelineMove.proceed reply)).foldl step p
      p'.inHand = none ∧ p'.deployment =
        (Deployment.deliver 0 (surroundings reply) delivery p.deployment).2 := by
  obtain ⟨n, hi, hd⟩ := proceed_run reply h
  refine ⟨n, hi, hd.trans ?_⟩
  have hrun := engines_run reply (e.rule.decide delivery) p.deployment
  unfold Deployment.deliver Deployment.conclude
  rw [he]
  dsimp only [Engine.deliver, Engine.decide]
  generalize (e.rule.decide delivery).run (surroundings reply) p.deployment = r at hrun
  obtain ⟨v, d⟩ := r
  dsimp only at hrun ⊢
  have hs : (d.settle delivery.queue delivery.tag v.action.settlement).2.engines =
      p.deployment.engines := by
    rw [← hrun]
    unfold Deployment.settle
    split <;> rfl
  rw [hs]
  cases hes : p.deployment.engines with
  | nil =>
      rw [hes] at he
      cases he
  | cons e' es =>
      rw [hes] at he
      cases he
      rfl

end Pipeline

end DurableMessaging
