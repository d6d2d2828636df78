import DurableMessaging.Proofs.Broker.Declaring
import DurableMessaging.Proofs.Broker.Patterns
import DurableMessaging.Proofs.Outbox.Steady

/-!
# Rows that name their queue

The queue that a row names is bound with the row's own routing key before the row is published. A key
gets through to a queue that is bound with it, so such a row is never published to no queue at all.
-/

namespace DurableMessaging

/-! ## Declaring a topology -/

namespace Broker

variable {κ : Type}

/-- A message gets to the queue that was just bound with its key. -/
theorem mem_targets_of_declare {b b' : Broker κ} {t : Topology} (h : b.declare t = .ok b')
    {name : String} (hn : t.queue = some name) :
    name ∈ b'.targets t.exchange t.exchangeType t.routingKey :=
  mem_targets.mpr ⟨_, (queue_of_declare h hn).1, rfl, ExchangeType.routes_self _ _, rfl⟩

end Broker

/-! ## Publishing a row -/

namespace Gateway

variable {ρ : Type}

theorem publishRow_refused {d : Deployment ρ} {row : Row} {e : BrokerError}
    (h : d.broker.declare row.topology = .error e) (settler : Nat) :
    inMemory.publishRow settler row d = (.failed e, d) := by
  simp only [publishRow, inMemory, h]

/-- Once the topology of a row is declared, nothing is in the way of its publish. -/
theorem publishRow_declared {d : Deployment ρ} {row : Row} {b : Broker ConfirmCallback}
    (h : d.broker.declare row.topology = .ok b) (settler : Nat) :
    ∃ d', inMemory.publishRow settler row d = (.returned (), d') ∧
      d'.broker.published = (b.accept row.message row.exchangeType).published ∧
      d'.broker.queues = (b.accept row.message row.exchangeType).queues := by
  have available : b.available = true := by
    rw [Broker.declare_same h]
    exact (Broker.exists_declare_iff.mp ⟨b, h⟩).1
  have exchange : b.exchanges.get? row.message.exchange = some row.exchangeType :=
    Broker.exchange_of_declare h
  have same := b.taken_eq_accept row.message row.exchangeType (.settle settler row.id)
  simp only [publishRow, inMemory, h, Broker.publish_of_exchange available exchange]
  cases (b.taken row.message row.exchangeType (.settle settler row.id)).confirm with
  | none => exact ⟨_, rfl, same⟩
  | some c =>
      refine ⟨_, rfl, ?_⟩
      rw [(Deployment.fire_same _ _ _).2]
      exact same

/-- Publishing a row that names its queue works just if the broker is available and the exchange is
not of another type. If it does, the publish is logged with that queue among others, and the queue,
which is declared now, has one more copy, at the back, and else what it had before. -/
theorem publishRow_reaches_named_queue (settler : Nat) (row : Row) (name : String)
    (named : row.queue = some name) (d : Deployment ρ) :
    let reply := (inMemory.publishRow settler row d).1
    let d' := (inMemory.publishRow settler row d).2
    (reply = .returned () ↔ d.broker.available = true ∧
      (d.broker.exchanges.get? row.exchange = none ∨
        d.broker.exchanges.get? row.exchange = some row.exchangeType)) ∧
      (reply = .returned () →
        (∃ routedTo, name ∈ routedTo ∧ d'.broker.published = d.broker.published ++
          [⟨row.exchange, row.routingKey, row.messageId, some row.id, routedTo⟩]) ∧
        d'.broker.queues.get? name =
          some { d.broker.queue name with
            ready := (d.broker.queue name).ready ++ [⟨row.exchange, row.routingKey,
              some row.messageId, row.payload.toUTF8, false⟩] }) := by
  intro reply d'
  have declares := Broker.exists_declare_iff (b := d.broker) (t := row.topology)
  cases h : d.broker.declare row.topology with
  | error e =>
      have refused : reply ≠ .returned () := by
        dsimp only [reply]
        rw [publishRow_refused h]
        nofun
      refine ⟨⟨fun hr => absurd hr refused, fun hd => ?_⟩, fun hr => absurd hr refused⟩
      obtain ⟨b, hb⟩ := declares.mpr hd
      rw [h] at hb
      cases hb
  | ok b =>
      obtain ⟨d₁, hpublish, log, queues⟩ := publishRow_declared h settler
      have target := Broker.mem_targets_of_declare h named
      obtain rfl : d' = d₁ := congrArg Prod.snd hpublish
      have returned : reply = .returned () := congrArg Prod.fst hpublish
      refine ⟨⟨fun _ => declares.mp ⟨b, h⟩, fun _ => returned⟩, fun _ => ⟨⟨_, target, ?_⟩, ?_⟩⟩
      · rw [log, Broker.published_accept, Broker.declare_same h]
        rfl
      · rw [queues, Broker.get?_accept]
        refine (if_pos target).trans ?_
        rw [(Broker.queue_of_declare h named).2]
        rfl

/-- The key of the row is a pattern with wildcards, which lets itself through. -/
theorem publishRow_reaches_queue_of_wildcard_key :
    let row : Row :=
      ⟨7, "m", "1", 0, "orders", "*.#..*", some "all", .topic, none, .pending⟩
    let d : Deployment Unit := .start 0 0 ()
    row.queue = some "all" ∧ (inMemory.publishRow 0 row d).1 = .returned () ∧
      (inMemory.publishRow 0 row d).2.broker.queues.get? "all" =
        some ⟨[⟨"orders", "*.#..*", some "m", "1".toUTF8, false⟩], [], []⟩ := by
  intro row d
  obtain ⟨works, reaches⟩ := publishRow_reaches_named_queue 0 row "all" rfl d
  have returned := works.mpr ⟨rfl, .inl rfl⟩
  exact ⟨rfl, returned, (reaches returned).2⟩

end Gateway

end DurableMessaging
