import DurableMessaging.Proofs.Broker.Placement

/-!
# Where a publish goes

Every binding is to a queue that was declared, at the end of any run of a broker. So no queue that a
publish is to reach is missing, and the queues it is logged with are those that get a copy.
-/

namespace DurableMessaging

/-- The copy of a message that a publish puts on a queue. -/
def OutboundMessage.copy (m : OutboundMessage) : Copy :=
  ⟨m.exchange, m.routingKey, some m.messageId, m.payload, false⟩

namespace Broker

variable {κ : Type}

/-! ## Bindings -/

/-- What a step leaves alone that neither declares nor publishes; it may forget confirms. -/
structure Frame (b b' : Broker κ) : Prop where
  bindings : b'.bindings = b.bindings := by rfl
  published : b'.published = b.published := by rfl
  held : b'.held.Sublist b.held := by exact .refl _
  declared : ∀ {name}, b.queues.contains name = true → b'.queues.contains name = true := by
    exact id

theorem contains_insert {α : Type} {r : Registry α} {name : String} (value : α) {n : String}
    (h : r.contains n = true) : (r.insert name value).contains n = true := by
  unfold Registry.contains at h ⊢
  rw [Registry.get?_insert]
  split
  · rfl
  · exact h

theorem contains_modify {α : Type} (r : Registry α) (name : String) (f : α → α) (n : String) :
    (r.modify name f).contains n = r.contains n := by
  unfold Registry.contains
  rw [Registry.get?_modify]
  split
  · exact Option.isSome_map
  · rfl

theorem frame_recover (b : Broker κ) (worker : WorkerId) : b.Frame (b.recover worker) := by
  unfold recover
  cases b.worker? worker with
  | none => exact {}
  | some w => exact { declared := fun h => (contains_modify _ _ _ _).trans h }

theorem frame_perform (b : Broker κ) {s : BrokerStep κ} (hd : ∀ t, s ≠ .declare t)
    (hp : ∀ m callback, s ≠ .publish m callback) : b.Frame (b.perform s) := by
  cases s with
  | declare t => exact absurd rfl (hd t)
  | publish m callback => exact absurd rfl (hp m callback)
  | enqueue queue messageId payload =>
      dsimp only [perform, enqueue]
      split
      · exact { declared := fun h => (contains_pushAll b (List.pairwise_singleton _ queue) _ _).trans h }
      · exact {}
  | startConsumer spec =>
      dsimp only [perform]
      cases h : b.startConsumer spec with
      | error e => exact {}
      | ok r =>
          obtain ⟨-, -, -, hr⟩ := startConsumer_eq_ok h
          show b.Frame r.2
          rw [hr]
          exact {}
  | take worker =>
      dsimp only [perform]
      cases h : b.take? worker with
      | none => exact {}
      | some r =>
          obtain ⟨d, b'⟩ := r
          obtain ⟨w, c, q, -, -, rfl⟩ := take?_eq_some h
          exact { declared := contains_insert q }
  | settle queue tag s =>
      dsimp only [perform]
      cases h : b.settle queue tag s with
      | error e => exact {}
      | ok b' =>
          obtain ⟨q, c, q', -, -, rfl⟩ := settle_eq_ok h
          exact { declared := contains_insert q' }
  | recover worker => exact b.frame_recover worker
  | endWorker worker =>
      obtain ⟨hbindings, hpublished, hheld, hdeclared⟩ := b.frame_recover worker
      exact ⟨hbindings, hpublished, hheld, hdeclared⟩
  | releaseConfirms ack => exact { held := List.nil_sublist _ }
  | loseConfirms => exact { held := List.nil_sublist _ }
  | _ => exact {}

/-- A step of the broker that publishes nothing logs nothing, and has it hold no other confirms. -/
theorem perform_quiet (b : Broker κ) {s : BrokerStep κ}
    (quiet : ∀ m callback, s ≠ .publish m callback) :
    (b.perform s).published = b.published ∧ (b.perform s).held.Sublist b.held := by
  by_cases hd : ∃ t, s = .declare t
  · obtain ⟨t, rfl⟩ := hd
    dsimp only [perform]
    cases h : b.declare t with
    | error e => exact ⟨rfl, .refl _⟩
    | ok b' =>
        rw [declare_same h]
        exact ⟨rfl, .refl _⟩
  · have frame := b.frame_perform (fun t ht => hd ⟨t, ht⟩) quiet
    exact ⟨frame.published, frame.held⟩

/-- Every binding is to a queue that was declared. -/
def Bound (b : Broker κ) : Prop := ∀ x ∈ b.bindings, b.queues.contains x.queue = true

theorem Bound.frame {b b' : Broker κ} (h : b.Bound) (hf : b.Frame b') : b'.Bound :=
  fun x hx => hf.declared (h x (hf.bindings ▸ hx))

theorem Bound.accept {b : Broker κ} (h : b.Bound) (m : OutboundMessage) (t : ExchangeType) :
    (b.accept m t).Bound := fun x hx => (contains_accept _ _ _ _).trans (h x hx)

theorem Bound.publish {b : Broker κ} (h : b.Bound) {m : OutboundMessage} {callback : κ}
    {p : Published κ} (hp : b.publish m callback = .ok p) : p.broker.Bound := by
  obtain ⟨t, -, -, rfl⟩ := publish_eq_ok hp
  have accepted := h.accept m t
  unfold taken
  cases b.confirmMode <;> exact accepted

theorem Bound.perform {b : Broker κ} (h : b.Bound) (s : BrokerStep κ) : (b.perform s).Bound := by
  cases s with
  | declare t =>
      dsimp only [Broker.perform]
      cases hd : b.declare t with
      | error e => exact h
      | ok b' => exact bound_declare h hd
  | publish m callback =>
      dsimp only [Broker.perform]
      cases hp : b.publish m callback with
      | error e => exact h
      | ok p => exact h.publish hp
  | _ => exact h.frame (b.frame_perform nofun nofun)

theorem bound_run (steps : List (BrokerStep κ)) :
    (steps.foldl Broker.perform (empty : Broker κ)).Bound := by
  suffices h : ∀ b : Broker κ, b.Bound → (steps.foldl Broker.perform b).Bound from h _ nofun
  induction steps with
  | nil => exact fun _ hb => hb
  | cons s steps ih => exact fun b hb => ih _ (hb.perform s)

/-! ## Copies -/

theorem get?_accept (b : Broker κ) (m : OutboundMessage) (t : ExchangeType) (name : String) :
    (b.accept m t).queues.get? name =
      if name ∈ b.targets m.exchange t m.routingKey then
        (b.queues.get? name).map (·.push m.copy)
      else b.queues.get? name :=
  get?_pushAll b (b.nodup_targets _ _ _) _ name

/-- A publish that is taken logs the message and puts copies on queues, however it is confirmed. -/
theorem taken_eq_accept (b : Broker κ) (m : OutboundMessage) (t : ExchangeType) (callback : κ) :
    (b.taken m t callback).broker.published = (b.accept m t).published ∧
      (b.taken m t callback).broker.queues = (b.accept m t).queues := by
  unfold taken
  cases b.confirmMode <;> exact ⟨rfl, rfl⟩

theorem Bound.get?_of_mem_targets {b : Broker κ} (h : b.Bound) {exchange : String}
    {t : ExchangeType} {key name : String} (hn : name ∈ b.targets exchange t key) :
    ∃ q, b.queues.get? name = some q := by
  obtain ⟨x, hx, -, -, rfl⟩ := mem_targets.mp hn
  exact Option.isSome_iff_exists.mp (h x hx)

/-- A publish that is taken is logged with the queues, in strictly ascending order, that a binding of
its exchange lets its key through to. Each of them was declared and has one more copy, at the back;
nothing else on any queue has changed. -/
theorem publish_reaches_bound_queues (steps : List (BrokerStep κ)) (m : OutboundMessage)
    (callback : κ) (p : Published κ)
    (accepted : (steps.foldl Broker.perform empty).publish m callback = .ok p) :
    let b : Broker κ := steps.foldl Broker.perform empty
    ∃ t routedTo, b.exchanges.get? m.exchange = some t ∧
      p.broker.published =
        b.published ++ [⟨m.exchange, m.routingKey, m.messageId, m.correlation, routedTo⟩] ∧
      routedTo.Pairwise (· < ·) ∧
      (∀ name, name ∈ routedTo ↔ ∃ x ∈ b.bindings, x.exchange = m.exchange ∧ x.queue = name ∧
        t.routes x.pattern m.routingKey = true) ∧
      (∀ name ∈ routedTo, ∃ q, b.queues.get? name = some q ∧ p.broker.queues.get? name =
        some { q with
          ready := q.ready ++
            [⟨m.exchange, m.routingKey, some m.messageId, m.payload, false⟩] }) ∧
      ∀ name ∉ routedTo, p.broker.queues.get? name = b.queues.get? name := by
  intro b
  obtain ⟨t, -, exchange, rfl⟩ := publish_eq_ok accepted
  obtain ⟨log, queues⟩ := b.taken_eq_accept m t callback
  refine ⟨t, b.targets m.exchange t m.routingKey, exchange, log.trans (b.published_accept m t),
    pairwise_sortNames _, fun name => ?_, fun name hn => ?_, fun name hn => ?_⟩
  · rw [mem_targets]
    simp only [and_comm (a := t.routes _ _ = true)]
  · obtain ⟨q, hq⟩ := (bound_run steps).get?_of_mem_targets hn
    refine ⟨q, hq, ?_⟩
    rw [queues, get?_accept, if_pos hn, hq]
    rfl
  · rw [queues, get?_accept, if_neg hn]

/-- A queue with two bindings that both let the key through gets one copy, behind the one it has. -/
theorem publish_reaches_each_queue_once :
    let steps : List (BrokerStep Unit) :=
      [.declare ⟨"orders", .fanout, some "billing", "placed"⟩,
        .declare ⟨"orders", .fanout, some "billing", "paid"⟩,
        .declare ⟨"orders", .fanout, some "audit", "placed"⟩,
        .declare ⟨"refunds", .direct, some "refunds", "placed"⟩,
        .enqueue "billing" none "0".toUTF8]
    let b := steps.foldl Broker.perform empty
    ∃ p, b.publish ⟨"orders", "placed", "m", "1".toUTF8, none⟩ () = .ok p ∧
      p.broker.published = b.published ++ [⟨"orders", "placed", "m", none, ["audit", "billing"]⟩] ∧
      ∀ name ∈ ["audit", "billing"], ∃ q, b.queues.get? name = some q ∧ p.broker.queues.get? name =
        some { q with ready := q.ready ++ [⟨"orders", "placed", some "m", "1".toUTF8, false⟩] } := by
  intro steps b
  obtain ⟨t, routedTo, -, log, -, -, copies, -⟩ :=
    publish_reaches_bound_queues steps ⟨"orders", "placed", "m", "1".toUTF8, none⟩ () _ rfl
  obtain rfl : ["audit", "billing"] = routedTo :=
    List.singleton_inj.mp (congrArg (List.map PublishRecord.routedTo) log)
  exact ⟨_, rfl, log, copies⟩

end Broker

end DurableMessaging
