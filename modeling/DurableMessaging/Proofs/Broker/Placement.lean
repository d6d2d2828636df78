import DurableMessaging.Proofs.Broker.Change

/-!
# The copies of a message that were placed on a queue

A publish is logged with the queues that it was routed to. The log agrees with what is on the queues
and what was acknowledged.
-/

namespace DurableMessaging

variable {κ : Type}

/-! ## One queue -/

namespace Queue

/-- How many copies of a message are ready, outstanding or dead letters. -/
def copies (q : Queue) (messageId : String) : Nat :=
  q.ready.countP (·.messageId == some messageId) +
    q.unacked.countP (·.copy.messageId == some messageId) +
    q.deadLetters.countP (·.messageId == some messageId)

theorem copies_push (q : Queue) (c : Copy) (messageId : String) :
    (q.push c).copies messageId =
      q.copies messageId + if c.messageId = some messageId then 1 else 0 := by
  simp only [push, copies, List.countP_append, List.countP_singleton, beq_iff_eq]
  omega

theorem copies_take {q q' : Queue} {worker : WorkerId} {tag : DeliveryTag} {c : Copy}
    (h : q.take? worker tag = some (c, q')) (hu : ∀ o ∈ q.unacked, o.tag ≠ tag)
    (messageId : String) : q'.copies messageId = q.copies messageId := by
  unfold take? at h
  cases hr : q.ready with
  | nil =>
      rw [hr] at h
      cases h
  | cons c₀ ready =>
      have same : q.unacked.filter (·.tag != tag) = q.unacked :=
        List.filter_eq_self.mpr fun o ho => bne_iff_ne.mpr (hu o ho)
      rw [hr] at h
      cases h
      simp only [copies, same, hr, List.countP_append, List.countP_cons, List.countP_nil]
      omega

theorem copies_settle {q q' : Queue} {tag : DeliveryTag} {s : Settlement} {c : Copy}
    (h : q.settle? tag s = some (c, q')) (ht : (q.unacked.map (·.tag)).Nodup) (messageId : String) :
    q'.copies messageId + (if c.messageId = some messageId ∧ s = .ack then 1 else 0) =
      q.copies messageId := by
  unfold settle? at h
  cases hf : q.unacked.find? (·.tag == tag) with
  | none =>
      rw [hf] at h
      cases h
  | some o =>
      have split : q.unacked.countP (·.copy.messageId == some messageId) =
          (if o.copy.messageId = some messageId then 1 else 0) +
            (q.unacked.filter (·.tag != tag)).countP (·.copy.messageId == some messageId) := by
        rw [List.countP_eq_countP_filter_add _ _ (·.tag == tag), filter_tag_of_find? ht hf,
          List.countP_singleton]
        simp only [beq_iff_eq]
        rfl
      rw [hf] at h
      cases h
      cases s <;> simp [copies, Copy.asRedelivered, List.countP_cons, split] <;> omega

theorem unacked_take {q q' : Queue} {worker : WorkerId} {tag : DeliveryTag} {c : Copy}
    (h : q.take? worker tag = some (c, q')) :
    q'.unacked = q.unacked.filter (·.tag != tag) ++ [⟨tag, worker, c⟩] := by
  unfold take? at h
  cases hr : q.ready <;> rw [hr] at h <;> cases h
  rfl

theorem unacked_settle {q q' : Queue} {tag : DeliveryTag} {s : Settlement} {c : Copy}
    (h : q.settle? tag s = some (c, q')) : q'.unacked = q.unacked.filter (·.tag != tag) := by
  unfold settle? at h
  cases hf : q.unacked.find? (·.tag == tag) <;> rw [hf] at h <;> cases h
  cases s <;> rfl

theorem unacked_settle_none {q : Queue} {tag : DeliveryTag} {s : Settlement}
    (h : q.settle? tag s = none) : ∀ o ∈ q.unacked, o.tag ≠ tag := by
  unfold settle? at h
  cases hf : q.unacked.find? (·.tag == tag) with
  | some o =>
      rw [hf] at h
      cases h
  | none => exact fun o ho => by simpa using List.find?_eq_none.mp hf o ho

end Queue

/-! ## A broker -/

/-- What the broker logs of a message. -/
def OutboundMessage.logged (m : OutboundMessage) : String × String × String × Option RowId :=
  (m.exchange, m.routingKey, m.messageId, m.correlation)

/-- What a record says of the message that was published. -/
def PublishRecord.logged (r : PublishRecord) : String × String × String × Option RowId :=
  (r.exchange, r.routingKey, r.messageId, r.correlation)

namespace Broker

/-- How many copies of a message were acknowledged on a queue. -/
def acked (b : Broker κ) (name messageId : String) : Nat :=
  b.settlements.countP fun r =>
    r.queue == name && r.messageId == some messageId && r.settlement == .ack

/-- How many publishes of a message were routed to a queue. -/
def placed (b : Broker κ) (name messageId : String) : Nat :=
  b.published.countP fun r => r.messageId == messageId && decide (name ∈ r.routedTo)

/-- Every copy of a message that was placed on a queue is there or was acknowledged. -/
structure Balanced (b : Broker κ) : Prop where
  bound : ∀ x ∈ b.bindings, b.queues.contains x.queue = true
  balanced : ∀ name messageId,
    (b.queue name).copies messageId + b.acked name messageId = b.placed name messageId

theorem balanced_empty : (empty : Broker κ).Balanced where
  bound := nofun
  balanced := fun _ _ => rfl

theorem contains_bind (b : Broker κ) (x : Binding) {name : String} :
    (b.bind x).queues.contains name = (b.queues.contains name || name == x.queue) := by
  unfold bind
  dsimp only
  split
  · rename_i hx
    by_cases hn : name = x.queue
    · simp [hn, hx]
    · simp [hn]
  · by_cases hn : name = x.queue <;> simp [Registry.contains, Registry.get?_insert, hn]

theorem mem_bindings_bind {b : Broker κ} {x y : Binding} :
    y ∈ (b.bind x).bindings ↔ y ∈ b.bindings ∨ y = x := by
  unfold bind
  dsimp only
  split
  · rename_i hx
    constructor
    · exact .inl
    · rintro (hy | rfl)
      · exact hy
      · exact hx
  · simp

theorem mem_targets {b : Broker κ} {exchange : String} {t : ExchangeType} {key name : String} :
    name ∈ b.targets exchange t key ↔
      ∃ x ∈ b.bindings, x.exchange = exchange ∧ t.routes x.pattern key = true ∧ x.queue = name := by
  unfold targets
  simp only [mem_sortNames, List.mem_map, List.mem_filter, Bool.and_eq_true, beq_iff_eq, and_assoc]

theorem nodup_targets (b : Broker κ) (exchange : String) (t : ExchangeType) (key : String) :
    (b.targets exchange t key).Nodup := nodup_sortNames _

theorem queue_accept (b : Broker κ) (m : OutboundMessage) (t : ExchangeType) (name : String) :
    (b.accept m t).queue name =
      (b.queue name).apply
        (if name ∈ b.targets m.exchange t m.routingKey ∧ b.queues.contains name then
          .push ⟨m.exchange, m.routingKey, some m.messageId, m.payload, false⟩
        else .none) :=
  queue_pushAll b (b.nodup_targets _ _ _) _ name

theorem unacked_accept (b : Broker κ) (m : OutboundMessage) (t : ExchangeType) (name : String) :
    ((b.accept m t).queue name).unacked = (b.queue name).unacked := by
  rw [queue_accept]
  split <;> rfl

theorem published_accept (b : Broker κ) (m : OutboundMessage) (t : ExchangeType) :
    (b.accept m t).published =
      b.published ++ [⟨m.exchange, m.routingKey, m.messageId, m.correlation,
        b.targets m.exchange t m.routingKey⟩] := rfl

theorem contains_pushAll (b : Broker κ) {names : List String} (h : names.Nodup) (c : Copy)
    (name : String) : (b.pushAll names c).queues.contains name = b.queues.contains name := by
  unfold Registry.contains
  rw [get?_pushAll b h]
  split
  · exact Option.isSome_map
  · rfl

theorem contains_accept (b : Broker κ) (m : OutboundMessage) (t : ExchangeType) (name : String) :
    (b.accept m t).queues.contains name = b.queues.contains name :=
  contains_pushAll b (b.nodup_targets _ _ _) _ name

/-- Whatever is bound was declared with its queue. -/
theorem bound_declare {b b' : Broker κ} {t : Topology}
    (h : ∀ x ∈ b.bindings, b.queues.contains x.queue = true) (hd : b.declare t = .ok b') :
    ∀ x ∈ b'.bindings, b'.queues.contains x.queue = true := by
  obtain ⟨b₁, h₁, h₂⟩ := declare_eq_ok hd
  have bound : ∀ x ∈ b₁.bindings, b₁.queues.contains x.queue = true := by
    rcases addExchange_eq_ok h₁ with ⟨-, rfl⟩ | ⟨-, rfl⟩ <;> exact h
  rcases h₂ with ⟨-, rfl⟩ | ⟨queue, -, rfl⟩
  · exact bound
  · intro x hx
    rw [contains_bind, Bool.or_eq_true]
    rcases mem_bindings_bind.mp hx with hx | rfl
    · exact .inl (bound x hx)
    · exact .inr (beq_self_eq_true _)

namespace Balanced

variable {b b' : Broker κ}

theorem declare (h : b.Balanced) {t : Topology} (hd : b.declare t = .ok b') : b'.Balanced := by
  refine ⟨bound_declare h.bound hd, fun name messageId => ?_⟩
  have same := declare_same hd
  have hacked : b'.acked name messageId = b.acked name messageId :=
    congrArg (·.acked name messageId) same
  have hplaced : b'.placed name messageId = b.placed name messageId :=
    congrArg (·.placed name messageId) same
  rw [queue_declare hd, hacked, hplaced]
  exact h.balanced name messageId

theorem accept (h : b.Balanced) (m : OutboundMessage) (t : ExchangeType) :
    (b.accept m t).Balanced := by
  refine ⟨fun x hx => ?_, fun name messageId => ?_⟩
  · rw [contains_accept]
    exact h.bound x hx
  · have contained : name ∈ b.targets m.exchange t m.routingKey → b.queues.contains name = true := by
      intro hn
      obtain ⟨x, hx, -, -, rfl⟩ := mem_targets.mp hn
      exact h.bound x hx
    have hp : (b.accept m t).placed name messageId = b.placed name messageId +
        if m.messageId = messageId ∧ name ∈ b.targets m.exchange t m.routingKey then 1 else 0 := by
      unfold placed
      rw [published_accept, List.countP_append, List.countP_singleton]
      simp only [Bool.and_eq_true, beq_iff_eq, decide_eq_true_eq]
    have ha : (b.accept m t).acked name messageId = b.acked name messageId := rfl
    have := h.balanced name messageId
    rw [queue_accept, hp, ha]
    by_cases hn : name ∈ b.targets m.exchange t m.routingKey
    · rw [if_pos ⟨hn, contained hn⟩]
      simp only [Queue.apply, Queue.copies_push, Option.some.injEq, hn, and_true]
      omega
    · rw [if_neg fun hn' => hn hn'.1, if_neg fun hn' => hn hn'.2]
      exact this

theorem startConsumer (h : b.Balanced) {spec : ConsumerSpec} {ids : List WorkerId}
    (hs : b.startConsumer spec = .ok (ids, b')) : b'.Balanced := by
  obtain ⟨-, -, -, rfl⟩ := startConsumer_eq_ok hs
  exact ⟨h.bound, h.balanced⟩

theorem bound_insert (h : b.Balanced) (name : String) (q : Queue) :
    ∀ x ∈ b.bindings, (b.queues.insert name q).contains x.queue = true := by
  intro x hx
  unfold Registry.contains
  rw [Registry.get?_insert]
  split
  · rfl
  · exact h.bound x hx

theorem take (h : b.Balanced) {worker : WorkerId} {d : Delivery}
    (ht : b.take? worker = some (d, b')) (hu : ∀ o ∈ (b.queue d.queue).unacked, o.tag ≠ b.nextTag) :
    b'.Balanced := by
  obtain ⟨w, c, q, hq, rfl, rfl⟩ := take?_eq_some ht
  refine ⟨h.bound_insert _ _, fun name messageId => ?_⟩
  have hc : ((b.handOver w c q).2.queue name).copies messageId = (b.queue name).copies messageId := by
    refine (congrArg (·.copies messageId) (queue_insert b w.queue q name)).trans ?_
    split
    · rename_i hn
      subst hn
      exact Queue.copies_take hq hu messageId
    · rfl
  rw [hc]
  exact h.balanced name messageId

theorem settle (h : b.Balanced) {queue : String} {tag : DeliveryTag} {s : Settlement}
    (hs : b.settle queue tag s = .ok b') (ht : ((b.queue queue).unacked.map (·.tag)).Nodup) :
    b'.Balanced := by
  obtain ⟨q, c, q', hq, hc, hb⟩ := settle_eq_ok hs
  have same : b.queue queue = q := congrArg (·.getD Queue.empty) hq
  rw [same] at ht
  refine ⟨hb ▸ h.bound_insert _ _, fun name messageId => ?_⟩
  have hqueue : b'.queue name = if name = queue then q' else b.queue name :=
    (congrArg (·.queue name) hb).trans (queue_insert b queue q' name)
  have hplaced : b'.placed name messageId = b.placed name messageId :=
    congrArg (·.placed name messageId) hb
  have hacked : b'.acked name messageId = b.acked name messageId +
      if queue = name ∧ c.messageId = some messageId ∧ s = .ack then 1 else 0 := by
    refine (congrArg (·.acked name messageId) hb).trans ?_
    unfold acked
    rw [List.countP_append, List.countP_singleton]
    simp only [Bool.and_eq_true, beq_iff_eq, and_assoc]
  have hcopies := Queue.copies_settle hc ht messageId
  have := h.balanced name messageId
  rw [hqueue, hacked, hplaced]
  by_cases hn : name = queue
  · subst hn
    rw [same] at this
    simp only [if_true, true_and]
    omega
  · rw [if_neg hn, if_neg fun h => hn h.1.symm]
    exact this

end Balanced

/-! ## What is outstanding -/

/-- Every copy that was placed is somewhere, and nothing is outstanding but the delivery in hand. -/
structure Stocked (b : Broker κ) (inHand : Option Delivery) : Prop where
  balanced : b.Balanced
  outstanding : ∀ name, ∀ o ∈ (b.queue name).unacked,
    ∃ d, inHand = some d ∧ d.queue = name ∧ d.tag = o.tag
  tags : ∀ name, ((b.queue name).unacked.map (·.tag)).Nodup

namespace Stocked

variable {b b' : Broker κ} {inHand : Option Delivery}

theorem of_idle (h : b.Balanced) (idle : ∀ name, (b.queue name).unacked = []) :
    b.Stocked inHand where
  balanced := h
  outstanding := by
    intro name o ho
    rw [idle] at ho
    cases ho
  tags := by
    intro name
    rw [idle]
    exact .nil

theorem idle (hs : b.Stocked none) (name : String) : (b.queue name).unacked = [] := by
  refine List.eq_nil_iff_forall_not_mem.mpr fun o ho => ?_
  obtain ⟨d, hd, -⟩ := hs.outstanding name o ho
  cases hd

theorem keep (hs : b.Stocked inHand) (hb : b'.Balanced)
    (hu : ∀ name, (b'.queue name).unacked = (b.queue name).unacked) : b'.Stocked inHand where
  balanced := hb
  outstanding := fun name o ho => hs.outstanding name o (hu name ▸ ho)
  tags := fun name => hu name ▸ hs.tags name

theorem declare (hs : b.Stocked inHand) {t : Topology} (h : b.declare t = .ok b') :
    b'.Stocked inHand :=
  hs.keep (hs.balanced.declare h) fun name => congrArg (·.unacked) (queue_declare h name)

theorem startConsumer (hs : b.Stocked inHand) {spec : ConsumerSpec} {ids : List WorkerId}
    (h : b.startConsumer spec = .ok (ids, b')) : b'.Stocked inHand := by
  refine hs.keep (hs.balanced.startConsumer h) fun name => ?_
  obtain ⟨-, -, -, rfl⟩ := startConsumer_eq_ok h
  rfl

theorem take (hs : b.Stocked none) {worker : WorkerId} {d : Delivery}
    (h : b.take? worker = some (d, b')) : b'.Stocked (some d) := by
  have hb := hs.balanced.take h (by rw [hs.idle]; nofun)
  obtain ⟨w, c, q, hq, rfl, rfl⟩ := take?_eq_some h
  have hu : ∀ name, ((b.handOver w c q).2.queue name).unacked =
      if name = w.queue then [⟨b.nextTag, worker, c⟩] else [] := by
    intro name
    refine (congrArg (·.unacked) (queue_insert b w.queue q name)).trans ?_
    split
    · have hq' := Queue.unacked_take hq
      rw [hs.idle] at hq'
      exact hq'
    · exact hs.idle name
  refine ⟨hb, fun name o ho => ?_, fun name => ?_⟩
  · rw [hu] at ho
    split at ho
    · rename_i hn
      cases List.mem_singleton.mp ho
      exact ⟨_, rfl, hn.symm, rfl⟩
    · cases ho
  · rw [hu]
    split
    · exact List.pairwise_singleton _ _
    · exact .nil

/-- What is outstanding after the delivery in hand has been dealt with is nothing. -/
theorem idle_of_filter {d : Delivery} (hs : b.Stocked (some d)) (hb : b'.Balanced)
    (hu : ∀ name, ∀ o ∈ (b'.queue name).unacked,
      o ∈ (b.queue name).unacked ∧ (name = d.queue → o.tag ≠ d.tag)) : b'.Stocked none := by
  refine of_idle hb fun name => List.eq_nil_iff_forall_not_mem.mpr fun o ho => ?_
  obtain ⟨ho, hne⟩ := hu name o ho
  obtain ⟨d', hd, hn, htag⟩ := hs.outstanding name o ho
  cases hd
  exact hne hn.symm htag.symm

theorem settle {d : Delivery} (hs : b.Stocked (some d)) {s : Settlement}
    (h : b.settle d.queue d.tag s = .ok b') : b'.Stocked none := by
  refine hs.idle_of_filter (hs.balanced.settle h (hs.tags _)) fun name o ho => ?_
  obtain ⟨q, c, q', hq, hc, hb⟩ := settle_eq_ok h
  have hqueue : b'.queue name = if name = d.queue then q' else b.queue name :=
    (congrArg (·.queue name) hb).trans (queue_insert b d.queue q' name)
  rw [hqueue] at ho
  split at ho
  · rename_i hn
    have same : b.queue d.queue = q := congrArg (·.getD Queue.empty) hq
    rw [Queue.unacked_settle hc, List.mem_filter] at ho
    rw [hn, same]
    exact ⟨ho.1, fun _ => bne_iff_ne.mp ho.2⟩
  · rename_i hn
    exact ⟨ho, fun h => absurd h hn⟩

theorem settle_error {d : Delivery} (hs : b.Stocked (some d)) {s : Settlement} {e : BrokerError}
    (h : b.settle d.queue d.tag s = .error e) : b.Stocked none := by
  refine hs.idle_of_filter hs.balanced fun name o ho => ⟨ho, ?_⟩
  rintro rfl
  unfold Broker.settle at h
  cases hq : b.queues.get? d.queue with
  | none =>
      rw [show b.queue d.queue = .empty from congrArg (·.getD Queue.empty) hq] at ho
      cases ho
  | some q =>
      rw [show b.queue d.queue = q from congrArg (·.getD Queue.empty) hq] at ho
      rw [hq] at h
      dsimp only at h
      cases hs : q.settle? d.tag s with
      | none => exact Queue.unacked_settle_none hs o ho
      | some r =>
          rw [hs] at h
          cases h

end Stocked

/-! ## Routes -/

/-- What was declared in one broker is declared in the other. -/
structure Extends (b b' : Broker κ) : Prop where
  exchanges : ∀ {name t}, b.exchanges.get? name = some t → b'.exchanges.get? name = some t
  bindings : ∀ {x}, x ∈ b.bindings → x ∈ b'.bindings

theorem extends_declare {b b' : Broker κ} {t : Topology} (h : b.declare t = .ok b') :
    b.Extends b' := by
  obtain ⟨b₁, h₁, h₂⟩ := declare_eq_ok h
  have extends₁ : b.Extends b₁ := by
    rcases addExchange_eq_ok h₁ with ⟨-, rfl⟩ | ⟨hnone, rfl⟩
    · exact ⟨id, id⟩
    · refine ⟨fun {name known} hname => ?_, id⟩
      dsimp only
      rw [Registry.get?_insert]
      split
      · rename_i heq
        rw [heq, hnone] at hname
        cases hname
      · exact hname
  rcases h₂ with ⟨-, rfl⟩ | ⟨queue, -, rfl⟩
  · exact extends₁
  · exact ⟨extends₁.exchanges, fun hx => mem_bindings_bind.mpr (.inl (extends₁.bindings hx))⟩

/-- A publish of a message would be routed to a queue. -/
def Leads (b : Broker κ) (name : String) (m : OutboundMessage) : Prop :=
  ∃ t, b.exchanges.get? m.exchange = some t ∧ name ∈ b.targets m.exchange t m.routingKey

/-- A publish of a message was routed to a queue. -/
def Placed (b : Broker κ) (name : String) (m : OutboundMessage) : Prop :=
  ∃ r ∈ b.published, r.logged = m.logged ∧ name ∈ r.routedTo

theorem Placed.accept {b : Broker κ} {name : String} {m : OutboundMessage} (h : b.Placed name m)
    (m' : OutboundMessage) (t : ExchangeType) : (b.accept m' t).Placed name m := by
  obtain ⟨r, hr, hrest⟩ := h
  exact ⟨r, List.mem_append_left _ hr, hrest⟩

theorem Leads.placed_accept {b : Broker κ} {name : String} {m : OutboundMessage} (h : b.Leads name m)
    {t : ExchangeType} (ht : b.exchanges.get? m.exchange = some t) :
    (b.accept m t).Placed name m := by
  obtain ⟨t', ht', hn⟩ := h
  cases ht'.symm.trans ht
  exact ⟨_, List.mem_append_right _ List.mem_cons_self, rfl, hn⟩

theorem Placed.pos {b : Broker κ} {name : String} {m : OutboundMessage} (h : b.Placed name m) :
    0 < b.placed name m.messageId := by
  obtain ⟨r, hr, hlog, hn⟩ := h
  refine List.countP_pos_iff.mpr ⟨r, hr, ?_⟩
  have hid : r.messageId = m.messageId := congrArg (·.2.2.1) hlog
  simp only [hid, hn, beq_self_eq_true, decide_true, Bool.and_self]

theorem Leads.extend {b b' : Broker κ} {name : String} {m : OutboundMessage} (h : b.Leads name m)
    (he : b.Extends b') : b'.Leads name m := by
  obtain ⟨t, ht, hn⟩ := h
  obtain ⟨x, hx, hroute⟩ := mem_targets.mp hn
  exact ⟨t, he.exchanges ht, mem_targets.mpr ⟨x, he.bindings hx, hroute⟩⟩

end Broker

end DurableMessaging
