import DurableMessaging.Broker.Basic

/-!
# What a step of the broker does to one queue

Everything that can happen to a broker is one of a dozen steps, and each of them changes a queue in
one of five ways or not at all.
-/

namespace DurableMessaging

/-- One request to a broker, or a switch of how it behaves. -/
inductive BrokerStep (κ : Type) where
  | declare (t : Topology)
  | publish (m : OutboundMessage) (callback : κ)
  | enqueue (queue : String) (messageId : Option String) (payload : ByteArray)
  | startConsumer (spec : ConsumerSpec)
  | take (worker : WorkerId)
  | settle (queue : String) (tag : DeliveryTag) (s : Settlement)
  | recover (worker : WorkerId)
  | endWorker (worker : WorkerId)
  | setAvailable (available : Bool)
  | setConfirmMode (mode : ConfirmMode)
  | releaseConfirms (ack : Bool)
  | loseConfirms

namespace Broker

variable {κ : Type}

/-- The broker after a step; a request that it refuses leaves it as it was. -/
def perform (b : Broker κ) : BrokerStep κ → Broker κ
  | .declare t => (b.declare t).toOption.getD b
  | .publish m callback => ((b.publish m callback).toOption.map (·.broker)).getD b
  | .enqueue queue messageId payload => (b.enqueue queue messageId payload).toOption.getD b
  | .startConsumer spec => ((b.startConsumer spec).toOption.map (·.2)).getD b
  | .take worker => ((b.take? worker).map (·.2)).getD b
  | .settle queue tag s => (b.settle queue tag s).toOption.getD b
  | .recover worker => b.recover worker
  | .endWorker worker => b.endWorker worker
  | .setAvailable available => { b with available }
  | .setConfirmMode confirmMode => { b with confirmMode }
  | .releaseConfirms ack => (b.releaseConfirms ack).2
  | .loseConfirms => b.loseConfirms

/-- The queue that a worker's step works on. -/
def queueOf? (b : Broker κ) : BrokerStep κ → Option String
  | .take worker | .recover worker | .endWorker worker => (b.worker? worker).map (·.queue)
  | .settle queue _ _ => some queue
  | _ => none

end Broker

/-- Whether a step is one that a worker takes. -/
def BrokerStep.ofWorker {κ : Type} : BrokerStep κ → Bool
  | .take _ | .settle _ _ _ | .recover _ | .endWorker _ => true
  | _ => false

/-- What can happen to a queue. -/
inductive QueueChange where
  | none
  | push (c : Copy)
  | take (worker : WorkerId) (tag : DeliveryTag)
  | settle (tag : DeliveryTag) (s : Settlement)
  | recover (worker : WorkerId)

def Queue.apply (q : Queue) : QueueChange → Queue
  | .none => q
  | .push c => q.push c
  | .take worker tag => ((q.take? worker tag).map (·.2)).getD q
  | .settle tag s => ((q.settle? tag s).map (·.2)).getD q
  | .recover worker => q.recover worker

/-- At most one thing is outstanding under a tag. -/
theorem filter_tag_of_find? {α : Type} {tagOf : α → DeliveryTag} {xs : List α}
    (h : (xs.map tagOf).Nodup) {tag : DeliveryTag} {x : α}
    (hf : xs.find? (tagOf · == tag) = some x) : xs.filter (tagOf · == tag) = [x] := by
  induction xs with
  | nil => cases hf
  | cons y xs ih =>
      rw [List.map_cons, List.nodup_cons] at h
      by_cases hy : tagOf y = tag
      · rw [List.find?_cons_of_pos (by simpa using hy)] at hf
        cases hf
        rw [List.filter_cons_of_pos (by simpa using hy), List.filter_eq_nil_iff.mpr]
        intro z hz hzt
        exact h.1 (List.mem_map.mpr ⟨z, hz, (eq_of_beq hzt).trans hy.symm⟩)
      · rw [List.find?_cons_of_neg (by simpa using hy)] at hf
        rw [List.filter_cons_of_neg (by simpa using hy)]
        exact ih h.2 hf

namespace Broker

variable {κ : Type}

/-- The queues that an outbound message would be put on now. -/
def reaches (b : Broker κ) (m : OutboundMessage) : List String :=
  if b.available then
    match b.exchanges.get? m.exchange with
    | none => []
    | some t => b.targets m.exchange t m.routingKey
  else []

/-- Whether a worker may take a delivery now. -/
def admits (b : Broker κ) (w : Worker) : Bool :=
  b.available && decide ((b.queue w.queue).heldBy w.id < w.prefetch)

/-- What a step does to the queue of a name. -/
def change (b : Broker κ) (name : String) : BrokerStep κ → QueueChange
  | .publish m _ =>
    if name ∈ b.reaches m ∧ b.queues.contains name then
      .push ⟨m.exchange, m.routingKey, some m.messageId, m.payload, false⟩
    else .none
  | .enqueue queue messageId payload =>
    if name = queue ∧ b.queues.contains name then .push ⟨"", queue, messageId, payload, false⟩
    else .none
  | .take worker =>
    match b.worker? worker with
    | none => .none
    | some w => if name = w.queue ∧ b.admits w then .take worker b.nextTag else .none
  | .settle queue tag s => if name = queue then .settle tag s else .none
  | .recover worker | .endWorker worker =>
    match b.worker? worker with
    | none => .none
    | some w => if name = w.queue then .recover worker else .none
  | _ => .none

/-! ## Each operation -/

theorem get?_foldl_modify {α : Type} (f : α → α) {names : List String} (h : names.Nodup)
    (r : Registry α) (n : String) :
    (names.foldl (fun r name => r.modify name f) r).get? n =
      if n ∈ names then (r.get? n).map f else r.get? n := by
  induction names generalizing r with
  | nil => rfl
  | cons m names ih =>
      obtain ⟨hm, hnames⟩ := List.nodup_cons.mp h
      rw [List.foldl_cons, ih hnames, Registry.get?_modify]
      by_cases hn : n = m
      · subst hn
        simp [hm]
      · simp [hn]

theorem get?_pushAll (b : Broker κ) {names : List String} (h : names.Nodup) (c : Copy)
    (n : String) :
    (b.pushAll names c).queues.get? n =
      if n ∈ names then (b.queues.get? n).map (·.push c) else b.queues.get? n :=
  get?_foldl_modify _ h _ _

theorem queue_pushAll (b : Broker κ) {names : List String} (h : names.Nodup) (c : Copy)
    (n : String) :
    (b.pushAll names c).queue n =
      (b.queue n).apply (if n ∈ names ∧ b.queues.contains n then .push c else .none) := by
  unfold queue
  rw [get?_pushAll b h]
  by_cases hn : n ∈ names
  · cases hq : b.queues.get? n <;> simp [hn, hq, Registry.contains, Queue.apply]
  · simp [hn, Queue.apply]

/-- What a publish that is taken leads to. -/
def taken (b : Broker κ) (m : OutboundMessage) (t : ExchangeType) (callback : κ) : Published κ :=
  match b.confirmMode with
  | .ack => ⟨b.accept m t, some (callback, .ofAck m.correlation true)⟩
  | .nack => ⟨b.accept m t, some (callback, .ofAck m.correlation false)⟩
  | .hold => ⟨{ b.accept m t with held := b.held ++ [⟨m.correlation, callback⟩] }, none⟩

theorem publish_of_exchange {b : Broker κ} {m : OutboundMessage} {t : ExchangeType}
    (ha : b.available = true) (he : b.exchanges.get? m.exchange = some t) (callback : κ) :
    b.publish m callback = .ok (b.taken m t callback) := by
  obtain ⟨_, _, _, _, _, _, available, mode, _, _, _⟩ := b
  cases ha
  unfold publish taken
  rw [he]
  cases mode <;> rfl

theorem publish_eq_ok {b : Broker κ} {m : OutboundMessage} {callback : κ} {p : Published κ}
    (h : b.publish m callback = .ok p) :
    ∃ t, b.available = true ∧ b.exchanges.get? m.exchange = some t ∧ p = b.taken m t callback := by
  cases ha : b.available with
  | false =>
      rw [publish, ensureAvailable, ha] at h
      cases h
  | true =>
      cases he : b.exchanges.get? m.exchange with
      | none =>
          rw [publish, ensureAvailable, ha, he] at h
          cases h
      | some t =>
          rw [publish_of_exchange ha he] at h
          exact ⟨t, rfl, rfl, (Except.ok.inj h).symm⟩

theorem queue_bind (b : Broker κ) (x : Binding) (n : String) : (b.bind x).queue n = b.queue n := by
  unfold queue bind
  dsimp only
  split
  · rfl
  · rename_i hx
    rw [Registry.get?_insert]
    split
    · rename_i hn
      subst hn
      have absent : b.queues.get? x.queue = none := by simpa [Registry.contains] using hx
      rw [absent]
      rfl
    · rfl

theorem addExchange_eq_ok {b b' : Broker κ} {name : String} {t : ExchangeType}
    (h : b.addExchange name t = .ok b') :
    (b.exchanges.get? name = some t ∧ b' = b) ∨
      (b.exchanges.get? name = none ∧ b' = { b with exchanges := b.exchanges.insert name t }) := by
  unfold addExchange at h
  cases hk : b.exchanges.get? name with
  | none =>
      rw [hk] at h
      exact .inr ⟨rfl, (Except.ok.inj h).symm⟩
  | some known =>
      rw [hk] at h
      dsimp only at h
      split at h
      · rename_i heq
        exact .inl ⟨congrArg some heq, (Except.ok.inj h).symm⟩
      · cases h

theorem declare_eq_ok {b b' : Broker κ} {t : Topology} (h : b.declare t = .ok b') :
    ∃ b₁, b.addExchange t.exchange t.exchangeType = .ok b₁ ∧
      ((t.queue = none ∧ b' = b₁) ∨
        ∃ queue, t.queue = some queue ∧ b' = b₁.bind ⟨t.exchange, queue, t.routingKey⟩) := by
  unfold declare ensureAvailable at h
  cases ha : b.available with
  | false =>
      rw [ha] at h
      cases h
  | true =>
      cases he : b.addExchange t.exchange t.exchangeType with
      | error e =>
          rw [ha, he] at h
          cases h
      | ok b₁ =>
          refine ⟨b₁, rfl, ?_⟩
          rw [ha, he] at h
          cases hq : t.queue with
          | none =>
              rw [hq] at h
              exact .inl ⟨rfl, (Except.ok.inj h).symm⟩
          | some queue =>
              rw [hq] at h
              exact .inr ⟨queue, rfl, (Except.ok.inj h).symm⟩

theorem queue_declare {b b' : Broker κ} {t : Topology} (h : b.declare t = .ok b') (n : String) :
    b'.queue n = b.queue n := by
  obtain ⟨b₁, h₁, h₂⟩ := declare_eq_ok h
  have same : b₁.queue n = b.queue n := by
    rcases addExchange_eq_ok h₁ with ⟨-, rfl⟩ | ⟨-, rfl⟩ <;> rfl
  rcases h₂ with ⟨-, rfl⟩ | ⟨queue, -, rfl⟩
  · exact same
  · exact (queue_bind _ _ _).trans same

theorem declare_same {b b' : Broker κ} {t : Topology} (h : b.declare t = .ok b') :
    b' = { b with exchanges := b'.exchanges, queues := b'.queues, bindings := b'.bindings } := by
  obtain ⟨b₁, h₁, h₂⟩ := declare_eq_ok h
  rcases addExchange_eq_ok h₁ with ⟨-, rfl⟩ | ⟨-, rfl⟩ <;>
    rcases h₂ with ⟨-, rfl⟩ | ⟨queue, -, rfl⟩ <;> rfl

theorem startConsumer_eq_ok {b b' : Broker κ} {spec : ConsumerSpec} {ids : List WorkerId}
    (h : b.startConsumer spec = .ok (ids, b')) :
    b.available = true ∧ 0 < spec.prefetch ∧ ids = List.range' b.nextWorker spec.concurrency ∧
      b' =
        { b with
          workers := b.workers ++ ids.map (⟨·, spec.queue, spec.prefetch⟩)
          nextWorker := b.nextWorker + spec.concurrency } := by
  unfold startConsumer ensureAvailable at h
  cases ha : b.available with
  | false =>
      rw [ha] at h
      cases h
  | true =>
      rw [ha] at h
      by_cases hc : spec.concurrency = 0
      · rw [if_pos hc] at h
        cases h
      · by_cases hp : spec.prefetch = 0
        · rw [if_neg hc, if_pos hp] at h
          cases h
        · rw [if_neg hc, if_neg hp] at h
          cases hq : b.queues.contains spec.queue with
          | false =>
              rw [hq] at h
              cases h
          | true =>
              rw [hq] at h
              cases h
              exact ⟨rfl, Nat.pos_of_ne_zero hp, rfl, rfl⟩

theorem worker?_id {b : Broker κ} {id : WorkerId} {w : Worker} (h : b.worker? id = some w) :
    w.id = id := by
  have hw := List.find?_some (p := fun x : Worker => x.id == id) h
  exact eq_of_beq hw

/-- The delivery of a copy to a worker, and the broker after it. -/
def handOver (b : Broker κ) (w : Worker) (c : Copy) (q : Queue) : Delivery × Broker κ :=
  (⟨b.nextTag, w.queue, c.exchange, c.routingKey, c.messageId, c.payload, c.redelivered⟩,
    { b with queues := b.queues.insert w.queue q, nextTag := b.nextTag + 1 })

theorem take?_eq {b : Broker κ} {id : WorkerId} {w : Worker} (hw : b.worker? id = some w) :
    b.take? id =
      if b.admits w then
        ((b.queue w.queue).take? id b.nextTag).map fun r => b.handOver w r.1 r.2
      else none := by
  have hid := worker?_id hw
  unfold take? admits queue
  rw [hid]
  by_cases ha : b.available = true
  · rw [if_pos ha, hw]
    show (b.queues.get? w.queue).bind (fun q => if q.heldBy id < w.prefetch then
      (q.take? id b.nextTag).bind fun r => some (b.handOver w r.1 r.2) else none) = _
    rw [ha, Bool.true_and]
    cases b.queues.get? w.queue with
    | none => exact (ite_self _).symm
    | some q =>
        by_cases hp : q.heldBy id < w.prefetch
        · refine (if_pos hp).trans ((if_pos (decide_eq_true hp)).trans ?_).symm
          exact Option.map_eq_bind
        · exact (if_neg hp).trans (if_neg (by simpa using hp)).symm
  · rw [if_neg ha, Bool.eq_false_iff.mpr ha]
    rfl

theorem take?_of_no_worker {b : Broker κ} {id : WorkerId} (hw : b.worker? id = none) :
    b.take? id = none := by
  unfold take?
  rw [hw]
  exact ite_self _

theorem take?_eq_some {b b' : Broker κ} {worker : WorkerId} {d : Delivery}
    (h : b.take? worker = some (d, b')) :
    ∃ w c q, (b.queue w.queue).take? worker b.nextTag = some (c, q) ∧
      d = (b.handOver w c q).1 ∧ b' = (b.handOver w c q).2 := by
  cases hw : b.worker? worker with
  | none =>
      rw [take?_of_no_worker hw] at h
      cases h
  | some w =>
      rw [take?_eq hw] at h
      split at h
      · obtain ⟨⟨c, q⟩, hq, heq⟩ := Option.map_eq_some_iff.mp h
        obtain ⟨rfl, rfl⟩ := Prod.mk.inj heq
        exact ⟨w, c, q, hq, rfl, rfl⟩
      · cases h

theorem settle_eq_ok {b b' : Broker κ} {queue : String} {tag : DeliveryTag} {s : Settlement}
    (h : b.settle queue tag s = .ok b') :
    ∃ q c q', b.queues.get? queue = some q ∧ q.settle? tag s = some (c, q') ∧
      b' =
        { b with
          queues := b.queues.insert queue q'
          settlements := b.settlements ++ [⟨tag, queue, c.messageId, s⟩] } := by
  unfold settle at h
  cases hq : b.queues.get? queue with
  | none =>
      rw [hq] at h
      cases h
  | some q =>
      rw [hq] at h
      dsimp only at h
      cases hs : q.settle? tag s with
      | none =>
          rw [hs] at h
          cases h
      | some r =>
          rw [hs] at h
          exact ⟨q, r.1, r.2, rfl, hs, (Except.ok.inj h).symm⟩

/-! ## Each step -/

theorem queue_insert (b : Broker κ) (name : String) (q : Queue) (n : String) :
    (((b.queues.insert name q).get? n).getD .empty) = if n = name then q else b.queue n := by
  rw [Registry.get?_insert]
  split <;> rfl

theorem reaches_of_exchange {b : Broker κ} {m : OutboundMessage} {t : ExchangeType}
    (ha : b.available = true) (he : b.exchanges.get? m.exchange = some t) :
    b.reaches m = b.targets m.exchange t m.routingKey := by
  unfold reaches
  rw [if_pos ha, he]

theorem reaches_of_refused {b : Broker κ} {m : OutboundMessage} {callback : κ} {e : BrokerError}
    (h : b.publish m callback = .error e) : b.reaches m = [] := by
  unfold reaches
  split
  · rename_i ha
    cases he : b.exchanges.get? m.exchange with
    | none => rfl
    | some t =>
        rw [publish_of_exchange ha he] at h
        cases h
  · rfl

theorem queue_publish (b : Broker κ) (m : OutboundMessage) (callback : κ) (n : String) :
    (b.perform (.publish m callback)).queue n =
      (b.queue n).apply (b.change n (.publish m callback)) := by
  dsimp only [perform, change]
  cases hp : b.publish m callback with
  | error e =>
      rw [reaches_of_refused hp, if_neg fun h => nomatch h.1]
      rfl
  | ok p =>
      obtain ⟨t, ha, he, rfl⟩ := publish_eq_ok hp
      rw [reaches_of_exchange ha he]
      refine Eq.trans ?_ (queue_pushAll b (nodup_sortNames _) _ n)
      show (b.taken m t callback).broker.queue n = _
      unfold taken
      cases b.confirmMode <;> rfl

theorem queue_enqueue (b : Broker κ) (queue : String) (messageId : Option String)
    (payload : ByteArray) (n : String) :
    (b.perform (.enqueue queue messageId payload)).queue n =
      (b.queue n).apply (b.change n (.enqueue queue messageId payload)) := by
  dsimp only [perform, change, enqueue]
  by_cases hq : b.queues.contains queue = true
  · rw [if_pos hq]
    refine (queue_pushAll b (List.pairwise_singleton _ queue) _ n).trans ?_
    simp only [List.mem_singleton]
  · have hn : ¬(n = queue ∧ b.queues.contains n = true) := by
      rintro ⟨rfl, h⟩
      exact hq h
    rw [if_neg hq, if_neg hn]
    rfl

theorem queue_take (b : Broker κ) (worker : WorkerId) (n : String) :
    (b.perform (.take worker)).queue n = (b.queue n).apply (b.change n (.take worker)) := by
  dsimp only [perform, change]
  cases hw : b.worker? worker with
  | none =>
      rw [take?_of_no_worker hw]
      rfl
  | some w =>
      rw [take?_eq hw]
      dsimp only
      by_cases ha : b.admits w = true
      · rw [if_pos ha]
        by_cases hn : n = w.queue
        · subst hn
          rw [if_pos ⟨rfl, ha⟩]
          show _ = (((b.queue w.queue).take? worker b.nextTag).map (·.2)).getD _
          cases (b.queue w.queue).take? worker b.nextTag with
          | none => rfl
          | some r => exact (queue_insert b _ _ _).trans (if_pos rfl)
        · rw [if_neg fun h => hn h.1]
          cases (b.queue w.queue).take? worker b.nextTag with
          | none => rfl
          | some r => exact (queue_insert b _ _ _).trans (if_neg hn)
      · rw [if_neg ha, if_neg fun h => ha h.2]
        rfl

theorem queue_settle (b : Broker κ) (queue : String) (tag : DeliveryTag) (s : Settlement)
    (n : String) :
    (b.perform (.settle queue tag s)).queue n =
      (b.queue n).apply (b.change n (.settle queue tag s)) := by
  dsimp only [perform, change, settle]
  cases hq : b.queues.get? queue with
  | none =>
      have same : b.queue queue = .empty := congrArg (·.getD Queue.empty) hq
      by_cases hn : n = queue
      · subst hn
        rw [if_pos rfl]
        show b.queue n = (((b.queue n).settle? tag s).map (·.2)).getD (b.queue n)
        rw [same]
        rfl
      · rw [if_neg hn]
        rfl
  | some q =>
      have same : b.queue queue = q := congrArg (·.getD Queue.empty) hq
      dsimp only
      by_cases hn : n = queue
      · subst hn
        rw [if_pos rfl]
        show _ = (((b.queue n).settle? tag s).map (·.2)).getD (b.queue n)
        rw [same]
        cases q.settle? tag s with
        | none => exact same
        | some r => exact (queue_insert b _ _ _).trans (if_pos rfl)
      · rw [if_neg hn]
        cases q.settle? tag s with
        | none => rfl
        | some r => exact (queue_insert b _ _ _).trans (if_neg hn)

theorem queue_recover (b : Broker κ) (worker : WorkerId) (n : String) :
    (b.recover worker).queue n = (b.queue n).apply (b.change n (.recover worker)) := by
  dsimp only [recover, change]
  cases b.worker? worker with
  | none => rfl
  | some w =>
      show ((b.queues.modify w.queue (·.recover worker)).get? n).getD _ = _
      rw [Registry.get?_modify]
      dsimp only
      split
      · unfold queue
        cases b.queues.get? n <;> rfl
      · rfl

theorem queue_perform (b : Broker κ) (step : BrokerStep κ) (n : String) :
    (b.perform step).queue n = (b.queue n).apply (b.change n step) := by
  cases step with
  | declare t =>
      dsimp only [perform]
      cases h : b.declare t with
      | error e => rfl
      | ok b' => exact queue_declare h n
  | publish m callback => exact queue_publish b m callback n
  | enqueue queue messageId payload => exact queue_enqueue b queue messageId payload n
  | startConsumer spec =>
      dsimp only [perform]
      cases h : b.startConsumer spec with
      | error e => rfl
      | ok r =>
          obtain ⟨-, -, -, hr⟩ := startConsumer_eq_ok h
          exact congrArg (·.queue n) hr
  | take worker => exact queue_take b worker n
  | settle queue tag s => exact queue_settle b queue tag s n
  | recover worker => exact queue_recover b worker n
  | endWorker worker => exact queue_recover b worker n
  | setAvailable available => rfl
  | setConfirmMode mode => rfl
  | releaseConfirms ack => rfl
  | loseConfirms => rfl

theorem get?_recover_of_ne {b : Broker κ} {worker : WorkerId} {n : String}
    (hn : (b.worker? worker).map (·.queue) ≠ some n) :
    (b.recover worker).queues.get? n = b.queues.get? n := by
  unfold recover
  cases hw : b.worker? worker with
  | none => rfl
  | some w =>
      rw [hw] at hn
      have hne : n ≠ w.queue := fun h => hn (congrArg some h.symm)
      exact (Registry.get?_modify _ _ _ _).trans (if_neg hne)

theorem get?_perform_of_ne {b : Broker κ} {step : BrokerStep κ} {n : String}
    (hs : step.ofWorker = true) (hn : b.queueOf? step ≠ some n) :
    (b.perform step).queues.get? n = b.queues.get? n := by
  cases step with
  | take worker =>
      dsimp only [perform]
      cases hw : b.worker? worker with
      | none =>
          rw [take?_of_no_worker hw]
          rfl
      | some w =>
          have hne : n ≠ w.queue := fun h => hn (by simp [queueOf?, hw, h])
          rw [take?_eq hw]
          split
          · cases (b.queue w.queue).take? worker b.nextTag with
            | none => rfl
            | some r => exact (Registry.get?_insert _ _ _ _).trans (if_neg hne)
          · rfl
  | settle queue tag s =>
      dsimp only [perform]
      cases h : b.settle queue tag s with
      | error e => rfl
      | ok b' =>
          obtain ⟨q, c, q', -, -, rfl⟩ := settle_eq_ok h
          have hne : n ≠ queue := fun h => hn (congrArg some h.symm)
          exact (Registry.get?_insert _ _ _ _).trans (if_neg hne)
  | recover worker => exact get?_recover_of_ne hn
  | endWorker worker => exact get?_recover_of_ne hn
  | _ => cases hs

end Broker

end DurableMessaging
