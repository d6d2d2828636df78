import DurableMessaging.Proofs.Broker.Declaring

/-!
# Declaring topologies in any order

Brokers that differ in the order of their exchanges, queues and bindings alone do the same at every
step, and such are the brokers that got the same declarations in one order and in another.
-/

namespace DurableMessaging

namespace Broker

variable {κ : Type} {b b' : Broker κ}

/-! ## Brokers alike -/

/-- Whether two brokers have the same exchanges, queues and bindings, in whatever order. -/
structure Alike (b b' : Broker κ) : Prop where
  exchanges : ∀ name, b'.exchanges.get? name = b.exchanges.get? name
  queues : ∀ name, b'.queues.get? name = b.queues.get? name
  bindings : ∀ x, x ∈ b'.bindings ↔ x ∈ b.bindings
  elsewhere : b.AgreeElsewhere b'

theorem sortNames_congr {names names' : List String} (h : ∀ n, n ∈ names' ↔ n ∈ names) :
    sortNames names' = sortNames names := by
  have perm : (sortNames names').Perm (sortNames names) :=
    (List.perm_ext_iff_of_nodup (nodup_sortNames _) (nodup_sortNames _)).mpr fun n => by
      rw [mem_sortNames, mem_sortNames, h]
  have asymm : ∀ n n' : String, n ∈ sortNames names' → n' ∈ sortNames names →
      n < n' → n' < n → n = n' := fun n _ _ _ hlt hgt =>
    absurd (String.lt_trans hlt hgt) (String.lt_irrefl n)
  exact perm.eq_of_pairwise asymm (pairwise_sortNames _) (pairwise_sortNames _)

theorem get?_eq_queue (b : Broker κ) (name : String) :
    b.queues.get? name = if b.queues.contains name then some (b.queue name) else none := by
  unfold Registry.contains queue
  cases b.queues.get? name <;> rfl

/-- It is enough that the same topologies were declared. -/
theorem Declares.alike {c c' : Broker κ} {ts ts' : List Topology} (h : Declares ts b c)
    (h' : Declares ts' b' c') (hb : b.Alike b') (same : ∀ t, t ∈ ts' ↔ t ∈ ts) : c.Alike c' where
  exchanges name := by
    refine Option.ext fun type => ?_
    rw [h'.exchanges, h.exchanges, hb.exchanges]
    simp only [same]
  queues name := by
    have declared : c'.queues.contains name = c.queues.contains name := by
      rw [Bool.eq_iff_iff, h'.declared, h.declared, Registry.contains, Registry.contains, hb.queues]
      simp only [same]
    have queue : c'.queue name = c.queue name := by
      rw [h'.queue, h.queue]
      exact congrArg (·.getD Queue.empty) (hb.queues name)
    rw [get?_eq_queue, get?_eq_queue, declared, queue]
  bindings x := by
    rw [h'.bindings, h.bindings, hb.bindings]
    simp only [same]
  elsewhere := h.elsewhere.symm.trans (hb.elsewhere.trans h'.elsewhere)

namespace Alike

theorem refl (b : Broker κ) : b.Alike b := ⟨fun _ => rfl, fun _ => rfl, fun _ => .rfl, .refl b⟩

theorem available (h : b.Alike b') : b'.available = b.available := by
  obtain ⟨_, _, _, rfl⟩ := h.elsewhere
  rfl

theorem confirmMode (h : b.Alike b') : b'.confirmMode = b.confirmMode := by
  obtain ⟨_, _, _, rfl⟩ := h.elsewhere
  rfl

theorem published (h : b.Alike b') : b'.published = b.published := by
  obtain ⟨_, _, _, rfl⟩ := h.elsewhere
  rfl

theorem nextTag (h : b.Alike b') : b'.nextTag = b.nextTag := by
  obtain ⟨_, _, _, rfl⟩ := h.elsewhere
  rfl

theorem worker? (h : b.Alike b') (worker : WorkerId) : b'.worker? worker = b.worker? worker := by
  obtain ⟨_, _, _, rfl⟩ := h.elsewhere
  rfl

theorem queue (h : b.Alike b') (name : String) : b'.queue name = b.queue name :=
  congrArg (·.getD Queue.empty) (h.queues name)

theorem contains (h : b.Alike b') (name : String) :
    b'.queues.contains name = b.queues.contains name := congrArg Option.isSome (h.queues name)

theorem admits (h : b.Alike b') (w : Worker) : b'.admits w = b.admits w := by
  unfold Broker.admits
  rw [h.available, h.queue]

theorem targets (h : b.Alike b') (exchange : String) (t : ExchangeType) (key : String) :
    b'.targets exchange t key = b.targets exchange t key :=
  sortNames_congr fun name => by
    simp only [List.mem_map, List.mem_filter, h.bindings]

theorem reaches (h : b.Alike b') (m : OutboundMessage) : b'.reaches m = b.reaches m := by
  unfold Broker.reaches
  simp only [h.available, h.exchanges, h.targets]

/-! ### Each operation on both -/

/-- The same is done to the rest of both, whatever was declared in them. -/
theorem update (h : b.Alike b') (f : Broker κ → Broker κ)
    (hf : ∀ (b : Broker κ) exchanges queues bindings,
      f { b with exchanges, queues, bindings } = { f b with exchanges, queues, bindings }) :
    (f b).Alike (f b') := by
  have kept : f b =
      { f b with exchanges := b.exchanges, queues := b.queues, bindings := b.bindings } :=
    hf b _ _ _
  obtain ⟨exchanges, queues, bindings, rfl⟩ := h.elsewhere
  rw [hf b exchanges queues bindings]
  generalize f b = c at kept ⊢
  rw [kept]
  exact ⟨h.exchanges, h.queues, h.bindings, _, _, _, rfl⟩

theorem withQueues (h : b.Alike b') {r r' : Registry Queue}
    (hr : ∀ name, r'.get? name = r.get? name) :
    Alike { b with queues := r } { b' with queues := r' } := by
  obtain ⟨_, _, _, rfl⟩ := h.elsewhere
  exact ⟨h.exchanges, hr, h.bindings, _, _, _, rfl⟩

theorem insert (h : b.Alike b') (name : String) (q : Queue) :
    Alike { b with queues := b.queues.insert name q }
      { b' with queues := b'.queues.insert name q } :=
  h.withQueues fun n => by rw [Registry.get?_insert, Registry.get?_insert, h.queues]

theorem pushAll (h : b.Alike b') {names : List String} (hn : names.Nodup) (c : Copy) :
    (b.pushAll names c).Alike (b'.pushAll names c) :=
  h.withQueues fun n => by rw [get?_foldl_modify _ hn, get?_foldl_modify _ hn, h.queues]

theorem recover (h : b.Alike b') (worker : WorkerId) :
    (b.recover worker).Alike (b'.recover worker) := by
  unfold Broker.recover
  rw [h.worker?]
  cases b.worker? worker with
  | none => exact h
  | some w =>
      exact h.withQueues fun n => by rw [Registry.get?_modify, Registry.get?_modify, h.queues]

/-- Both refuse the same declarations. -/
theorem declare_error_iff (h : b.Alike b') {t : Topology} {e : BrokerError} :
    b'.declare t = .error e ↔ b.declare t = .error e := by
  unfold Broker.declare ensureAvailable addExchange
  rw [h.exchanges, h.available]
  cases b.available with
  | false => exact .rfl
  | true =>
      cases b.exchanges.get? t.exchange with
      | none => cases t.queue <;> exact ⟨nofun, nofun⟩
      | some known =>
          by_cases hk : known = t.exchangeType
          · simp only [if_pos hk]
            cases t.queue <;> exact ⟨nofun, nofun⟩
          · simp only [if_neg hk]

theorem declare (h : b.Alike b') (t : Topology) :
    (b.perform (.declare t)).Alike (b'.perform (.declare t)) := by
  dsimp only [perform]
  cases hd : b.declare t with
  | error e =>
      rw [h.declare_error_iff.mpr hd]
      exact h
  | ok c =>
      cases hd' : b'.declare t with
      | error e =>
          rw [h.declare_error_iff.mp hd'] at hd
          cases hd
      | ok c' => exact (declares_single hd).alike (declares_single hd') h fun _ => .rfl

theorem accept (h : b.Alike b') (m : OutboundMessage) (t : ExchangeType) :
    (b.accept m t).Alike (b'.accept m t) := by
  unfold Broker.accept
  rw [h.targets]
  exact (h.pushAll (b.nodup_targets m.exchange t m.routingKey) m.copy).update
    (fun c => { c with published := c.published ++ [_] }) fun _ _ _ _ => rfl

theorem taken (h : b.Alike b') (m : OutboundMessage) (t : ExchangeType) (callback : κ) :
    (b.taken m t callback).broker.Alike (b'.taken m t callback).broker := by
  have accepted := h.accept m t
  unfold Broker.taken
  rw [h.confirmMode]
  cases b.confirmMode with
  | hold =>
      exact accepted.update (fun c => { c with held := c.held ++ [⟨m.correlation, callback⟩] })
        fun _ _ _ _ => rfl
  | _ => exact accepted

theorem publish (h : b.Alike b') (m : OutboundMessage) (callback : κ) :
    (b.perform (.publish m callback)).Alike (b'.perform (.publish m callback)) := by
  by_cases hp : b.available = true ∧ ∃ t, b.exchanges.get? m.exchange = some t
  · obtain ⟨ha, t, he⟩ := hp
    dsimp only [perform]
    rw [publish_of_exchange ha he,
      publish_of_exchange (h.available.trans ha) ((h.exchanges _).trans he)]
    exact h.taken m t callback
  · have refused : ∀ {c : Broker κ}, b.Alike c → c.perform (.publish m callback) = c := by
      intro c hc
      dsimp only [perform]
      cases hr : c.publish m callback with
      | error e => rfl
      | ok p =>
          obtain ⟨t, ha, he, -⟩ := publish_eq_ok hr
          exact absurd ⟨hc.available.symm.trans ha, t, (hc.exchanges _).symm.trans he⟩ hp
    rw [refused (refl b), refused h]
    exact h

theorem startConsumer (h : b.Alike b') (spec : ConsumerSpec) :
    (b.perform (.startConsumer spec)).Alike (b'.perform (.startConsumer spec)) := by
  have started := h.update
    (fun c =>
      { c with
        workers :=
          c.workers ++ (List.range' c.nextWorker spec.concurrency).map
            (⟨·, spec.queue, spec.prefetch⟩)
        nextWorker := c.nextWorker + spec.concurrency })
    fun _ _ _ _ => rfl
  dsimp only [perform]
  unfold Broker.startConsumer ensureAvailable
  rw [h.contains]
  by_cases ha : b.available = true
  · simp only [if_pos ha, if_pos (h.available.trans ha)]
    by_cases hc : spec.concurrency = 0
    · simp only [if_pos hc]
      exact h
    · by_cases hp : spec.prefetch = 0
      · simp only [if_neg hc, if_pos hp]
        exact h
      · simp only [if_neg hc, if_neg hp]
        cases b.queues.contains spec.queue with
        | false => exact h
        | true => exact started
  · simp only [if_neg ha, if_neg (h.available ▸ ha)]
    exact h

theorem take (h : b.Alike b') (worker : WorkerId) :
    (b.perform (.take worker)).Alike (b'.perform (.take worker)) := by
  dsimp only [perform]
  cases hw : b.worker? worker with
  | none =>
      rw [take?_of_no_worker hw, take?_of_no_worker ((h.worker? _).trans hw)]
      exact h
  | some w =>
      rw [take?_eq hw, take?_eq ((h.worker? _).trans hw), h.admits, h.queue, h.nextTag]
      split
      · cases (b.queue w.queue).take? worker b.nextTag with
        | none => exact h
        | some r =>
            exact (h.insert w.queue r.2).update (fun c => { c with nextTag := c.nextTag + 1 })
              fun _ _ _ _ => rfl
      · exact h

theorem settle (h : b.Alike b') (queue : String) (tag : DeliveryTag) (s : Settlement) :
    (b.perform (.settle queue tag s)).Alike (b'.perform (.settle queue tag s)) := by
  dsimp only [perform, Broker.settle]
  rw [h.queues]
  cases b.queues.get? queue with
  | none => exact h
  | some q =>
      dsimp only
      cases q.settle? tag s with
      | none => exact h
      | some r =>
          exact (h.insert queue r.2).update
            (fun c => { c with settlements := c.settlements ++ [⟨tag, queue, r.1.messageId, s⟩] })
            fun _ _ _ _ => rfl

theorem perform (h : b.Alike b') (s : BrokerStep κ) : (b.perform s).Alike (b'.perform s) := by
  cases s with
  | declare t => exact h.declare t
  | publish m callback => exact h.publish m callback
  | enqueue queue messageId payload =>
      dsimp only [Broker.perform, Broker.enqueue]
      rw [h.contains]
      split
      · exact h.pushAll (List.pairwise_singleton _ queue) _
      · exact h
  | startConsumer spec => exact h.startConsumer spec
  | take worker => exact h.take worker
  | settle queue tag s => exact h.settle queue tag s
  | recover worker => exact h.recover worker
  | endWorker worker =>
      exact (h.recover worker).update
        (fun c => { c with workers := c.workers.filter (·.id != worker) }) fun _ _ _ _ => rfl
  | setAvailable available => exact h.update (fun c => { c with available }) fun _ _ _ _ => rfl
  | setConfirmMode confirmMode => exact h.update (fun c => { c with confirmMode }) fun _ _ _ _ => rfl
  | releaseConfirms ack => exact h.update loseConfirms fun _ _ _ _ => rfl
  | loseConfirms => exact h.update loseConfirms fun _ _ _ _ => rfl

theorem run (h : b.Alike b') (steps : List (BrokerStep κ)) :
    (steps.foldl Broker.perform b).Alike (steps.foldl Broker.perform b') := by
  induction steps generalizing b b' with
  | nil => exact h
  | cons s steps ih => exact ih (h.perform s)

end Alike

theorem alike_declareAll {ts ts' : List Topology} (ha : b.available = true)
    (h : b.declareAll ts = .ok b') (same : ∀ t, t ∈ ts' ↔ t ∈ ts) :
    ∃ b'', b.declareAll ts' = .ok b'' ∧ b'.Alike b'' := by
  have declares := declares_declareAll h
  have known : ∀ t ∈ ts', b'.exchanges.get? t.exchange = some t.exchangeType := fun t ht =>
    (declares.exchanges _ _).mpr (.inr ⟨t, (same t).mp ht, rfl, rfl⟩)
  obtain ⟨b'', h'⟩ := exists_declareAll known ha fun he => (declares.exchanges _ _).mpr (.inl he)
  exact ⟨b'', h', declares.alike (declares_declareAll h') (.refl b) same⟩

/-! ## The type of an exchange -/

theorem exchanges_recover (b : Broker κ) (worker : WorkerId) :
    (b.recover worker).exchanges = b.exchanges := by
  unfold recover
  cases b.worker? worker <;> rfl

/-- Nothing but a declaration touches the exchanges. -/
theorem exchanges_perform_of_ne (b : Broker κ) {s : BrokerStep κ} (hd : ∀ t, s ≠ .declare t) :
    (b.perform s).exchanges = b.exchanges := by
  cases s with
  | declare t => exact absurd rfl (hd t)
  | publish m callback =>
      dsimp only [perform]
      cases h : b.publish m callback with
      | error e => rfl
      | ok p =>
          obtain ⟨t, -, -, rfl⟩ := publish_eq_ok h
          show (b.taken m t callback).broker.exchanges = b.exchanges
          unfold taken
          cases b.confirmMode <;> rfl
  | enqueue queue messageId payload =>
      dsimp only [perform, enqueue]
      split <;> rfl
  | startConsumer spec =>
      dsimp only [perform]
      cases h : b.startConsumer spec with
      | error e => rfl
      | ok r =>
          obtain ⟨-, -, -, hr⟩ := startConsumer_eq_ok h
          show r.2.exchanges = b.exchanges
          rw [hr]
  | take worker =>
      dsimp only [perform]
      cases h : b.take? worker with
      | none => rfl
      | some r =>
          obtain ⟨_, _, _, -, -, hr⟩ := take?_eq_some h
          show r.2.exchanges = b.exchanges
          rw [hr]
          rfl
  | settle queue tag s =>
      dsimp only [perform]
      cases h : b.settle queue tag s with
      | error e => rfl
      | ok b' =>
          obtain ⟨_, _, _, -, -, rfl⟩ := settle_eq_ok h
          rfl
  | recover worker => exact b.exchanges_recover worker
  | endWorker worker => exact b.exchanges_recover worker
  | _ => rfl

theorem exchanges_perform {name : String} {t : ExchangeType}
    (h : b.exchanges.get? name = some t) (s : BrokerStep κ) :
    (b.perform s).exchanges.get? name = some t := by
  by_cases hs : ∃ topology, s = .declare topology
  · obtain ⟨topology, rfl⟩ := hs
    dsimp only [perform]
    cases hd : b.declare topology with
    | error e => exact h
    | ok b' => exact (extends_declare hd).exchanges h
  · rw [b.exchanges_perform_of_ne fun topology hd => hs ⟨topology, hd⟩]
    exact h

theorem exchanges_run {name : String} {t : ExchangeType} (h : b.exchanges.get? name = some t)
    (steps : List (BrokerStep κ)) : (steps.foldl perform b).exchanges.get? name = some t := by
  induction steps generalizing b with
  | nil => exact h
  | cons s steps ih => exact ih (exchanges_perform h s)

/-! ## Main result -/

/-- Topologies that can be declared one after another can be declared in any other order and any
number of times each. Brokers that got them in either way refuse the same declarations, have the
same queues with the same on them and route every message to the same queues, whatever is done next.
A declaration that is refused, for want of the broker or as its exchange is of another type, writes
nothing. The type of an exchange never changes. -/
theorem declarations_commute (b : Broker κ) :
    (b.available = true → ∀ ts b₁, b.declareAll ts = .ok b₁ → ∀ ts', (∀ t, t ∈ ts' ↔ t ∈ ts) →
      ∃ b₂, b.declareAll ts' = .ok b₂ ∧ ∀ steps : List (BrokerStep κ),
        let c₁ := steps.foldl perform b₁
        let c₂ := steps.foldl perform b₂
        (∀ t e, c₂.declare t = .error e ↔ c₁.declare t = .error e) ∧
          (∀ name, c₂.queues.get? name = c₁.queues.get? name) ∧
          (∀ m, c₂.reaches m = c₁.reaches m) ∧ c₂.published = c₁.published) ∧
      (∀ t e, b.declare t = .error e → (declareInPlace t).run b = .error e b ∧
        (b.available = false ∨
          ∃ known, b.exchanges.get? t.exchange = some known ∧ known ≠ t.exchangeType)) ∧
      ∀ name t, b.exchanges.get? name = some t → ∀ steps : List (BrokerStep κ),
        (steps.foldl perform b).exchanges.get? name = some t := by
  refine ⟨fun ha ts b₁ h ts' same => ?_, fun t e h => ⟨?_, refused_of_declare h⟩,
    fun name t h steps => exchanges_run h steps⟩
  · obtain ⟨b₂, h', alike⟩ := alike_declareAll ha h same
    refine ⟨b₂, h', fun steps => ?_⟩
    have alike := alike.run steps
    exact ⟨fun t e => alike.declare_error_iff, alike.queues, alike.reaches, alike.published⟩
  · rw [run_declareInPlace, h]

/-- Two exchanges share a queue; one of them is declared twice, before and after the other. Then the
shared queue gets a copy of what is published on either, and the exchanges keep their types. -/
theorem declarations_commute_on_shared_queue :
    let orders : Topology := ⟨"orders", .topic, some "audit", "#"⟩
    let refunds : Topology := ⟨"refunds", .fanout, some "audit", ""⟩
    let other : Topology := ⟨"orders", .direct, some "billing", "paid"⟩
    ∃ b₁ b₂ : Broker Unit, empty.declareAll [orders, refunds] = .ok b₁ ∧
      empty.declareAll [refunds, orders, refunds] = .ok b₂ ∧ b₁.bindings ≠ b₂.bindings ∧
      (∀ m, (b₂.perform (.publish m ())).queues.get? "audit" =
        (b₁.perform (.publish m ())).queues.get? "audit") ∧
      (∃ e, (declareInPlace other).run b₁ = .error e b₁) ∧
      ∀ steps : List (BrokerStep Unit),
        (steps.foldl perform b₁).exchanges.get? "orders" = some .topic := by
  intro orders refunds other
  have same : ∀ t, t ∈ [refunds, orders, refunds] ↔ t ∈ [orders, refunds] := by
    intro t
    simp only [List.mem_cons, List.not_mem_nil, or_false]
    grind
  obtain ⟨b₂, h₂, alike⟩ :=
    (declarations_commute (empty : Broker Unit)).1 rfl [orders, refunds] _ rfl _ same
  obtain ⟨-, refused, kept⟩ := declarations_commute (κ := Unit) _
  refine ⟨_, b₂, rfl, h₂, ?_, fun m => (alike [.publish m ()]).2.1 "audit", ?_, ?_⟩
  · cases h₂
    decide
  · exact ⟨_, (refused other _ rfl).1⟩
  · exact kept "orders" .topic rfl

end Broker

end DurableMessaging
