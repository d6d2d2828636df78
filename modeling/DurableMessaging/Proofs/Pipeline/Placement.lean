import DurableMessaging.Proofs.Outbox.Safety
import DurableMessaging.Proofs.Pipeline.Run

/-!
# What the consumer leaves alone, and where copies are meanwhile

The consumer shares the broker with the outbox, but it neither publishes nor touches the store, so
the books of the outbox stay in order and what was declared stays declared. Copies that it takes it
puts back or away.
-/

namespace DurableMessaging

/-! ## The outbox beside the consumer -/

/-- The two deployments are the same to an outbox, but that more may be declared in the other. -/
structure Deployment.Aside {ρ : Type} (d d' : Deployment ρ) : Prop where
  store : d'.store = d.store := by rfl
  held : d'.broker.held = d.broker.held := by rfl
  published : d'.broker.published = d.broker.published := by rfl
  declared : d.broker.Extends d'.broker := by exact ⟨id, id⟩

namespace Deployment.Aside

theorem declare {ρ : Type} {d : Deployment ρ} {t : Topology} {b : Broker ConfirmCallback}
    (h : d.broker.declare t = .ok b) : d.Aside { d with broker := b } where
  held := congrArg (·.held) (Broker.declare_same h)
  published := congrArg (·.published) (Broker.declare_same h)
  declared := Broker.extends_declare h

theorem conclude {ρ : Type} (d : Deployment ρ) (delivery : Delivery) (v : Verdict) :
    d.Aside (d.conclude delivery v) := by
  unfold Deployment.conclude Deployment.settle
  cases h : d.broker.settle delivery.queue delivery.tag v.action.settlement with
  | error e => exact {}
  | ok b =>
      obtain ⟨q, c, q', -, -, rfl⟩ := Broker.settle_eq_ok h
      exact {}

end Deployment.Aside

namespace Pipeline

/-- One pipeline became the other by something that does not concern the outbox. -/
def Beside (p p' : Pipeline) : Prop :=
  ∃ d, p'.chronicle = (p.withDeployment d).chronicle ∧ p.deployment.Aside d

theorem Beside.refl (p : Pipeline) : p.Beside p := ⟨_, rfl, {}⟩

theorem beside_declare (p : Pipeline) (t : Topology) : p.Beside (p.step (.declare t)) := by
  rcases declare_cases t p.deployment with h | ⟨b, hb, h⟩
  · exact ⟨_, rfl, by rw [h]; exact {}⟩
  · exact ⟨_, rfl, by rw [h]; exact .declare hb⟩

theorem beside_consume (p : Pipeline) (target : ConsumeTarget) : p.Beside (p.consume target) := by
  rcases p.consume_cases target with h | ⟨b, worker, hb, h | ⟨spec, ids, b', hb', h⟩⟩ <;> rw [h]
  · exact .refl p
  · exact ⟨_, rfl, .declare hb⟩
  · have aside := Deployment.Aside.declare hb
    obtain ⟨-, -, -, rfl⟩ := Broker.startConsumer_eq_ok hb'
    exact ⟨_, rfl,
      { held := aside.held
        published := aside.published
        declared := ⟨aside.declared.exchanges, aside.declared.bindings⟩ }⟩

theorem beside_take (p : Pipeline) : p.Beside p.take := by
  rcases p.take_cases with h | ⟨w, e, delivery, b, -, -, ht, h⟩ <;> rw [h]
  · exact .refl p
  · obtain ⟨w, c, q, -, -, rfl⟩ := Broker.take?_eq_some ht
    exact ⟨_, rfl, {}⟩

theorem beside_proceed (p : Pipeline) (reply : Reply HandlerError Bool) :
    p.Beside (p.proceed reply) := by
  cases hi : p.inHand with
  | none =>
      rw [proceed_idle hi]
      exact .refl p
  | some x =>
      obtain ⟨delivery, q⟩ := x
      cases q with
      | done v =>
          rw [proceed_done hi]
          exact ⟨_, rfl, .conclude _ _ _⟩
      | ask call next =>
          rw [proceed_ask hi]
          exact ⟨_, rfl, {}⟩
      | handle payload next =>
          rw [proceed_handle hi]
          exact ⟨_, rfl, {}⟩

theorem step_cases (p : Pipeline) (m : PipelineMove) :
    (∃ o, m = .outbox o) ∨ p.Beside (p.step m) := by
  cases m with
  | outbox o => exact .inl ⟨o, rfl⟩
  | declare t => exact .inr (p.beside_declare t)
  | consume target => exact .inr (p.beside_consume target)
  | take => exact .inr p.beside_take
  | proceed reply => exact .inr (p.beside_proceed reply)
  | sweepCache => exact .inr ⟨_, rfl, {}⟩

theorem history_step (p : Pipeline) (m : PipelineMove) :
    ∃ h, (p.step m).history = p.history ++ h := by
  rcases p.step_cases m with ⟨o, rfl⟩ | ⟨d, hd, -⟩
  · exact ⟨_, rfl⟩
  · exact ⟨[], (congrArg (·.history) hd).trans (List.append_nil _).symm⟩

theorem history_foldl (moves : List PipelineMove) (p : Pipeline) :
    ∃ h, (moves.foldl step p).history = p.history ++ h :=
  History.grow_foldl history_step moves p

theorem allocations_le_foldl (moves : List PipelineMove) (p : Pipeline) :
    p.history.allocations ≤ (moves.foldl step p).history.allocations :=
  History.allocations_le_foldl history_step moves p

/-- The outbox of a pipeline is in order. -/
def Sound (first : RowId) (p : Pipeline) : Prop := p.chronicle.outbox.Sound first p.history

theorem Sound.step {first : RowId} {p : Pipeline} (hs : p.Sound first) (m : PipelineMove)
    (few : (p.step m).history.allocations < UInt64.size) : (p.step m).Sound first := by
  rcases p.step_cases m with ⟨o, rfl⟩ | ⟨d, hd, aside⟩
  · exact Outbox.Sound.step hs o few
  · unfold Sound history
    rw [hd]
    refine ⟨?_, hs.deferred, hs.walking⟩
    show Books first d.store d.broker.held _ _
    rw [aside.store, aside.held]
    exact hs.books

theorem sound_run {now : Instant} {first : RowId} {e : Engine} {moves : List PipelineMove}
    (few : (run now first e moves).history.allocations < UInt64.size) :
    (run now first e moves).Sound first :=
  History.foldl_of_few history_step (fun _ m hs few => Sound.step hs m few) moves
    ⟨Books.start first, nofun, nofun⟩ few

/-! ## Routes last -/

theorem steady_leads (name : String) (m : OutboundMessage) :
    Outbox.Steady fun (d : Deployment Unit) h => d.broker.Leads name m ∧
      ((∃ callback, .accepted m callback ∈ h) → d.broker.Placed name m) where
  quiet := by
    intro d d' h h' hp hd hn
    rw [hd.broker]
    refine ⟨hp.1, ?_⟩
    rintro ⟨callback, hc⟩
    rcases List.mem_append.mp hc with hc | hc
    · exact hp.2 ⟨callback, hc⟩
    · exact absurd hc (hn m callback)
  declare := by
    intro d h t b hp hd
    refine ⟨hp.1.extend (Broker.extends_declare hd), fun hc => ?_⟩
    have same : b.published = d.broker.published :=
      congrArg (·.published) (Broker.declare_same hd)
    unfold Broker.Placed
    rw [same]
    exact hp.2 hc
  accept := by
    intro d h m' t hp he callback
    refine ⟨hp.1, ?_⟩
    rintro ⟨c, hc⟩
    rcases List.mem_append.mp hc with hc | hc
    · exact (hp.2 ⟨c, hc⟩).accept m' t
    · obtain ⟨rfl, rfl⟩ : m = m' ∧ c = callback := by simpa using hc
      exact hp.1.placed_accept he

/-- Once there is a route to a queue, every publish that is taken goes there. -/
theorem leads_foldl (name : String) (msg : OutboundMessage) (moves : List PipelineMove)
    {p : Pipeline} (h : p.deployment.broker.Leads name msg ∧
      ((∃ callback, .accepted msg callback ∈ p.history) → p.deployment.broker.Placed name msg)) :
    let p' := moves.foldl step p
    p'.deployment.broker.Leads name msg ∧
      ((∃ callback, .accepted msg callback ∈ p'.history) → p'.deployment.broker.Placed name msg) := by
  induction moves generalizing p with
  | nil => exact h
  | cons m moves ih =>
      refine ih (p := p.step m) ?_
      rcases p.step_cases m with ⟨o, rfl⟩ | ⟨d, hd, aside⟩
      · exact (steady_leads name msg).step h o
      · unfold deployment history Broker.Placed
        rw [hd]
        show d.broker.Leads name msg ∧ ((∃ callback, .accepted msg callback ∈ p.history) →
          ∃ r ∈ d.broker.published, _)
        rw [aside.published]
        exact ⟨h.1.extend aside.declared, h.2⟩

/-! ## Copies -/

theorem steady_balanced (unacked : String → List Outstanding) :
    Outbox.Steady fun (d : Deployment Unit) _ => d.broker.Balanced ∧
      ∀ name, (d.broker.queue name).unacked = unacked name where
  quiet := by
    intro d d' h h' hp hd _
    rw [hd.broker]
    exact ⟨⟨hp.1.bound, hp.1.balanced⟩, hp.2⟩
  declare := by
    intro d h t b hp hd
    refine ⟨hp.1.declare hd, fun name => ?_⟩
    dsimp only
    rw [Broker.queue_declare hd]
    exact hp.2 name
  accept := by
    intro d h m t hp _ _
    refine ⟨hp.1.accept m t, fun name => ?_⟩
    dsimp only
    rw [Broker.unacked_accept]
    exact hp.2 name

/-- Every copy that was placed is somewhere, and nothing is outstanding but what the worker has in
hand. -/
def Stocked (p : Pipeline) : Prop := p.deployment.broker.Stocked (p.inHand.map (·.1))

namespace Stocked

variable {p : Pipeline}

theorem start (now : Instant) (first : RowId) (e : Engine) : (Pipeline.start now first e).Stocked :=
  .of_idle Broker.balanced_empty fun _ => rfl

theorem consume (hs : p.Stocked) (target : ConsumeTarget) : (p.consume target).Stocked := by
  rcases p.consume_cases target with h | ⟨b, worker, hb, h | ⟨spec, ids, b', hb', h⟩⟩ <;> rw [h]
  · exact hs
  · exact Broker.Stocked.declare hs hb
  · exact (Broker.Stocked.declare hs hb).startConsumer hb'

theorem take (hs : p.Stocked) : p.take.Stocked := by
  rcases p.take_cases with h | ⟨w, e, delivery, b, hi, -, ht, h⟩ <;> rw [h]
  · exact hs
  · unfold Stocked at hs
    rw [hi] at hs
    exact hs.take ht

theorem proceed (hs : p.Stocked) (reply : Reply HandlerError Bool) : (p.proceed reply).Stocked := by
  cases hi : p.inHand with
  | none =>
      rw [proceed_idle hi]
      exact hs
  | some x =>
      obtain ⟨delivery, q⟩ := x
      have hs' : p.deployment.broker.Stocked (some delivery) := by
        unfold Stocked at hs
        rwa [hi] at hs
      cases q with
      | done v =>
          rw [proceed_done hi]
          unfold Deployment.conclude Deployment.settle
          cases h : p.deployment.broker.settle delivery.queue delivery.tag v.action.settlement with
          | error e => exact hs'.settle_error h
          | ok b => exact hs'.settle h
      | ask call next =>
          rw [proceed_ask hi]
          exact hs'
      | handle payload next =>
          rw [proceed_handle hi]
          exact hs'

theorem step (hs : p.Stocked) (m : PipelineMove) : (p.step m).Stocked := by
  cases m with
  | outbox o =>
      have hb := (steady_balanced fun name => (p.deployment.broker.queue name).unacked).step
        (o := p.chronicle.outbox) (h := p.history) ⟨hs.balanced, fun _ => rfl⟩ o
      exact Broker.Stocked.keep hs hb.1 hb.2
  | declare t =>
      dsimp only [Pipeline.step]
      rcases declare_cases t p.deployment with h | ⟨b, hb, h⟩ <;> rw [h]
      · exact hs
      · exact Broker.Stocked.declare hs hb
  | consume target => exact hs.consume target
  | take => exact hs.take
  | proceed reply => exact hs.proceed reply
  | sweepCache => exact hs

end Stocked

theorem stocked_run (now : Instant) (first : RowId) (e : Engine) (moves : List PipelineMove) :
    (run now first e moves).Stocked := by
  suffices h : ∀ p : Pipeline, p.Stocked → (moves.foldl Pipeline.step p).Stocked from
    h _ (.start now first e)
  induction moves with
  | nil => exact fun _ hs => hs
  | cons m moves ih => exact fun p hs => ih _ (hs.step m)

end Pipeline

end DurableMessaging
