import DurableMessaging.Proofs.Broker.Routing
import DurableMessaging.Proofs.Outbox.Safety
import DurableMessaging.Proofs.Outbox.Strays

/-!
# What a row is published as

A sender publishes the row that it staged, and a pass the row that it found in the table. Whoever
does it, and whatever else the broker is used for, the message is that of the row as it was
committed.
-/

namespace DurableMessaging

variable {ρ : Type}

/-! ## Publishes that were taken -/

namespace Broker

variable {κ : Type}

/-- The broker took some messages and routed each to some queues. It logged that and put the copies
on the queues, on which nothing else has changed. -/
structure Took (b b' : Broker κ) (taken : List (OutboundMessage × List String)) : Prop where
  published : b'.published = b.published ++ taken.map fun (m, routedTo) =>
    ⟨m.exchange, m.routingKey, m.messageId, m.correlation, routedTo⟩
  queue : ∀ name, b'.queue name =
    { b.queue name with
      ready := (b.queue name).ready ++ (taken.filter (name ∈ ·.2)).map (·.1.copy) }

namespace Took

variable {b b' b'' : Broker κ} {taken : List (OutboundMessage × List String)}

theorem refl (b : Broker κ) : b.Took b [] where
  published := (List.append_nil _).symm
  queue name := by
    rw [List.filter_nil, List.map_nil, List.append_nil]

theorem same (h : b.Took b' taken) (hp : b''.published = b'.published)
    (hq : ∀ name, b''.queue name = b'.queue name) : b.Took b'' taken where
  published := hp.trans h.published
  queue name := (hq name).trans (h.queue name)

theorem declare (h : b.Took b' taken) {t : Topology} (hd : b'.declare t = .ok b'') :
    b.Took b'' taken :=
  h.same (congrArg (·.published) (declare_same hd)) (queue_declare hd)

theorem accept (h : b.Took b' taken) (bound : b'.Bound) (m : OutboundMessage) (t : ExchangeType) :
    b.Took (b'.accept m t) (taken ++ [(m, b'.targets m.exchange t m.routingKey)]) where
  published := by
    rw [published_accept, h.published, List.map_append, List.append_assoc]
    rfl
  queue name := by
    rw [queue_accept, h.queue, List.filter_append, List.map_append, ← List.append_assoc]
    by_cases hn : name ∈ b'.targets m.exchange t m.routingKey
    · obtain ⟨q, hq⟩ := bound.get?_of_mem_targets hn
      have declared : b'.queues.contains name = true := Option.isSome_iff_exists.mpr ⟨q, hq⟩
      rw [if_pos ⟨hn, declared⟩, List.filter_cons_of_pos (by simpa using hn)]
      rfl
    · rw [if_neg fun h => hn h.1, List.filter_cons_of_neg (by simpa using hn), List.filter_nil,
        List.map_nil, List.append_nil]
      rfl

end Took

end Broker

/-- What an outbox does to log and queues is to publish what its history says. -/
theorem Outbox.steady_took (b : Broker ConfirmCallback) :
    Steady fun (d : Deployment ρ) h => d.broker.Bound ∧
      ∃ taken, b.Took d.broker taken ∧ taken.map (·.1) = h.publishes where
  quiet := by
    rintro d d' h h' ⟨bound, taken, took, same⟩ hd hn
    rw [hd.broker, History.publishes_append_of_none hn]
    exact ⟨bound, taken, took.same rfl fun _ => rfl, same⟩
  declare := by
    rintro d h t b' ⟨bound, taken, took, same⟩ hd
    exact ⟨Broker.bound_declare bound hd, taken, took.declare hd, same⟩
  accept := by
    rintro d h m t ⟨bound, taken, took, same⟩ - callback
    refine ⟨bound.accept m t, _, took.accept bound m t, ?_⟩
    rw [History.publishes_append, List.map_append, same]
    rfl

/-! ## Messages without a row -/

theorem Broker.held_taken_ignored (b : Broker ConfirmCallback) (m : OutboundMessage)
    (t : ExchangeType) :
    (b.taken m t .ignore).broker.withoutStrays.held = b.withoutStrays.held := by
  unfold taken
  cases b.confirmMode with
  | ack => rfl
  | nack => rfl
  | hold => exact (List.filter_append _ _).trans (List.append_nil _)

/-- Publishing a message without a row declares its exchange, takes a draw and puts the message into
log and queues, or stops on the way. Nobody waits for the confirm. -/
theorem Sender.sendUnstored_cases (s : Sender) (exchange routingKey payload : String)
    (d : Deployment ρ) (bound : d.broker.Bound) :
    ∃ b draws taken,
      (s.sendUnstored .inMemory exchange routingKey payload d).2 = { d with broker := b, draws } ∧
      b.withoutStrays.held = d.broker.withoutStrays.held ∧ b.Bound ∧ d.broker.Took b taken ∧
      ∀ x ∈ taken, x.1.correlation = none := by
  simp only [sendUnstored, Gateway.inMemory]
  cases hd : d.broker.declare (.ofExchange exchange s.exchangeType) with
  | error e => exact ⟨d.broker, d.draws, [], rfl, rfl, bound, .refl _, List.forall_mem_nil _⟩
  | ok b =>
      have held : b.held = d.broker.held := congrArg (·.held) (Broker.declare_same hd)
      have bound' : b.Bound := Broker.bound_declare bound hd
      have took : d.broker.Took b [] := (Broker.Took.refl _).declare hd
      have kept : b.withoutStrays.held = d.broker.withoutStrays.held := congrArg (List.filter _) held
      dsimp only
      generalize hm : OutboundMessage.mk exchange routingKey (MessageId.ofDraw d.draws) payload.toUTF8
        none = m
      cases hp : b.publish m .ignore with
      | error e => exact ⟨b, d.draws + 1, [], rfl, kept, bound', took, List.forall_mem_nil _⟩
      | ok p =>
          have bound'' := bound'.publish hp
          obtain ⟨t, -, -, rfl⟩ := Broker.publish_eq_ok hp
          obtain ⟨log, queues⟩ := b.taken_eq_accept m t .ignore
          have took' := (took.accept bound' m t).same log fun name =>
            congrArg (fun r : Registry Queue => (r.get? name).getD .empty) queues
          refine ⟨_, d.draws + 1, _, ?_, (b.held_taken_ignored m t).trans kept, bound'', took', ?_⟩
          · unfold Broker.taken
            cases b.confirmMode <;> rfl
          · rintro x (_ | ⟨_, ⟨⟩⟩)
            exact hm ▸ rfl

/-! ## Runs -/

/-- What an outbox does, and what else its broker is used for. -/
inductive TrafficMove where
  | outbox (m : OutboxMove)
  | sendUnstored (sender : Sender) (exchange routingKey payload : String)
  /-- A step of the broker that publishes nothing, such as those of a consumer. -/
  | broker (s : BrokerStep ConfirmCallback) (quiet : ∀ m callback, s ≠ .publish m callback)

/-- What a move publishes, between the deployments before and after it. -/
def TrafficMove.Publishes (rows : List Row) (d d' : Deployment ρ) : TrafficMove → Prop
  | .outbox _ => ∃ taken, d.broker.Took d'.broker taken ∧ ∀ x ∈ taken, ∃ row ∈ rows,
    x.1 = ⟨row.exchange, row.routingKey, row.messageId, row.payload.toUTF8, some row.id⟩
  | .sendUnstored _ _ _ _ =>
    d' = { d with broker := d'.broker, draws := d'.draws } ∧
      ∃ taken, d.broker.Took d'.broker taken ∧ ∀ x ∈ taken, x.1.correlation = none
  | .broker _ _ => d'.store = d.store ∧ d'.broker.published = d.broker.published

theorem TrafficMove.Publishes.mono {rows rows' : List Row} {d d' : Deployment ρ} {m : TrafficMove}
    (h : m.Publishes rows d d') (hr : rows ⊆ rows') : m.Publishes rows' d d' := by
  cases m with
  | outbox m =>
      obtain ⟨taken, took, messages⟩ := h
      exact ⟨taken, took, fun x hx => (messages x hx).imp fun row hrow => ⟨hr hrow.1, hrow.2⟩⟩
  | sendUnstored sender exchange routingKey payload => exact h
  | broker s quiet => exact h

theorem TrafficMove.Publishes.mem_published {rows : List Row} {d d' : Deployment ρ}
    {m : TrafficMove} (h : m.Publishes rows d d') {r : PublishRecord}
    (hr : r ∈ d'.broker.published) : r ∈ d.broker.published ∨ r.correlation = none ∨
      ∃ row ∈ rows, r.logged = row.message.logged := by
  cases m with
  | outbox m =>
      obtain ⟨taken, took, messages⟩ := h
      rw [took.published, List.mem_append] at hr
      refine hr.imp_right fun hr => .inr ?_
      obtain ⟨x, hx, rfl⟩ := List.mem_map.mp hr
      obtain ⟨row, hrow, message⟩ := messages x hx
      exact ⟨row, hrow, congrArg OutboundMessage.logged message⟩
  | sendUnstored sender exchange routingKey payload =>
      obtain ⟨-, taken, took, uncorrelated⟩ := h
      rw [took.published, List.mem_append] at hr
      refine hr.imp_right fun hr => .inl ?_
      obtain ⟨x, hx, rfl⟩ := List.mem_map.mp hr
      exact uncorrelated x hx
  | broker s quiet => exact .inl (h.2 ▸ hr)

namespace Chronicle

/-- The history goes on with the moves of the outbox. -/
def carry (c : Chronicle ρ) : TrafficMove → Chronicle ρ
  | .outbox m => c.step m
  | .sendUnstored sender exchange routingKey payload =>
    { c with
      outbox.deployment :=
        (sender.sendUnstored .inMemory exchange routingKey payload c.outbox.deployment).2 }
  | .broker s _ => { c with outbox.deployment.broker := c.outbox.deployment.broker.perform s }

/-- The moves of a run, from an outbox with an empty table. -/
def traffic (now : Instant) (first : RowId) (rig : ρ) (moves : List TrafficMove) : Chronicle ρ :=
  moves.foldl carry ⟨.start now first rig, []⟩

theorem history_carry (c : Chronicle ρ) (m : TrafficMove) :
    ∃ h, (c.carry m).history = c.history ++ h := by
  cases m with
  | outbox m => exact ⟨_, rfl⟩
  | _ => exact ⟨[], (List.append_nil _).symm⟩

/-- What holds at all times. The confirms of messages without a row are no part of the books. -/
structure Orderly (first : RowId) (c : Chronicle ρ) : Prop where
  sound : c.outbox.withoutStrays.Sound first c.history.withoutStrays
  bound : c.outbox.deployment.broker.Bound
  logged : ∀ r ∈ c.outbox.deployment.broker.published, r.correlation ≠ none →
    ∃ row ∈ c.history.committed, r.logged = row.message.logged

namespace Orderly

variable {first : RowId} {c : Chronicle ρ}

theorem start (now : Instant) (first : RowId) (rig : ρ) :
    (⟨.start now first rig, []⟩ : Chronicle ρ).Orderly first where
  sound := .start now first rig
  bound := nofun
  logged := nofun

/-- The outbox is in order if a move beside it leaves its store alone and has it wait for no other
confirms. -/
theorem sound_beside (h : c.Orderly first) {d : Deployment ρ}
    (store : d.store = c.outbox.deployment.store)
    (held : d.withoutStrays.broker.held.Sublist
      c.outbox.deployment.withoutStrays.broker.held) :
    (Outbox.withoutStrays { c.outbox with deployment := d }).Sound first c.history.withoutStrays where
  books := by
    have books : Books first c.outbox.deployment.store _ _ _ := h.sound.books
    exact (store ▸ books).forget held
  deferred := h.sound.deferred
  walking := h.sound.walking

theorem step_sound (h : c.Orderly first) (m : OutboxMove)
    (few : (c.step m).history.allocations < UInt64.size) :
    (c.step m).outbox.withoutStrays.Sound first (c.step m).history.withoutStrays := by
  have few' : History.allocations (c.history.withoutStrays ++ c.outbox.withoutStrays.events m) <
      UInt64.size := by
    rwa [Outbox.events_withoutStrays, ← History.withoutStrays_append,
      History.allocations_withoutStrays]
  have sound := h.sound.step m few'
  rwa [Outbox.step_withoutStrays, Outbox.events_withoutStrays, ← History.withoutStrays_append]
    at sound

theorem eq_of_id_eq (h : c.Orderly first) {row other : Row} (hrow : row ∈ c.history.committed)
    (hother : other ∈ c.history.committed) (hid : other.id = row.id) : other = row := by
  rw [← History.committed_withoutStrays] at hrow hother
  exact h.sound.books.eq_of_id_eq (List.mem_append_left _ (List.mem_append_right _ hother))
    (List.mem_append_left _ (List.mem_append_right _ hrow)) hid

theorem publishes_outbox (h : c.Orderly first) (m : OutboxMove)
    (few : (c.step m).history.allocations < UInt64.size) :
    (c.step m).outbox.deployment.broker.Bound ∧
      TrafficMove.Publishes (c.step m).history.committed c.outbox.deployment
        (c.step m).outbox.deployment (.outbox m) := by
  obtain ⟨bound, taken, took, same⟩ := (Outbox.steady_took c.outbox.deployment.broker).step
    (o := c.outbox) (h := []) ⟨h.bound, [], .refl _, rfl⟩ m
  refine ⟨bound, taken, took, fun x hx => ?_⟩
  have published : x.1 ∈ (c.outbox.events m).publishes := same ▸ List.mem_map_of_mem hx
  obtain ⟨callback, accepted⟩ := History.mem_publishes.mp published
  have kept : .accepted x.1 callback ∈ (c.step m).history.withoutStrays :=
    History.accepted_mem_withoutStrays.mpr (List.mem_append_right _ accepted)
  obtain ⟨earlier, later, split⟩ := List.append_of_mem kept
  -- the row's commit comes before the publish, perhaps in the same move
  obtain ⟨row, settler, committed, message, -⟩ :=
    (h.step_sound m few).books.inOrder earlier x.1 callback later split
  refine ⟨row, ?_, message⟩
  rw [← History.committed_withoutStrays, History.mem_committed, split]
  exact List.mem_append_left _ committed

theorem publishes (h : c.Orderly first) (m : TrafficMove)
    (few : (c.carry m).history.allocations < UInt64.size) :
    m.Publishes (c.carry m).history.committed c.outbox.deployment (c.carry m).outbox.deployment := by
  cases m with
  | outbox m => exact (h.publishes_outbox m few).2
  | sendUnstored sender exchange routingKey payload =>
      obtain ⟨b, draws, taken, sent, -, -, took, uncorrelated⟩ :=
        sender.sendUnstored_cases exchange routingKey payload _ h.bound
      dsimp only [Chronicle.carry]
      rw [sent]
      exact ⟨rfl, taken, took, uncorrelated⟩
  | broker s quiet => exact ⟨rfl, (Broker.perform_quiet _ quiet).1⟩

theorem carry (h : c.Orderly first) (m : TrafficMove)
    (few : (c.carry m).history.allocations < UInt64.size) : (c.carry m).Orderly first := by
  have logged : ∀ r ∈ (c.carry m).outbox.deployment.broker.published, r.correlation ≠ none →
      ∃ row ∈ (c.carry m).history.committed, r.logged = row.message.logged := by
    intro r hr correlated
    rcases (h.publishes m few).mem_published hr with hr | uncorrelated | ⟨row, hrow, same⟩
    · obtain ⟨row, hrow, same⟩ := h.logged r hr correlated
      obtain ⟨h', hh⟩ := c.history_carry m
      refine ⟨row, ?_, same⟩
      rw [hh, History.committed_append]
      exact List.mem_append_left _ hrow
    · exact absurd uncorrelated correlated
    · exact ⟨row, hrow, same⟩
  cases m with
  | outbox m => exact ⟨h.step_sound m few, (h.publishes_outbox m few).1, logged⟩
  | sendUnstored sender exchange routingKey payload =>
      obtain ⟨b, draws, taken, sent, held, bound, -, -⟩ :=
        sender.sendUnstored_cases exchange routingKey payload _ h.bound
      refine ⟨?_, ?_, logged⟩ <;> dsimp only [Chronicle.carry] <;> rw [sent]
      · exact h.sound_beside rfl (held ▸ List.Sublist.refl b.withoutStrays.held)
      · exact bound
  | broker s quiet =>
      refine ⟨h.sound_beside rfl ?_, h.bound.perform s, logged⟩
      exact (Broker.perform_quiet _ quiet).2.filter _

end Orderly

theorem orderly_traffic {now : Instant} {first : RowId} {rig : ρ} {moves : List TrafficMove}
    (few : (traffic now first rig moves).history.allocations < UInt64.size) :
    (traffic now first rig moves).Orderly first :=
  History.foldl_of_few history_carry (fun _ m h few => h.carry m few) moves
    (.start now first rig) few

theorem traffic_append (now : Instant) (first : RowId) (rig : ρ) (moves later : List TrafficMove) :
    traffic now first rig (moves ++ later) = later.foldl carry (traffic now first rig moves) :=
  List.foldl_append

theorem publishes_move {now : Instant} {first : RowId} {rig : ρ} {earlier later : List TrafficMove}
    {m : TrafficMove}
    (few : (traffic now first rig (earlier ++ m :: later)).history.allocations < UInt64.size) :
    m.Publishes (traffic now first rig (earlier ++ m :: later)).history.committed
      (traffic now first rig earlier).outbox.deployment
      (traffic now first rig (earlier ++ [m])).outbox.deployment := by
  have after : traffic now first rig (earlier ++ m :: later) =
      later.foldl carry ((traffic now first rig earlier).carry m) := traffic_append ..
  rw [after] at few ⊢
  have upTo := Nat.lt_of_le_of_lt (History.allocations_le_foldl history_carry later _) few
  have before := Nat.lt_of_le_of_lt (History.allocations_le_foldl history_carry [m] _) upTo
  obtain ⟨h, hh⟩ := History.grow_foldl history_carry later ((traffic now first rig earlier).carry m)
  rw [traffic_append]
  refine ((orderly_traffic before).publishes m upTo).mono ?_
  rw [hh, History.committed_append]
  exact List.subset_append_left _ _

/-- While ids last, a publish that the broker logged under the id of a row has exchange, routing key
and message id of that row as it was committed, so that any two of them agree. Whatever the outbox
publishes has the names, the payload and the id of a committed row, and just so are the copies. A
message that is sent without a row leaves the store alone, its publish has no correlation, and
nothing is done when its confirm comes. -/
theorem publishes_rows_as_committed (now : Instant) (first : RowId) (rig : ρ)
    (moves : List TrafficMove)
    (few : (traffic now first rig moves).history.allocations < UInt64.size) :
    let d := (traffic now first rig moves).outbox.deployment
    let rows := (traffic now first rig moves).history.committed
    (∀ r ∈ d.broker.published, ∀ id, r.correlation = some id → ∃ row ∈ rows, row.id = id ∧
      (∀ other ∈ rows, other.id = id → other = row) ∧ r.exchange = row.exchange ∧
      r.routingKey = row.routingKey ∧ r.messageId = row.messageId) ∧
      (∀ r ∈ d.broker.published, ∀ r' ∈ d.broker.published, r.correlation ≠ none →
        r'.correlation = r.correlation → r'.exchange = r.exchange ∧
          r'.routingKey = r.routingKey ∧ r'.messageId = r.messageId) ∧
      (∀ earlier m later, moves = earlier ++ m :: later →
        m.Publishes rows (traffic now first rig earlier).outbox.deployment
          (traffic now first rig (earlier ++ [m])).outbox.deployment) ∧
      ∀ c ∈ d.broker.held, c.correlation = none → ∀ confirm, d.fire c.callback confirm = d := by
  intro d rows
  have orderly := orderly_traffic few
  have ofRow : ∀ r ∈ d.broker.published, r.correlation ≠ none →
      ∃ row ∈ rows, r.logged = row.message.logged := orderly.logged
  refine ⟨?_, ?_, ?_, ?_⟩
  · intro r hr id hid
    obtain ⟨row, hrow, same⟩ := ofRow r hr (hid ▸ nofun)
    obtain rfl : row.id = id := Option.some.inj ((congrArg (·.2.2.2) same).symm.trans hid)
    exact ⟨row, hrow, rfl, fun other hother => orderly.eq_of_id_eq hrow hother,
      congrArg (·.1) same, congrArg (·.2.1) same, congrArg (·.2.2.1) same⟩
  · intro r hr r' hr' correlated hid
    obtain ⟨row, hrow, same⟩ := ofRow r hr correlated
    obtain ⟨row', hrow', same'⟩ := ofRow r' hr' (hid ▸ correlated)
    have ids : some row'.id = some row.id :=
      (congrArg (·.2.2.2) same').symm.trans (hid.trans (congrArg (·.2.2.2) same))
    obtain rfl : row' = row := orderly.eq_of_id_eq hrow hrow' (Option.some.inj ids)
    have agree : r'.logged = r.logged := same'.trans same.symm
    exact ⟨congrArg (·.1) agree, congrArg (·.2.1) agree, congrArg (·.2.2.1) agree⟩
  · rintro earlier m later rfl
    exact publishes_move few
  · intro c hc uncorrelated confirm
    cases awaited : c.awaited with
    | false => exact Deployment.fire_stray awaited d confirm
    | true =>
        obtain ⟨row, settler, -, rfl, -⟩ :=
          orderly.sound.books.awaited c (List.mem_filter.mpr ⟨hc, awaited⟩)
        cases uncorrelated

/-- A row whose confirm is lost is published again, after a message without a row. -/
theorem publishes_row_again_as_committed :
    let moves : List TrafficMove :=
      [.outbox (.addSettler .delete), .outbox (.setConfirmMode .hold),
        .outbox (.trySend ⟨0, .direct⟩ ⟨"orders", "placed", "1", some "billing", none, none⟩),
        .outbox .loseHeld, .sendUnstored ⟨0, .direct⟩ "orders" "placed" "2",
        .outbox (.startPass ⟨0, 1, 0⟩), .outbox (.stepPass 0), .outbox (.stepPass 0)]
    let d := (traffic 0 41 () moves).outbox.deployment
    (traffic 0 41 () moves).history.allocations < UInt64.size ∧
      d.broker.published.map (·.correlation) = [some 41, none, some 41] ∧
      ∀ r ∈ d.broker.published, ∀ r' ∈ d.broker.published, r.correlation ≠ none →
        r'.correlation = r.correlation → r'.exchange = r.exchange ∧
          r'.routingKey = r.routingKey ∧ r'.messageId = r.messageId :=
  ⟨by decide, by decide, (publishes_rows_as_committed 0 41 () _ (by decide)).2.1⟩

end Chronicle

end DurableMessaging
