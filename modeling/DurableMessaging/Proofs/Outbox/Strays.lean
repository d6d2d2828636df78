import DurableMessaging.Proofs.Outbox.Steady

/-!
# Confirms that no row waits for

Messages without a row leave confirms with the broker that nothing is done with. An outbox goes on in
the same way whether they are among the held confirms or not.
-/

namespace DurableMessaging

variable {ρ : Type}

/-! ## The broker -/

/-- Whether anything is done with the confirm when it comes. -/
def HeldConfirm.awaited (c : HeldConfirm ConfirmCallback) : Bool := c.callback != .ignore

namespace Broker

/-- The broker without the held confirms that nothing waits for. -/
def withoutStrays (b : Broker ConfirmCallback) : Broker ConfirmCallback :=
  { b with held := b.held.filter (·.awaited) }

theorem addExchange_withoutStrays (b : Broker ConfirmCallback) (name : String) (t : ExchangeType) :
    b.withoutStrays.addExchange name t = (b.addExchange name t).map withoutStrays := by
  unfold addExchange
  dsimp only [withoutStrays]
  cases b.exchanges.get? name with
  | none => rfl
  | some known =>
      dsimp only
      split <;> rfl

theorem declare_withoutStrays (b : Broker ConfirmCallback) (t : Topology) :
    b.withoutStrays.declare t = (b.declare t).map withoutStrays := by
  unfold declare
  rw [addExchange_withoutStrays]
  show b.ensureAvailable >>= _ = _
  cases b.ensureAvailable with
  | error e => rfl
  | ok _ =>
      cases b.addExchange t.exchange t.exchangeType with
      | error e => rfl
      | ok b₁ => cases t.queue <;> rfl

theorem taken_withoutStrays (b : Broker ConfirmCallback) (m : OutboundMessage) (t : ExchangeType)
    (settler : Nat) (row : RowId) :
    b.withoutStrays.taken m t (.settle settler row) =
      ⟨(b.taken m t (.settle settler row)).broker.withoutStrays,
        (b.taken m t (.settle settler row)).confirm⟩ := by
  obtain ⟨_, _, _, _, _, _, _, mode, held, _, _⟩ := b
  cases mode with
  | ack => rfl
  | nack => rfl
  | hold =>
      -- a settler waits for the new confirm, so that one stays
      have kept : List.filter HeldConfirm.awaited (held ++ [⟨m.correlation, .settle settler row⟩]) =
          held.filter (·.awaited) ++ [⟨m.correlation, .settle settler row⟩] := List.filter_append _ _
      unfold taken withoutStrays
      dsimp only
      rw [kept]
      rfl

theorem publish_withoutStrays (b : Broker ConfirmCallback) (m : OutboundMessage) (settler : Nat)
    (row : RowId) :
    b.withoutStrays.publish m (.settle settler row) =
      (b.publish m (.settle settler row)).map fun p => ⟨p.broker.withoutStrays, p.confirm⟩ := by
  obtain ⟨exchanges, _, _, _, _, _, available, _, _, _, _⟩ := b
  cases available with
  | false => rfl
  | true =>
      cases he : exchanges.get? m.exchange with
      | none =>
          unfold publish withoutStrays
          dsimp only
          rw [he]
          rfl
      | some t =>
          rw [publish_of_exchange rfl he, publish_of_exchange rfl he, taken_withoutStrays]
          rfl

end Broker

/-! ## The deployment -/

namespace Deployment

def withoutStrays (d : Deployment ρ) : Deployment ρ := { d with broker := d.broker.withoutStrays }

@[simp] theorem store_withoutStrays (d : Deployment ρ) : d.withoutStrays.store = d.store := rfl

theorem fire_withoutStrays (d : Deployment ρ) (callback : ConfirmCallback) (confirm : Confirm) :
    d.withoutStrays.fire callback confirm = (d.fire callback confirm).withoutStrays := by
  induction callback generalizing confirm with
  | settle settler row =>
      simp only [fire, settleConfirm]
      dsimp only [withoutStrays]
      cases d.settlers[settler]? <;> rfl
  | ignore => rfl
  | keep => rfl
  | relabel correlation callback ih => exact ih _

theorem fire_stray {c : HeldConfirm ConfirmCallback} (h : c.awaited = false) (d : Deployment ρ)
    (confirm : Confirm) : d.fire c.callback confirm = d := by
  have ignored : c.callback = .ignore := bne_eq_false_iff_eq.mp h
  rw [ignored]
  rfl

theorem publishRow_withoutStrays (settler : Nat) (row : Row) (d : Deployment ρ) :
    Gateway.inMemory.publishRow settler row d.withoutStrays =
      (Gateway.inMemory.publishRow settler row d).map id withoutStrays := by
  simp only [Gateway.publishRow, Gateway.inMemory]
  have hd : d.withoutStrays.broker.declare row.topology = _ :=
    d.broker.declare_withoutStrays row.topology
  rw [hd]
  cases d.broker.declare row.topology with
  | error e => rfl
  | ok b =>
      dsimp only [Except.map]
      rw [b.publish_withoutStrays]
      cases b.publish row.message (.settle settler row.id) with
      | error e => rfl
      | ok p =>
          obtain ⟨b', _ | ⟨callback, confirm⟩⟩ := p
          · rfl
          · exact congrArg (Prod.mk _) (fire_withoutStrays { d with broker := b' } _ _)

theorem perform_withoutStrays (a : Announcement) (d : Deployment ρ) :
    a.perform .inMemory d.withoutStrays = (a.perform .inMemory d).map id withoutStrays := by
  unfold Announcement.perform
  rw [publishRow_withoutStrays]
  rcases Gateway.inMemory.publishRow a.settler a.row d with ⟨_ | _ | _, d'⟩ <;> rfl

theorem runAll_withoutStrays (as : List Announcement) (report : CommitReport) (d : Deployment ρ) :
    UnitOfWork.runAll (Announcement.perform .inMemory) as report d.withoutStrays =
      (UnitOfWork.runAll (Announcement.perform .inMemory) as report d).map id withoutStrays := by
  induction as generalizing report d with
  | nil => rfl
  | cons a as ih =>
      unfold UnitOfWork.runAll
      rw [perform_withoutStrays]
      exact ih _ _

theorem commit_withoutStrays (u : UnitOfWork Announcement) (d : Deployment ρ) :
    u.commit (Announcement.perform .inMemory) d.withoutStrays =
      (u.commit (Announcement.perform .inMemory) d).map id withoutStrays := by
  unfold UnitOfWork.commit
  rw [store_withoutStrays]
  rcases d.store.commit u.staged with ⟨_ | _, store⟩
  · rfl
  · have runs := runAll_withoutStrays u.deferred .zero { d with store }
    exact congrArg (Prod.map Except.ok id) runs

theorem sendIn_withoutStrays (s : Sender) (u : UnitOfWork Announcement) (draft : Draft)
    (d : Deployment ρ) :
    s.sendIn id u draft d.withoutStrays = (s.sendIn id u draft d).map id withoutStrays := by
  unfold Sender.sendIn
  dsimp only [withoutStrays]
  rcases d.store.allocateId with e | ⟨rowId, store⟩
  · rfl
  · dsimp only
    cases u.stage store (s.row draft rowId (MessageId.ofDraw d.draws) d.now) <;> rfl

theorem trySend_withoutStrays (s : Sender) (draft : Draft) (d : Deployment ρ) :
    s.trySend .inMemory draft d.withoutStrays =
      (s.trySend .inMemory draft d).map id withoutStrays := by
  unfold Sender.trySend
  rw [store_withoutStrays]
  cases (UnitOfWork.start d.store : Except StoreError (UnitOfWork Announcement)) with
  | error e => rfl
  | ok u =>
      dsimp only
      rw [sendIn_withoutStrays]
      rcases s.sendIn id u draft d with ⟨_ | ⟨rowId, u⟩, d'⟩
      · rfl
      · dsimp only [Prod.map, id]
        rw [commit_withoutStrays]
        rcases u.commit (Announcement.perform .inMemory) d' with ⟨_ | _, d'⟩ <;> rfl

theorem visit_withoutStrays (r : Resender) (report : PassReport) (row : Row) (rest : PassPhase)
    (d : Deployment ρ) :
    Pass.visit .inMemory r report row rest d.withoutStrays =
      (Pass.visit .inMemory r report row rest d).map id withoutStrays := by
  unfold Pass.visit
  show ite (row.age d.now < r.minAge) _ _ = _
  split
  · rfl
  · rw [publishRow_withoutStrays]
    rcases Gateway.inMemory.publishRow r.settler row d with ⟨_ | e | _, d'⟩
    · rfl
    · dsimp only [Prod.map, id]
      cases e.isUnavailable <;> rfl
    · rfl

theorem passStep_withoutStrays (r : Resender) (p : Pass) (d : Deployment ρ) :
    p.step .inMemory r d.withoutStrays = (p.step .inMemory r d).map id withoutStrays := by
  obtain ⟨report, phase⟩ := p
  cases phase with
  | query after => rfl
  | walk rows last short =>
      cases rows with
      | nil => cases short <;> rfl
      | cons row rows => exact visit_withoutStrays _ _ _ _ _

theorem passRun_withoutStrays (r : Resender) (p : Pass) (d : Deployment ρ) :
    p.run .inMemory r d.withoutStrays = (p.run .inMemory r d).map id withoutStrays := by
  have same := passStep_withoutStrays r p d
  rw [Pass.run, Pass.run]
  rcases hs : p.step .inMemory r d with ⟨p' | outcome, d'⟩
  · rw [hs] at same
    rw [same]
    exact passRun_withoutStrays r p' d'
  · rw [hs] at same
    rw [same]
    rfl
termination_by p.measure
decreasing_by exact Pass.measure_step ‹_›

/-- The confirms that nothing waits for can be left out when the others are fired. -/
theorem fireAll_withoutStrays (due : List (HeldConfirm ConfirmCallback)) (ack : Bool)
    (d : Deployment ρ) :
    ((due.filter (·.awaited)).map fun c => (c.callback, Confirm.ofAck c.correlation ack)).foldl
        (fun d c => d.fire c.1 c.2) d.withoutStrays =
      ((due.map fun c => (c.callback, Confirm.ofAck c.correlation ack)).foldl
        (fun d c => d.fire c.1 c.2) d).withoutStrays := by
  induction due generalizing d with
  | nil => rfl
  | cons c due ih =>
      cases hc : c.awaited with
      | true =>
          rw [List.filter_cons_of_pos hc, List.map_cons, List.foldl_cons, fire_withoutStrays]
          exact ih _
      | false =>
          rw [List.filter_cons_of_neg (Bool.eq_false_iff.mp hc), ih, List.map_cons, List.foldl_cons,
            fire_stray hc]

theorem settleHeld_withoutStrays (d : Deployment ρ) (ack : Bool) :
    (d.withoutStrays.settleHeld ack).2 = (d.settleHeld ack).2.withoutStrays :=
  fireAll_withoutStrays d.broker.held ack { d with broker := { d.broker with held := [] } }

end Deployment

/-! ## Histories -/

namespace History

/-- The history without the firings of confirms that nothing waited for. -/
def withoutStrays (h : History) : History :=
  h.filter fun | .fired callback _ => callback != .ignore | _ => true

@[simp] theorem withoutStrays_append (h h' : History) :
    withoutStrays (h ++ h') = h.withoutStrays ++ h'.withoutStrays := List.filter_append _ _

theorem withoutStrays_map {α : Type} {f : α → OutboxEvent}
    (hf : ∀ x, withoutStrays [f x] = [f x]) (xs : List α) :
    withoutStrays (xs.map f) = xs.map f := by
  induction xs with
  | nil => rfl
  | cons x xs ih =>
      rw [List.map_cons, ← List.singleton_append, withoutStrays_append, hf, ih]

theorem withoutStrays_allocateEvents (s : Store) :
    s.allocateEvents.withoutStrays = s.allocateEvents := by
  unfold Store.allocateEvents
  cases s.allocateId <;> rfl

theorem committed_withoutStrays (h : History) : h.withoutStrays.committed = h.committed := by
  unfold withoutStrays committed
  rw [List.filterMap_filter]
  refine List.filterMap_congr fun e _ => ?_
  cases e with
  | fired callback confirm => exact ite_self _
  | _ => rfl

theorem allocations_withoutStrays (h : History) :
    h.withoutStrays.allocations = h.allocations := by
  unfold withoutStrays allocations
  rw [List.countP_filter]
  refine List.countP_congr fun e _ => ?_
  cases e <;> rfl

theorem accepted_mem_withoutStrays {h : History} {m : OutboundMessage} {callback : ConfirmCallback} :
    .accepted m callback ∈ h.withoutStrays ↔ .accepted m callback ∈ h :=
  List.mem_filter.trans (and_iff_left rfl)

end History

namespace Deployment

theorem publishEvents_withoutStrays (d : Deployment ρ) (settler : Nat) (row : Row) :
    d.withoutStrays.publishEvents settler row = (d.publishEvents settler row).withoutStrays := by
  have hd : d.withoutStrays.broker.declare row.topology = _ :=
    d.broker.declare_withoutStrays row.topology
  unfold publishEvents
  rw [hd]
  cases d.broker.declare row.topology with
  | error e => rfl
  | ok b =>
      dsimp only [Except.map]
      rw [b.publish_withoutStrays]
      cases hp : b.publish row.message (.settle settler row.id) with
      | error e => rfl
      | ok p =>
          obtain ⟨t, -, -, rfl⟩ := Broker.publish_eq_ok hp
          unfold Broker.taken
          cases b.confirmMode <;> rfl

theorem announceEvents_withoutStrays (as : List Announcement) (d : Deployment ρ) :
    d.withoutStrays.announceEvents as = (d.announceEvents as).withoutStrays := by
  induction as generalizing d with
  | nil => rfl
  | cons a as ih =>
      rw [announceEvents, announceEvents, publishEvents_withoutStrays, perform_withoutStrays,
        History.withoutStrays_append]
      exact congrArg _ (ih _)

theorem commitEvents_withoutStrays (u : UnitOfWork Announcement) (d : Deployment ρ) :
    u.commitEvents d.withoutStrays = (u.commitEvents d).withoutStrays := by
  unfold UnitOfWork.commitEvents
  rw [store_withoutStrays]
  rcases d.store.commit u.staged with ⟨_ | _, store⟩
  · exact (History.withoutStrays_map (fun _ => rfl) _).symm
  · dsimp only
    rw [History.withoutStrays_append, History.withoutStrays_map fun _ => rfl]
    exact congrArg _ (announceEvents_withoutStrays u.deferred { d with store })

theorem trySendEvents_withoutStrays (s : Sender) (draft : Draft) (d : Deployment ρ) :
    s.trySendEvents draft d.withoutStrays = (s.trySendEvents draft d).withoutStrays := by
  unfold Sender.trySendEvents
  rw [sendIn_withoutStrays]
  rcases s.sendIn id .empty draft d with ⟨_ | ⟨rowId, u⟩, d'⟩
  · exact (History.withoutStrays_allocateEvents _).symm
  · dsimp only [Prod.map, id]
    rw [commitEvents_withoutStrays, History.withoutStrays_append,
      History.withoutStrays_allocateEvents]
    rfl

theorem stepEvents_withoutStrays (r : Resender) (p : Pass) (d : Deployment ρ) :
    p.stepEvents r d.withoutStrays = (p.stepEvents r d).withoutStrays := by
  obtain ⟨report, phase⟩ := p
  cases phase with
  | query after => rfl
  | walk rows last short =>
      cases rows with
      | nil => rfl
      | cons row rows =>
          unfold Pass.stepEvents
          dsimp only
          rw [publishEvents_withoutStrays]
          show ite (row.age d.now < r.minAge) _ _ = _
          split <;> rfl

theorem passEvents_withoutStrays (r : Resender) (p : Pass) (d : Deployment ρ) :
    p.events r d.withoutStrays = (p.events r d).withoutStrays := by
  have same := passStep_withoutStrays r p d
  rcases hs : p.step .inMemory r d with ⟨p' | outcome, d'⟩
  · rw [hs] at same
    rw [Pass.events_of_next hs, Pass.events_of_next same, History.withoutStrays_append,
      stepEvents_withoutStrays]
    exact congrArg _ (passEvents_withoutStrays r p' d')
  · rw [hs] at same
    rw [Pass.events_of_ended hs, Pass.events_of_ended same, stepEvents_withoutStrays]
termination_by p.measure
decreasing_by exact Pass.measure_step ‹_›

end Deployment

/-! ## The outbox -/

namespace Outbox

def withoutStrays (o : Outbox ρ) : Outbox ρ := { o with deployment := o.deployment.withoutStrays }

@[simp] theorem deployment_withoutStrays (o : Outbox ρ) :
    o.withoutStrays.deployment = o.deployment.withoutStrays := rfl

@[simp] theorem units_withoutStrays (o : Outbox ρ) : o.withoutStrays.units = o.units := rfl

@[simp] theorem passes_withoutStrays (o : Outbox ρ) : o.withoutStrays.passes = o.passes := rfl

/-- An outbox does what it would do if the confirms that nothing waits for were not held. -/
theorem step_withoutStrays (o : Outbox ρ) (m : OutboxMove) :
    o.withoutStrays.step m = (o.step m).withoutStrays := by
  have moved : ∀ {d d' : Deployment ρ} (units : List (UnitOfWork Announcement)), d = d'.withoutStrays →
      ({ o with deployment := d, units } : Outbox ρ) =
        withoutStrays { o with deployment := d', units } := fun _ h => h ▸ rfl
  cases m with
  | openUnit =>
      simp only [step, deployment_withoutStrays, Deployment.store_withoutStrays]
      cases (UnitOfWork.start o.deployment.store : Except _ (UnitOfWork Announcement)) <;> rfl
  | stage unit sender draft =>
      simp only [step, deployment_withoutStrays, units_withoutStrays]
      cases o.units[unit]? with
      | none => rfl
      | some u =>
          dsimp only
          rw [Deployment.sendIn_withoutStrays]
          rcases sender.sendIn id u draft o.deployment with ⟨_ | ⟨rowId, u⟩, d⟩ <;> rfl
  | commit unit =>
      simp only [step, deployment_withoutStrays, units_withoutStrays]
      cases o.units[unit]? with
      | none => rfl
      | some u => exact moved _ (congrArg Prod.snd (Deployment.commit_withoutStrays _ _))
  | trySend sender draft =>
      exact moved _ (congrArg Prod.snd (Deployment.trySend_withoutStrays _ _ _))
  | pass resender =>
      exact moved _ (congrArg Prod.snd (Deployment.passRun_withoutStrays _ _ _))
  | stepPass pass =>
      simp only [step, deployment_withoutStrays, passes_withoutStrays]
      cases o.passes[pass]? with
      | none => rfl
      | some rp =>
          dsimp only
          rw [Deployment.passStep_withoutStrays]
          rcases rp.2.step .inMemory rp.1 o.deployment with ⟨_ | _, d⟩ <;> rfl
  | settleHeld ack => exact moved _ (Deployment.settleHeld_withoutStrays _ _)
  | _ => rfl

theorem events_withoutStrays (o : Outbox ρ) (m : OutboxMove) :
    o.withoutStrays.events m = (o.events m).withoutStrays := by
  cases m with
  | stage unit sender draft =>
      simp only [events, units_withoutStrays]
      cases o.units[unit]? with
      | none => rfl
      | some u => exact (History.withoutStrays_allocateEvents _).symm
  | commit unit =>
      simp only [events, deployment_withoutStrays, units_withoutStrays]
      cases o.units[unit]? with
      | none => rfl
      | some u => exact Deployment.commitEvents_withoutStrays _ _
  | discard unit =>
      simp only [events, units_withoutStrays]
      cases o.units[unit]? with
      | none => rfl
      | some u => exact (History.withoutStrays_map (fun _ => rfl) _).symm
  | trySend sender draft => exact Deployment.trySendEvents_withoutStrays _ _ _
  | pass resender => exact Deployment.passEvents_withoutStrays _ _ _
  | stepPass pass =>
      simp only [events, deployment_withoutStrays, passes_withoutStrays]
      cases o.passes[pass]? with
      | none => rfl
      | some rp => exact Deployment.stepEvents_withoutStrays _ _ _
  | settleHeld ack =>
      unfold History.withoutStrays events Broker.releaseConfirms
      rw [List.filter_map, List.filter_map]
      rfl
  | _ => rfl

end Outbox

end DurableMessaging
