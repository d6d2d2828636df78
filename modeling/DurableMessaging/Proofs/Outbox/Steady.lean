import DurableMessaging.Proofs.Broker.Placement
import DurableMessaging.Proofs.Outbox.Books

/-!
# What an outbox does to its broker

An outbox declares topologies, publishes rows and turns switches. What these keep true of the broker
and the history, every move keeps true.
-/

namespace DurableMessaging

variable {ρ : Type}

/-! ## Frames -/

/-- The two brokers differ in switches and held confirms at most. -/
def Broker.SameBut {κ : Type} (b b' : Broker κ) : Prop :=
  b' = { b with available := b'.available, confirmMode := b'.confirmMode, held := b'.held }

/-- The two deployments differ in what an outbox uses, the broker's part in publishing aside. -/
structure Deployment.SameBut (d d' : Deployment ρ) : Prop where
  broker : d.broker.SameBut d'.broker := by rfl
  cache : d'.cache = d.cache := by rfl
  engines : d'.engines = d.engines := by rfl
  rig : d'.rig = d.rig := by rfl

theorem Deployment.fire_same (d : Deployment ρ) (callback : ConfirmCallback) (confirm : Confirm) :
    d.SameBut (d.fire callback confirm) ∧ (d.fire callback confirm).broker = d.broker := by
  induction callback generalizing confirm with
  | settle settler row =>
      simp only [fire, settleConfirm]
      cases d.settlers[settler]? <;> exact ⟨{}, rfl⟩
  | ignore => exact ⟨{}, rfl⟩
  | keep => exact ⟨{}, rfl⟩
  | relabel correlation callback ih => exact ih _

/-- What publishing a row can lead to, and what happens then. -/
inductive Deployment.Publishes (d : Deployment ρ) (settler : Nat) (row : Row) :
    Deployment ρ → History → Prop
  | refused : Publishes d settler row d []
  | declared {b : Broker ConfirmCallback} (hd : d.broker.declare row.topology = .ok b) :
      Publishes d settler row { d with broker := b } []
  | confirmed {b : Broker ConfirmCallback} {t : ExchangeType} (ack : Bool)
      (hd : d.broker.declare row.topology = .ok b)
      (ht : b.exchanges.get? row.message.exchange = some t) :
      Publishes d settler row
        (fire { d with broker := b.accept row.message t } (.settle settler row.id)
          (.ofAck (some row.id) ack))
        [.accepted row.message (.settle settler row.id),
          .fired (.settle settler row.id) (.ofAck (some row.id) ack)]
  | held {b : Broker ConfirmCallback} {t : ExchangeType}
      (hd : d.broker.declare row.topology = .ok b)
      (ht : b.exchanges.get? row.message.exchange = some t) :
      Publishes d settler row
        { d with
          broker := { b.accept row.message t with held := b.held ++ [.ofRow settler row] } }
        [.accepted row.message (.settle settler row.id)]

theorem Deployment.publishes (d : Deployment ρ) (settler : Nat) (row : Row) :
    d.Publishes settler row (Gateway.inMemory.publishRow settler row d).2
      (d.publishEvents settler row) := by
  simp only [Gateway.publishRow, Gateway.inMemory, publishEvents]
  cases hd : d.broker.declare row.topology with
  | error e => exact .refused
  | ok b =>
      dsimp only
      cases hp : b.publish row.message (.settle settler row.id) with
      | error e => exact .declared hd
      | ok p =>
          obtain ⟨t, -, ht, rfl⟩ := Broker.publish_eq_ok hp
          unfold Broker.taken
          cases b.confirmMode with
          | hold => exact .held hd ht
          | ack => exact .confirmed true hd ht
          | nack => exact .confirmed false hd ht

theorem Announcement.deployment_perform (g : Gateway ρ) (a : Announcement) (d : Deployment ρ) :
    (a.perform g d).2 = (g.publishRow a.settler a.row d).2 := by
  unfold perform
  split
  · rename_i h
    rw [h]
  · rename_i h
    rw [h]

/-- A unit can be opened just if an id can be had. -/
theorem UnitOfWork.start_eq {α : Type} (s : Store) :
    (start s : Except StoreError (UnitOfWork α)) = s.allocateId.map fun _ => .empty := by
  unfold start Store.allocateId Store.ensureAvailable
  cases s.available <;> rfl

theorem Sender.sendIn_same {α : Type} (s : Sender) (announce : Announcement → α)
    (u : UnitOfWork α) (draft : Draft) (d : Deployment ρ) :
    d.SameBut (s.sendIn announce u draft d).2 := by
  unfold sendIn
  split
  · exact {}
  · dsimp only
    split <;> exact {}

/-- A send stages one row in a unit of its own, and commits that if the row could be staged. -/
theorem Sender.trySend_cases (s : Sender) (draft : Draft) (d : Deployment ρ) :
    (∃ e d', s.sendIn id (.empty : UnitOfWork Announcement) draft d = (.error e, d') ∧
      (s.trySend .inMemory draft d).2 = d' ∧ s.trySendEvents draft d = d.store.allocateEvents) ∨
    ∃ rowId u d', s.sendIn id (.empty : UnitOfWork Announcement) draft d = (.ok (rowId, u), d') ∧
      (s.trySend .inMemory draft d).2 = (u.commit (Announcement.perform .inMemory) d').2 ∧
      s.trySendEvents draft d = d.store.allocateEvents ++ u.commitEvents d' := by
  unfold trySend trySendEvents
  rw [UnitOfWork.start_eq]
  cases hid : d.store.allocateId with
  | error e =>
      have hnone : s.sendIn id (.empty : UnitOfWork Announcement) draft d = (.error ⟨e⟩, d) := by
        unfold sendIn
        rw [hid]
      exact .inl ⟨_, _, hnone, rfl, by rw [hnone]⟩
  | ok r =>
      dsimp only [Except.map]
      rcases hs : s.sendIn id (.empty : UnitOfWork Announcement) draft d with ⟨e | ⟨rowId, u⟩, d'⟩
      · exact .inl ⟨_, _, rfl, rfl, rfl⟩
      · refine .inr ⟨_, _, _, rfl, ?_, rfl⟩
        dsimp only
        split <;> rename_i h <;> rw [h]

theorem Pass.deployment_visit (g : Gateway ρ) (r : Resender) (report : PassReport) (row : Row)
    (rest : PassPhase) (d : Deployment ρ) :
    (visit g r report row rest d).2 =
      if row.age d.now < r.minAge then d else (g.publishRow r.settler row d).2 := by
  unfold visit
  dsimp only
  split
  · rfl
  · rcases g.publishRow r.settler row d with ⟨_ | e | _, d'⟩
    · rfl
    · dsimp only
      split <;> rfl
    · rfl

theorem Pass.step_cases (r : Resender) (p : Pass) (d : Deployment ρ) :
    ((p.step .inMemory r d).2 = d ∧ p.stepEvents r d = []) ∨
      ∃ row ∈ p.phase.rows, (p.step .inMemory r d).2 = (Gateway.inMemory.publishRow r.settler row d).2 ∧
        p.stepEvents r d = d.publishEvents r.settler row := by
  obtain ⟨report, phase⟩ := p
  cases phase with
  | query after => exact .inl ⟨rfl, rfl⟩
  | walk rows last short =>
      cases rows with
      | nil =>
          unfold step stepEvents
          dsimp only
          split <;> exact .inl ⟨rfl, rfl⟩
      | cons row rows =>
          unfold step stepEvents
          dsimp only
          rw [deployment_visit]
          split
          · exact .inl ⟨rfl, rfl⟩
          · exact .inr ⟨row, List.mem_cons_self, rfl, rfl⟩

/-! ## What stays true -/

/-- A property of a deployment and a history that no use as an outbox can end. -/
structure Outbox.Steady (P : Deployment ρ → History → Prop) : Prop where
  quiet : ∀ {d d' : Deployment ρ} {h h' : History}, P d h → d.SameBut d' →
    (∀ m callback, .accepted m callback ∉ h') → P d' (h ++ h')
  declare : ∀ {d : Deployment ρ} {h : History} {t : Topology} {b : Broker ConfirmCallback},
    P d h → d.broker.declare t = .ok b → P { d with broker := b } h
  accept : ∀ {d : Deployment ρ} {h : History} {m : OutboundMessage} {t : ExchangeType},
    P d h → d.broker.exchanges.get? m.exchange = some t → ∀ callback,
    P { d with broker := d.broker.accept m t } (h ++ [.accepted m callback])

namespace Outbox.Steady

variable {P : Deployment ρ → History → Prop} {d : Deployment ρ} {h : History}

theorem silent (hP : Steady P) {d' : Deployment ρ} (hp : P d h) (hd : d.SameBut d') : P d' h := by
  have : P d' (h ++ []) := hP.quiet hp hd nofun
  rwa [List.append_nil] at this

theorem fire (hP : Steady P) (hp : P d h) (callback : ConfirmCallback) (confirm : Confirm) :
    P (d.fire callback confirm) (h ++ [.fired callback confirm]) :=
  hP.quiet hp (d.fire_same callback confirm).1 (by simp)

theorem publishRow (hP : Steady P) (hp : P d h) (settler : Nat) (row : Row) :
    P (Gateway.inMemory.publishRow settler row d).2 (h ++ d.publishEvents settler row) := by
  have hd := d.publishes settler row
  generalize (Gateway.inMemory.publishRow settler row d).2 = d', d.publishEvents settler row = h'
    at hd
  cases hd with
  | refused =>
      rw [List.append_nil]
      exact hp
  | declared hd =>
      rw [List.append_nil]
      exact hP.declare hp hd
  | confirmed ack hd ht =>
      have hp' := hP.accept (hP.declare hp hd) ht (.settle settler row.id)
      have := hP.fire hp' (.settle settler row.id) (.ofAck (some row.id) ack)
      rwa [List.append_assoc] at this
  | held hd ht =>
      exact hP.silent (hP.accept (hP.declare hp hd) ht (.settle settler row.id)) {}

theorem announceAll (hP : Steady P) (hp : P d h) (as : List Announcement) (report : CommitReport) :
    P (UnitOfWork.runAll (Announcement.perform .inMemory) as report d).2
      (h ++ d.announceEvents as) := by
  induction as generalizing d h report with
  | nil =>
      rw [Deployment.announceEvents, List.append_nil]
      exact hp
  | cons a as ih =>
      have hp' := hP.publishRow hp a.settler a.row
      rw [← Announcement.deployment_perform] at hp'
      rw [Deployment.announceEvents, ← List.append_assoc]
      exact ih hp' _

theorem commit (hP : Steady P) (hp : P d h) (u : UnitOfWork Announcement) :
    P (u.commit (Announcement.perform .inMemory) d).2 (h ++ u.commitEvents d) := by
  unfold UnitOfWork.commit UnitOfWork.commitEvents
  rcases d.store.commit u.staged with ⟨_ | _, store⟩
  · exact hP.quiet hp {} (by simp)
  · have hp' : P { d with store } (h ++ u.staged.map .committed) := hP.quiet hp {} (by simp)
    rw [← List.append_assoc]
    exact hP.announceAll hp' u.deferred .zero

theorem not_accepted_allocateEvents (s : Store) (m : OutboundMessage) (callback : ConfirmCallback) :
    .accepted m callback ∉ s.allocateEvents := by
  unfold Store.allocateEvents
  split <;> simp

theorem sendIn (hP : Steady P) (hp : P d h) (s : Sender) (u : UnitOfWork Announcement)
    (draft : Draft) : P (s.sendIn id u draft d).2 (h ++ d.store.allocateEvents) :=
  hP.quiet hp (s.sendIn_same id u draft d) (not_accepted_allocateEvents _)

theorem trySend (hP : Steady P) (hp : P d h) (s : Sender) (draft : Draft) :
    P (s.trySend .inMemory draft d).2 (h ++ s.trySendEvents draft d) := by
  have hp' := hP.sendIn hp s .empty draft
  rcases s.trySend_cases draft d with ⟨e, d', hs, hd, he⟩ | ⟨rowId, u, d', hs, hd, he⟩
  · rw [hs] at hp'
    rw [hd, he]
    exact hp'
  · rw [hs] at hp'
    rw [hd, he, ← List.append_assoc]
    exact hP.commit hp' u

theorem passStep (hP : Steady P) (hp : P d h) (r : Resender) (p : Pass) :
    P (p.step .inMemory r d).2 (h ++ p.stepEvents r d) := by
  rcases p.step_cases r d with ⟨hd, he⟩ | ⟨row, -, hd, he⟩
  · rw [hd, he, List.append_nil]
    exact hp
  · rw [hd, he]
    exact hP.publishRow hp r.settler row

theorem passRun {d : Deployment ρ} {h : History} (hP : Steady P) (hp : P d h) (r : Resender)
    (p : Pass) : P (p.run .inMemory r d).2 (h ++ p.events r d) := by
  have hp' := hP.passStep hp r p
  rw [Pass.run]
  split
  · rename_i outcome d' hs
    rw [Pass.events_of_ended hs]
    rw [hs] at hp'
    exact hp'
  · rename_i p' d' hs
    rw [Pass.events_of_next hs, ← List.append_assoc]
    rw [hs] at hp'
    exact passRun hP hp' r p'
termination_by p.measure
decreasing_by exact Pass.measure_step ‹_›

theorem fireAll (hP : Steady P) (hp : P d h) (due : List (ConfirmCallback × Confirm)) :
    P (due.foldl (fun d (callback, confirm) => d.fire callback confirm) d)
      (h ++ due.map .ofDue) := by
  induction due generalizing d h with
  | nil =>
      rw [List.map_nil, List.append_nil]
      exact hp
  | cons c due ih =>
      have := ih (hP.fire hp c.1 c.2)
      rwa [List.append_assoc] at this

theorem step (hP : Steady P) {o : Outbox ρ} (hp : P o.deployment h) (m : OutboxMove) :
    P (o.step m).deployment (h ++ o.events m) := by
  have same : ∀ {d'}, o.deployment.SameBut d' → P d' (h ++ []) :=
    fun hd => (List.append_nil h).symm ▸ hP.silent hp hd
  cases m with
  | openUnit =>
      dsimp only [Outbox.step]
      split <;> exact same {}
  | stage unit sender draft =>
      dsimp only [Outbox.step, Outbox.events]
      cases o.units[unit]? with
      | none => exact same {}
      | some u =>
          have := hP.sendIn hp sender u draft
          dsimp only
          split <;> rename_i hs <;> rw [hs] at this <;> exact this
  | commit unit =>
      dsimp only [Outbox.step, Outbox.events]
      cases o.units[unit]? with
      | none => exact same {}
      | some u => exact hP.commit hp u
  | discard unit =>
      dsimp only [Outbox.step, Outbox.events]
      cases o.units[unit]? with
      | none => exact same {}
      | some u => exact hP.quiet hp {} (by simp)
  | trySend sender draft => exact hP.trySend hp sender draft
  | pass resender => exact hP.passRun hp resender .start
  | stepPass pass =>
      dsimp only [Outbox.step, Outbox.events]
      cases o.passes[pass]? with
      | none => exact same {}
      | some rp =>
          have := hP.passStep hp rp.1 rp.2
          dsimp only
          split <;> rename_i hs <;> rw [hs] at this <;> exact this
  | settleHeld ack =>
      have hp' : P { o.deployment with broker := (o.deployment.broker.releaseConfirms ack).2 } h :=
        hP.silent hp {}
      exact hP.fireAll hp' _
  | _ => exact same {}

end Outbox.Steady

theorem Chronicle.steady_run {P : Deployment ρ → History → Prop} (hP : Outbox.Steady P)
    (now : Instant) (first : RowId) (rig : ρ) (hp : P (.start now first rig) [])
    (moves : List OutboxMove) :
    P (run now first rig moves).outbox.deployment (run now first rig moves).history := by
  suffices h : ∀ c : Chronicle ρ, P c.outbox.deployment c.history →
      P (moves.foldl step c).outbox.deployment (moves.foldl step c).history from h _ hp
  clear hp
  induction moves with
  | nil => exact fun _ hc => hc
  | cons m moves ih => exact fun c hc => ih (c.step m) (hP.step hc m)

/-! ## The broker's log -/

/-- The publishes that were taken, the oldest first. -/
def History.publishes (h : History) : List OutboundMessage :=
  h.filterMap fun | .accepted m _ => some m | _ => none

theorem History.publishes_append_of_none {h' : History}
    (hn : ∀ m callback, .accepted m callback ∉ h') (h : History) :
    publishes (h ++ h') = h.publishes := by
  unfold publishes
  rw [List.filterMap_append, List.append_right_eq_self, List.filterMap_eq_nil_iff]
  intro e he
  cases e with
  | accepted m callback => exact absurd he (hn m callback)
  | _ => rfl

theorem History.publishes_append (h : History) (m : OutboundMessage) (callback : ConfirmCallback) :
    publishes (h ++ [.accepted m callback]) = h.publishes ++ [m] := List.filterMap_append

theorem History.mem_publishes {h : History} {m : OutboundMessage} :
    m ∈ h.publishes ↔ ∃ callback, .accepted m callback ∈ h := by
  unfold publishes
  rw [List.mem_filterMap]
  constructor
  · rintro ⟨e, he, heq⟩
    cases e <;> cases heq
    exact ⟨_, he⟩
  · exact fun ⟨callback, he⟩ => ⟨_, he, rfl⟩

/-- A history has the publishes that the broker logged. -/
theorem Outbox.steady_published : Steady fun (d : Deployment ρ) h =>
    d.broker.published.map (·.logged) = h.publishes.map (·.logged) where
  quiet := by
    intro d d' h h' hp hd hn
    rw [hd.broker, History.publishes_append_of_none hn]
    exact hp
  declare := by
    intro d h t b hp hd
    have same : b.published = d.broker.published :=
      congrArg (·.published) (Broker.declare_same hd)
    dsimp only
    rw [same]
    exact hp
  accept := by
    intro d h m t hp _ callback
    rw [History.publishes_append, List.map_append, ← hp]
    exact List.map_append

end DurableMessaging
