import DurableMessaging.Proofs.Store.Units
import DurableMessaging.Sender.Basic

/-!
# The answer of a sender

Whether a message is accepted, and under which id, can be told from the store before anything is
done. The gateway is called once the row is stored, with the answer settled, so it may do what it
likes: fail, crash, fire confirms or change the store. Its calls are watched from beside.
-/

namespace DurableMessaging

variable {ρ ρ' : Type}

/-! ## What a gateway is asked -/

inductive GatewayCall where
  | declare (t : Topology) (reply : Reply BrokerError Unit)
  | publish (m : OutboundMessage) (callback : ConfirmCallback) (reply : Reply BrokerError Unit)
  | startConsumer (spec : ConsumerSpec) (reply : Reply BrokerError (List WorkerId))

/-- A call to a gateway and the table at that moment. -/
structure GatewaySighting where
  call : GatewayCall
  table : Table

def Gateway.watched (g : Gateway ρ) : Gateway (ρ × List GatewaySighting) where
  declare t d :=
    let (reply, d') := g.declare t d.bare
    (reply, d'.beside (d.rig.2 ++ [⟨.declare t reply, d.store.table⟩]))
  publish m callback d :=
    let (reply, d') := g.publish m callback d.bare
    (reply, d'.beside (d.rig.2 ++ [⟨.publish m callback reply, d.store.table⟩]))
  startConsumer spec d :=
    let (reply, d') := g.startConsumer spec d.bare
    (reply, d'.beside (d.rig.2 ++ [⟨.startConsumer spec reply, d.store.table⟩]))

/-- What may be seen of a gateway when a row is published, if the table is this one at first: the
topology is declared, and if that goes well the row is published. -/
inductive Announcement.Seen (a : Announcement) (t : Table) : List GatewaySighting → Prop
  | undeclared {reply : Reply BrokerError Unit} (h : reply ≠ .returned ()) :
      Seen a t [⟨.declare a.row.topology reply, t⟩]
  | published (reply : Reply BrokerError Unit) (t' : Table) :
      Seen a t [⟨.declare a.row.topology (.returned ()), t⟩,
        ⟨.publish a.row.message (.settle a.settler a.row.id) reply, t'⟩]

namespace Gateway

theorem declare_watched (g : Gateway ρ) (t : Topology) (d : Deployment ρ)
    (log : List GatewaySighting) :
    g.watched.declare t (d.beside log) =
      ((g.declare t d).1,
        (g.declare t d).2.beside (log ++ [⟨.declare t (g.declare t d).1, d.store.table⟩])) := rfl

theorem publish_watched (g : Gateway ρ) (m : OutboundMessage) (callback : ConfirmCallback)
    (d : Deployment ρ) (log : List GatewaySighting) :
    g.watched.publish m callback (d.beside log) =
      ((g.publish m callback d).1,
        (g.publish m callback d).2.beside
          (log ++ [⟨.publish m callback (g.publish m callback d).1, d.store.table⟩])) := rfl

theorem publishRow_watched (g : Gateway ρ) (a : Announcement) (d : Deployment ρ)
    (log : List GatewaySighting) :
    ∃ calls, g.watched.publishRow a.settler a.row (d.beside log) =
        ((g.publishRow a.settler a.row d).1,
          (g.publishRow a.settler a.row d).2.beside (log ++ calls)) ∧
      a.Seen d.store.table calls := by
  unfold publishRow
  rw [declare_watched]
  rcases g.declare a.row.topology d with ⟨⟨⟩ | e | _, d'⟩
  · dsimp only
    rw [publish_watched, List.append_assoc]
    exact ⟨_, rfl, .published _ d'.store.table⟩
  · exact ⟨_, rfl, .undeclared nofun⟩
  · exact ⟨_, rfl, .undeclared nofun⟩

end Gateway

theorem Announcement.perform_watched (g : Gateway ρ) (a : Announcement) (d : Deployment ρ) :
    ∃ log, a.perform g.watched (d.beside []) = ((a.perform g d).1, (a.perform g d).2.beside log) ∧
      a.Seen d.store.table log := by
  obtain ⟨log, published, seen⟩ := g.publishRow_watched a d []
  refine ⟨log, ?_, seen⟩
  unfold perform
  rw [published]
  rcases g.publishRow a.settler a.row d with ⟨reply, d'⟩
  cases reply <;> rfl

/-! ## What the store makes of a message -/

/-- The id under which a store takes the next message, or why it does not. -/
def Store.acceptance (s : Store) : Except StoreError RowId :=
  if !s.available then .error (.unavailable "in-memory store switched off")
  else if s.failsNextCommit then .error (.commitFailed "injected commit failure")
  else if s.table.contains s.nextId then .error (.duplicateId s.nextId)
  else .ok s.nextId

/-- A single row is refused if its id is taken, and for no other reason once the store is ready. -/
theorem Store.commit_single {s : Store} (available : s.available = true)
    (ready : s.failsNextCommit = false) (row : Row) :
    (s.table.contains row.id = true ∧ s.commit [row] = (.error (.duplicateId row.id), s)) ∨
      (s.table.contains row.id = false ∧
        s.commit [row] = (.ok (), { s with table := s.table.insert row })) := by
  unfold commit ensureAvailable
  rw [if_pos available, ready, List.find?_cons]
  cases s.table.contains row.id with
  | true => exact .inl ⟨rfl, rfl⟩
  | false => exact .inr ⟨rfl, rfl⟩

namespace Sender

/-- The announcement of the next message. -/
def announcement (s : Sender) (draft : Draft) (d : Deployment ρ) : Announcement :=
  ⟨s.settler, s.row draft d.store.nextId (MessageId.ofDraw d.draws) d.now⟩

/-- The deployment when the row of the next message has been stored. -/
def stored (s : Sender) (draft : Draft) (d : Deployment ρ) : Deployment ρ :=
  { d with
    store.table := d.store.table.insert (s.announcement draft d).row
    store.nextId := d.store.nextId + 1
    draws := d.draws + 1 }

/-- The deployment when the next message has been refused. -/
def refused (d : Deployment ρ) : Deployment ρ :=
  if d.store.available then
    { d with
      store.nextId := d.store.nextId + 1, store.failsNextCommit := false, draws := d.draws + 1 }
  else d

theorem table_refused (d : Deployment ρ) : (refused d).store.table = d.store.table := by
  unfold refused
  split <;> rfl

theorem refused_beside {ε : Type} (d : Deployment ρ) (log : List ε) :
    refused (d.beside log) = (refused d).beside log := by
  unfold refused
  rw [Deployment.store_beside]
  cases d.store.available <;> rfl

/-- The deployment when an id and a message id have been drawn for the next message. -/
def drawn (d : Deployment ρ) : Deployment ρ :=
  { d with store.nextId := d.store.nextId + 1, draws := d.draws + 1 }

/-- An available store lets a row be staged in an empty unit, so only the commit can fail. -/
theorem trySend_of_available (s : Sender) (g : Gateway ρ) (draft : Draft) {d : Deployment ρ}
    (h : d.store.available = true) :
    s.trySend g draft d =
      match UnitOfWork.commit (Announcement.perform g)
        ⟨[(s.announcement draft d).row], [s.announcement draft d]⟩ (drawn d) with
      | (.error e, d') => (.error ⟨e⟩, d')
      | (.ok _, d') => (.ok d.store.nextId, d') := by
  obtain ⟨now, ⟨table, nextId, available, fails⟩, broker, cache, settlers, engines, draws, confirms,
    rig⟩ := d
  cases h
  rfl

/-- The store alone decides, and the gateway gets to work only on what is stored. -/
theorem trySend_eq (s : Sender) (g : Gateway ρ) (draft : Draft) (d : Deployment ρ) :
    s.trySend g draft d =
      match d.store.acceptance with
      | .error e => (.error ⟨e⟩, refused d)
      | .ok id => (.ok id, ((s.announcement draft d).perform g (s.stored draft d)).2) := by
  obtain ⟨now, ⟨table, nextId, available, fails⟩, broker, cache, settlers, engines, draws, confirms,
    rig⟩ := d
  cases available with
  | false => rfl
  | true =>
      cases fails with
      | true => rfl
      | false =>
          rw [s.trySend_of_available g draft rfl]
          unfold Store.acceptance
          rcases Store.commit_single (s := ⟨table, nextId + 1, true, false⟩) rfl rfl
            (s.row draft nextId (MessageId.ofDraw draws) now) with ⟨taken, commit⟩ | ⟨free, commit⟩
          · have taken : table.contains nextId = true := taken
            dsimp only
            rw [UnitOfWork.commit_of_error _ commit, taken]
            rfl
          · have free : table.contains nextId = false := free
            dsimp only
            rw [UnitOfWork.commit_of_ok _ commit, free]
            rfl

theorem gains_stored (s : Sender) (draft : Draft) {d : Deployment ρ} {id : RowId}
    (h : d.store.acceptance = .ok id) :
    (s.announcement draft d).row.id = id ∧
      d.store.table.Gains (s.stored draft d).store.table [(s.announcement draft d).row] := by
  unfold Store.acceptance at h
  split at h
  · cases h
  · split at h
    · cases h
    · split at h
      · cases h
      · rename_i free
        cases h
        have distinct : ([(s.announcement draft d).row].map (·.id)).Nodup := List.pairwise_singleton _ _
        refine ⟨rfl, Table.gains_foldl_insert distinct fun row hrow => ?_⟩
        cases List.mem_singleton.mp hrow
        rw [Table.contains_iff, ← Table.isSome_get?_iff] at free
        exact Option.not_isSome_iff_eq_none.mp free

/-- What becomes of a message does not depend on the gateway: with any other, over the same store,
the answer is the same. A message that is refused leaves the table alone and the gateway uncalled.
One that is accepted has its row stored under a free id before the gateway is first called, to
declare the row's topology and then, if that went well, to publish it. -/
theorem answers_by_store_alone (s : Sender) (g : Gateway ρ) (g' : Gateway ρ') (draft : Draft)
    (d : Deployment ρ) (other : Deployment ρ') :
    (s.trySend g' draft { other with store := d.store }).1 = (s.trySend g draft d).1 ∧
    ∃ log,
      s.trySend g.watched draft (d.beside []) =
        ((s.trySend g draft d).1, (s.trySend g draft d).2.beside log) ∧
      match (s.trySend g draft d).1 with
      | .error _ => log = [] ∧ (s.trySend g draft d).2.store.table = d.store.table
      | .ok id => ∃ messageId committed,
          let row := s.row draft id messageId d.now
          d.store.table.Gains committed [row] ∧
            Announcement.Seen ⟨s.settler, row⟩ committed log := by
  rw [trySend_eq, trySend_eq, trySend_eq]
  dsimp only [Deployment.store_beside]
  cases accepted : d.store.acceptance with
  | error e =>
      refine ⟨rfl, [], ?_, rfl, table_refused d⟩
      dsimp only
      rw [refused_beside]
  | ok id =>
      obtain ⟨rfl, gains⟩ := s.gains_stored draft accepted
      obtain ⟨log, performed, seen⟩ :=
        (s.announcement draft d).perform_watched g (s.stored draft d)
      exact ⟨rfl, log, congrArg (fun r => (Except.ok _, r.2)) performed, _, _, gains, seen⟩

end Sender

end DurableMessaging
