import DurableMessaging.Proofs.Outbox.Steady
import DurableMessaging.Proofs.Store.Sessions
import Mathlib.Data.List.Perm.Basic

/-!
# No accepted message is lost and none is published early

Every operation of an outbox is made of small things that keep its books in order, so they are in
order at the end of any run.
-/

namespace DurableMessaging

variable {ρ : Type}

/-- The books of a deployment are in order. -/
def Deployment.InBooks (d : Deployment ρ) (first : RowId) (staged : List Row) (h : History) : Prop :=
  Books first d.store d.broker.held staged h

/-! ## Publishing -/

namespace Deployment.InBooks

variable {first : RowId} {d : Deployment ρ} {staged : List Row} {h : History}

theorem publishRow (b : d.InBooks first staged h) {row : Row} (hr : row ∈ h.committed)
    (settler : Nat) :
    (Gateway.inMemory.publishRow settler row d).2.InBooks first staged
      (h ++ d.publishEvents settler row) := by
  have hd := d.publishes settler row
  generalize (Gateway.inMemory.publishRow settler row d).2 = d', d.publishEvents settler row = h'
    at hd
  have same : ∀ {b}, d.broker.declare row.topology = .ok b → b.held = d.broker.held :=
    fun hd => congrArg (·.held) (Broker.declare_same hd)
  cases hd with
  | refused =>
      rw [List.append_nil]
      exact b
  | declared hd =>
      rw [List.append_nil]
      show Books first d.store _ staged h
      rw [same hd]
      exact b
  | @confirmed b₁ t ack hd ht =>
      have b' := Books.fire (d := { d with broker := b₁.accept row.message t })
        (b.accept hr settler) ack
      rw [List.append_assoc] at b'
      unfold InBooks
      rw [(fire_same _ _ _).2]
      show Books first _ b₁.held staged _
      rw [same hd]
      exact b'
  | @held b₁ t hd ht =>
      show Books first d.store (b₁.held ++ [.ofRow settler row]) staged _
      rw [same hd]
      exact (b.accept hr settler).perm List.perm_append_comm (.refl _)

theorem announceAll {as : List Announcement} (b : d.InBooks first staged h)
    (hr : ∀ a ∈ as, a.row ∈ h.committed) (report : CommitReport) :
    (UnitOfWork.runAll (Announcement.perform .inMemory) as report d).2.InBooks first staged
      (h ++ announceEvents as d) := by
  induction as generalizing d h report with
  | nil =>
      rw [announceEvents, List.append_nil]
      exact b
  | cons a as ih =>
      have b' := b.publishRow (hr a List.mem_cons_self) a.settler
      rw [← Announcement.deployment_perform] at b'
      have hr' : ∀ a' ∈ as, a'.row ∈ History.committed (h ++ d.publishEvents a.settler a.row) := by
        intro a' ha'
        rw [History.committed_append]
        exact List.mem_append_left _ (hr a' (List.mem_cons_of_mem _ ha'))
      rw [announceEvents, ← List.append_assoc]
      exact ih b' hr' _

theorem commit {u : UnitOfWork Announcement} (b : d.InBooks first (u.staged ++ staged) h)
    (hu : u.deferred.map (·.row) = u.staged) :
    (u.commit (Announcement.perform .inMemory) d).2.InBooks first staged (h ++ u.commitEvents d) := by
  unfold UnitOfWork.commit UnitOfWork.commitEvents
  rcases hc : d.store.commit u.staged with ⟨_ | _, store⟩
  · obtain ⟨htable, hnext⟩ := Store.commit_eq_error hc
    exact b.discard.of_table_eq htable hnext
  · have b' : InBooks { d with store } first staged (h ++ u.staged.map .committed) :=
      Books.commit b hc
    have hr : ∀ a ∈ u.deferred, a.row ∈ History.committed (h ++ u.staged.map .committed) := by
      intro a ha
      rw [History.committed_append, (History.committed_map _).1]
      refine List.mem_append_right _ ?_
      rw [← hu]
      exact List.mem_map_of_mem ha
    rw [← List.append_assoc]
    exact b'.announceAll hr .zero

theorem sendIn (b : d.InBooks first staged h) (few : History.allocations
      (h ++ d.store.allocateEvents) < UInt64.size) (s : Sender) (u : UnitOfWork Announcement)
    (draft : Draft) :
    match s.sendIn id u draft d with
    | (.error _, d') => d'.InBooks first staged (h ++ d.store.allocateEvents)
    | (.ok (_, u'), d') => ∃ a : Announcement, u' = ⟨u.staged ++ [a.row], u.deferred ++ [a]⟩ ∧
        d'.InBooks first (a.row :: staged) (h ++ d.store.allocateEvents) := by
  unfold Sender.sendIn
  unfold Store.allocateEvents at few ⊢
  cases hid : d.store.allocateId with
  | error e =>
      dsimp only
      rw [List.append_nil]
      exact b
  | ok r =>
      obtain ⟨rowId, store⟩ := r
      rw [hid] at few
      dsimp only at few ⊢
      cases hs : u.stage store (s.row draft rowId (MessageId.ofDraw d.draws) d.now) with
      | error e => exact b.allocate hid
      | ok u' =>
          obtain ⟨rfl, -⟩ := UnitOfWork.stage_eq_ok hs
          refine ⟨⟨s.settler, s.row draft rowId (MessageId.ofDraw d.draws) d.now⟩, rfl, ?_⟩
          exact b.stage hid rfl (by simpa [History.allocations] using few)

theorem trySend (b : d.InBooks first staged h) (s : Sender) (draft : Draft)
    (few : History.allocations (h ++ s.trySendEvents draft d) < UInt64.size) :
    (s.trySend .inMemory draft d).2.InBooks first staged (h ++ s.trySendEvents draft d) := by
  rcases s.trySend_cases draft d with ⟨e, d', hs, hd, he⟩ | ⟨rowId, u, d', hs, hd, he⟩
  · rw [hd, he]
    rw [he] at few
    have b' := b.sendIn few s .empty draft
    rw [hs] at b'
    exact b'
  · rw [hd, he, ← List.append_assoc]
    rw [he, ← List.append_assoc, History.allocations_append] at few
    have b' := b.sendIn (Nat.lt_of_le_of_lt (Nat.le_add_right _ _) few) s .empty draft
    rw [hs] at b'
    obtain ⟨a, rfl, b'⟩ := b'
    exact InBooks.commit (u := ⟨[a.row], [a]⟩) b' rfl

end Deployment.InBooks

/-! ## Passes -/

theorem Pass.rows_visit (g : Gateway ρ) (r : Resender) (report : PassReport) (row : Row)
    (rest : PassPhase) (d : Deployment ρ) : (visit g r report row rest d).1.rows ⊆ rest.rows := by
  intro x hx
  cases hv : visit g r report row rest d with
  | mk outcome d' =>
      rw [hv] at hx
      cases outcome with
      | next p => exact phase_visit hv ▸ hx
      | ended _ => cases hx

/-- A pass goes on with rows that it was to visit, or with a page of pending rows. -/
theorem Pass.mem_rows_step {g : Gateway ρ} {r : Resender} {p : Pass} {d : Deployment ρ} {x : Row}
    (hx : x ∈ (p.step g r d).1.rows) :
    x ∈ p.phase.rows ∨ ∃ after rows, d.store.pending after r.batchSize = .ok rows ∧ x ∈ rows := by
  obtain ⟨report, phase⟩ := p
  cases phase with
  | query after =>
      unfold step query at hx
      dsimp only at hx
      cases hp : d.store.pending after r.batchSize with
      | error e =>
          rw [hp] at hx
          cases hx
      | ok rows =>
          rw [hp] at hx
          dsimp only at hx
          cases hl : rows.getLast? with
          | none =>
              rw [hl] at hx
              cases hx
          | some last =>
              rw [hl] at hx
              exact .inr ⟨after, rows, hp, hx⟩
  | walk rows last short =>
      cases rows with
      | nil =>
          unfold step at hx
          dsimp only at hx
          split at hx <;> cases hx
      | cons row rows => exact .inl (List.mem_cons_of_mem _ (rows_visit _ _ _ _ _ _ hx))

namespace Deployment.InBooks

variable {first : RowId} {d : Deployment ρ} {staged : List Row} {h : History}

theorem of_mem_pending (b : d.InBooks first staged h) {after : Option RowId} {limit : Nat}
    {rows : List Row} (hp : d.store.pending after limit = .ok rows) :
    ∀ row ∈ rows, row ∈ h.committed := by
  intro row hrow
  unfold Store.pending Store.ensureAvailable at hp
  cases ha : d.store.available with
  | false =>
      rw [ha] at hp
      cases hp
  | true =>
      rw [ha] at hp
      cases hp
      obtain ⟨hmem, hpending⟩ := Table.of_mem_pending hrow
      have same : row.asPending = row := by
        rw [Row.asPending, ← show row.status = .pending from eq_of_beq hpending]
      exact same ▸ b.stored row hmem

theorem passStep (b : d.InBooks first staged h) (r : Resender) {p : Pass}
    (hr : ∀ row ∈ p.phase.rows, row ∈ h.committed) :
    (p.step .inMemory r d).2.InBooks first staged (h ++ p.stepEvents r d) ∧
      ∀ row ∈ (p.step .inMemory r d).1.rows, row ∈ h.committed := by
  refine ⟨?_, fun row hrow => ?_⟩
  · rcases p.step_cases r d with ⟨hd, he⟩ | ⟨row, hrow, hd, he⟩
    · rw [hd, he, List.append_nil]
      exact b
    · rw [hd, he]
      exact b.publishRow (hr row hrow) r.settler
  · rcases Pass.mem_rows_step hrow with hrow | ⟨after, rows, hp, hrow⟩
    · exact hr row hrow
    · exact b.of_mem_pending hp row hrow

theorem passRun {d : Deployment ρ} {h : History} (b : d.InBooks first staged h) (r : Resender)
    {p : Pass} (hr : ∀ row ∈ p.phase.rows, row ∈ h.committed) :
    (p.run .inMemory r d).2.InBooks first staged (h ++ p.events r d) := by
  obtain ⟨b', hr'⟩ := b.passStep r hr
  rw [Pass.run]
  split
  · rename_i outcome d' hs
    rw [Pass.events_of_ended hs]
    rw [hs] at b'
    exact b'
  · rename_i p' d' hs
    rw [Pass.events_of_next hs, ← List.append_assoc]
    rw [hs] at b' hr'
    refine passRun b' r fun row hrow => ?_
    rw [History.committed_append]
    exact List.mem_append_left _ (hr' row hrow)
termination_by p.measure
decreasing_by exact Pass.measure_step ‹_›

theorem fireAll {due : List (HeldConfirm ConfirmCallback)} (ack : Bool)
    (b : Books first d.store due staged h) (hheld : d.broker.held = []) :
    let due := due.map fun c => (c.callback, Confirm.ofAck c.correlation ack)
    (due.foldl (fun d (callback, confirm) => d.fire callback confirm) d).InBooks first staged
      (h ++ due.map .ofDue) := by
  induction due generalizing d h with
  | nil =>
      show Books first d.store d.broker.held staged (h ++ [])
      rw [hheld, List.append_nil]
      exact b
  | cons c due ih =>
      have b' := Books.fire b ack
      have hheld' : (d.fire c.callback (.ofAck c.correlation ack)).broker.held = [] := by
        rw [(fire_same _ _ _).2]
        exact hheld
      have b'' := ih b' hheld'
      dsimp only at b''
      rw [List.append_assoc] at b''
      exact b''

theorem settleHeld (b : d.InBooks first staged h) (ack : Bool) :
    (d.settleHeld ack).2.InBooks first staged
      (h ++ (d.broker.releaseConfirms ack).1.map .ofDue) :=
  fireAll (d := { d with broker := (d.broker.releaseConfirms ack).2 }) ack b rfl

end Deployment.InBooks

/-! ## Runs -/

/-- What holds of an outbox at all times. -/
structure Outbox.Sound (first : RowId) (o : Outbox ρ) (h : History) : Prop where
  books : o.deployment.InBooks first (o.units.flatMap (·.staged)) h
  deferred : ∀ u ∈ o.units, u.deferred.map (·.row) = u.staged
  walking : ∀ p ∈ o.passes, ∀ row ∈ p.2.phase.rows, row ∈ h.committed

namespace Outbox.Sound

variable {first : RowId} {o : Outbox ρ} {h : History}

theorem start (now : Instant) (first : RowId) (rig : ρ) : (Outbox.start now first rig).Sound first [] where
  books := Books.start first
  deferred := nofun
  walking := nofun

/-- The rows staged in the units, those of one unit first. -/
theorem staged_perm {units : List (UnitOfWork Announcement)} {i : Nat} {u : UnitOfWork Announcement}
    (hu : units[i]? = some u) :
    (u.staged ++ (units.eraseIdx i).flatMap (·.staged)).Perm (units.flatMap (·.staged)) := by
  obtain ⟨hi, rfl⟩ := List.getElem?_eq_some_iff.mp hu
  exact (List.getElem_cons_eraseIdx_perm hi).flatMap_right (·.staged)

theorem staged_set_perm {units : List (UnitOfWork Announcement)} {i : Nat}
    {u u' : UnitOfWork Announcement} {row : Row} (hu : units[i]? = some u)
    (hs : u'.staged = u.staged ++ [row]) :
    ((units.set i u').flatMap (·.staged)).Perm (row :: units.flatMap (·.staged)) := by
  obtain ⟨hi, rfl⟩ := List.getElem?_eq_some_iff.mp hu
  refine ((List.set_perm_cons_eraseIdx hi u').flatMap_right (·.staged)).trans ?_
  rw [List.flatMap_cons, hs]
  refine (List.perm_append_comm.append_right _).trans ?_
  exact (staged_perm hu).cons row

theorem walking_append (hs : o.Sound first h) (h' : History) :
    ∀ p ∈ o.passes, ∀ row ∈ p.2.phase.rows, row ∈ History.committed (h ++ h') := by
  intro p hp row hrow
  rw [History.committed_append]
  exact List.mem_append_left _ (hs.walking p hp row hrow)

theorem of_books (hs : o.Sound first h) {d : Deployment ρ} {h' : History}
    (b : d.InBooks first (o.units.flatMap (·.staged)) (h ++ h')) :
    Outbox.Sound first { o with deployment := d } (h ++ h') :=
  ⟨b, hs.deferred, hs.walking_append h'⟩

theorem openUnit (hs : o.Sound first h) : (o.step .openUnit).Sound first h := by
  dsimp only [step]
  rw [UnitOfWork.start_eq]
  cases o.deployment.store.allocateId with
  | error e => exact hs
  | ok r =>
      dsimp only [Except.map]
      refine ⟨?_, ?_, hs.walking⟩
      · rw [List.flatMap_append, List.flatMap_singleton]
        refine Books.perm hs.books (.refl _) ?_
        rw [UnitOfWork.empty, List.append_nil]
      · intro u hu
        rcases List.mem_append.mp hu with hu | hu
        · exact hs.deferred u hu
        · rw [List.mem_singleton.mp hu]
          rfl

theorem stage (hs : o.Sound first h) (unit : Nat) (sender : Sender) (draft : Draft)
    (few : History.allocations (h ++ o.events (.stage unit sender draft)) < UInt64.size) :
    (o.step (.stage unit sender draft)).Sound first (h ++ o.events (.stage unit sender draft)) := by
  dsimp only [step, events] at few ⊢
  cases hu : o.units[unit]? with
  | none =>
      rw [List.append_nil]
      exact hs
  | some u =>
      rw [hu] at few
      dsimp only at few ⊢
      have b := hs.books.sendIn few sender u draft
      rcases hsend : sender.sendIn id u draft o.deployment with ⟨_ | ⟨rowId, u'⟩, d'⟩
      · rw [hsend] at b
        exact hs.of_books b
      · rw [hsend] at b
        obtain ⟨a, rfl, b⟩ := b
        refine ⟨Books.perm b (.refl _) (staged_set_perm hu rfl), ?_, hs.walking_append _⟩
        intro v hv
        rcases List.mem_or_eq_of_mem_set hv with hv | rfl
        · exact hs.deferred v hv
        · rw [List.map_append, hs.deferred u (List.mem_of_getElem? hu)]
          rfl

theorem commit (hs : o.Sound first h) (unit : Nat) :
    (o.step (.commit unit)).Sound first (h ++ o.events (.commit unit)) := by
  dsimp only [step, events]
  cases hu : o.units[unit]? with
  | none =>
      rw [List.append_nil]
      exact hs
  | some u =>
      have b : o.deployment.InBooks first (u.staged ++ (o.units.eraseIdx unit).flatMap (·.staged)) h :=
        Books.perm hs.books (.refl _) (staged_perm hu)
      refine ⟨b.commit (hs.deferred u (List.mem_of_getElem? hu)), ?_, hs.walking_append _⟩
      exact fun v hv => hs.deferred v (List.mem_of_mem_eraseIdx hv)

theorem discard (hs : o.Sound first h) (unit : Nat) :
    (o.step (.discard unit)).Sound first (h ++ o.events (.discard unit)) := by
  dsimp only [step, events]
  cases hu : o.units[unit]? with
  | none =>
      rw [List.append_nil, List.eraseIdx_of_length_le (List.getElem?_eq_none_iff.mp hu)]
      exact hs
  | some u =>
      have b : o.deployment.InBooks first (u.staged ++ (o.units.eraseIdx unit).flatMap (·.staged)) h :=
        Books.perm hs.books (.refl _) (staged_perm hu)
      refine ⟨b.discard, ?_, hs.walking_append _⟩
      exact fun v hv => hs.deferred v (List.mem_of_mem_eraseIdx hv)

theorem stepPass (hs : o.Sound first h) (pass : Nat) :
    (o.step (.stepPass pass)).Sound first (h ++ o.events (.stepPass pass)) := by
  dsimp only [step, events]
  cases hp : o.passes[pass]? with
  | none =>
      rw [List.append_nil]
      exact hs
  | some rp =>
      obtain ⟨r, p⟩ := rp
      obtain ⟨b, hr⟩ := hs.books.passStep r (hs.walking (r, p) (List.mem_of_getElem? hp))
      dsimp only
      rcases hstep : p.step .inMemory r o.deployment with ⟨p' | outcome, d'⟩
      · rw [hstep] at b hr
        refine ⟨b, hs.deferred, ?_⟩
        intro q hq
        rcases List.mem_or_eq_of_mem_set hq with hq | rfl
        · exact hs.walking_append _ q hq
        · intro row hrow
          rw [History.committed_append]
          exact List.mem_append_left _ (hr row hrow)
      · rw [hstep] at b
        exact ⟨b, hs.deferred, fun q hq => hs.walking_append _ q (List.mem_of_mem_eraseIdx hq)⟩

/-- Every move keeps the books in order while ids last. -/
theorem step (hs : o.Sound first h) (m : OutboxMove)
    (few : History.allocations (h ++ o.events m) < UInt64.size) :
    (o.step m).Sound first (h ++ o.events m) := by
  have quiet : h ++ [] = h := List.append_nil h
  cases m with
  | openUnit => exact quiet.symm ▸ hs.openUnit
  | stage unit sender draft => exact hs.stage unit sender draft few
  | commit unit => exact hs.commit unit
  | discard unit => exact hs.discard unit
  | trySend sender draft => exact hs.of_books (hs.books.trySend sender draft few)
  | pass resender => exact hs.of_books (hs.books.passRun resender nofun)
  | startPass resender =>
      refine quiet.symm ▸ ⟨hs.books, hs.deferred, ?_⟩
      intro p hp
      rcases List.mem_append.mp hp with hp | hp
      · exact hs.walking p hp
      · rw [List.mem_singleton.mp hp]
        nofun
  | stepPass pass => exact hs.stepPass pass
  | settleHeld ack => exact hs.of_books (hs.books.settleHeld ack)
  | loseHeld => exact hs.of_books (quiet.symm ▸ Books.forget hs.books (List.nil_sublist _))
  | setStoreAvailable available =>
      exact hs.of_books (quiet.symm ▸ Books.of_table_eq hs.books rfl rfl)
  | failNextCommit => exact hs.of_books (quiet.symm ▸ Books.of_table_eq hs.books rfl rfl)
  | addSettler policy => exact hs.of_books (quiet.symm ▸ hs.books)
  | setConfirmMode mode => exact hs.of_books (quiet.symm ▸ hs.books)
  | setBrokerAvailable available => exact hs.of_books (quiet.symm ▸ hs.books)
  | setClock now => exact hs.of_books (quiet.symm ▸ hs.books)

end Outbox.Sound

namespace Chronicle

theorem sound_run {now : Instant} {first : RowId} {rig : ρ} {moves : List OutboxMove}
    (few : (run now first rig moves).history.allocations < UInt64.size) :
    (run now first rig moves).outbox.Sound first (run now first rig moves).history :=
  History.foldl_of_few (P := fun c : Chronicle ρ => c.outbox.Sound first c.history)
    (fun _ _ => ⟨_, rfl⟩) (fun _ m hs few => hs.step m few) moves (.start now first rig) few

end Chronicle

/-- While ids last, a committed row is stored and pending unless a publish of it was taken and
confirmed by an ack. A publish with the id of a row is taken only after the row was committed, and
none is if the row's unit is open still, was given up or failed to commit. -/
theorem Outbox.keeps_committed_rows (now : Instant) (first : RowId) (rig : ρ)
    (moves : List OutboxMove)
    (few : (Chronicle.run now first rig moves).history.allocations < UInt64.size) :
    let o := moves.foldl step (start now first rig)
    let h := (Chronicle.run now first rig moves).history
    (∀ row ∈ h.committed,
      (o.deployment.store.table.get? row.id = some row ∧ row.isPending = true) ∨ h.Confirmed row) ∧
      (∀ callback, h.firings callback ≤ h.acceptances callback) ∧
      (∀ earlier m callback later, h = earlier ++ .accepted m callback :: later →
        ∃ row settler, .committed row ∈ earlier ∧ m = row.message ∧
          callback = .settle settler row.id ∧
          ∀ r ∈ h.committed, m.correlation = some r.id → r = row) ∧
      (∀ row, row ∈ h.discarded ∨ (∃ u ∈ o.units, row ∈ u.staged) →
        ∀ m callback, .accepted m callback ∈ h → m.correlation ≠ some row.id) ∧
      o.deployment.broker.published.map (·.logged) = h.publishes.map (·.logged) := by
  intro o h
  have hs : o.Sound first h := by
    have := Chronicle.sound_run few
    rwa [Chronicle.outbox_run] at this
  have b := hs.books
  have mem : ∀ {r}, r ∈ h.committed →
      r ∈ o.units.flatMap (·.staged) ++ h.committed ++ h.discarded :=
    fun hr => List.mem_append_left _ (List.mem_append_right _ hr)
  refine ⟨?_, ?_, ?_, ?_, ?_⟩
  · intro row hrow
    refine (b.kept row hrow).imp_left fun hm => ⟨Table.get?_eq_some_iff.mpr ⟨hm, rfl⟩, ?_⟩
    exact beq_iff_eq.mpr (b.pending row (List.mem_append_right _ hrow))
  · exact fun callback => Nat.le_trans (Nat.le_add_right _ _) (b.fired callback)
  · intro earlier m callback later he
    obtain ⟨row, settler, hr, rfl, rfl⟩ := b.inOrder earlier m callback later he
    refine ⟨row, settler, hr, rfl, rfl, ?_⟩
    intro r hrm hid
    have hrow : row ∈ h.committed := by
      rw [History.mem_committed, he]
      exact List.mem_append_left _ hr
    exact (b.eq_of_id_eq (mem hrow) (mem hrm) (Option.some.inj hid)).symm
  · intro row hrow m callback hm hid
    obtain ⟨earlier, later, he⟩ := List.append_of_mem hm
    obtain ⟨r, settler, hr, rfl, -⟩ := b.inOrder earlier m callback later he
    have hrc : r ∈ h.committed := by
      rw [History.mem_committed, he]
      exact List.mem_append_left _ hr
    have hd := b.distinct
    rw [List.map_append, List.map_append, List.nodup_append, List.nodup_append] at hd
    obtain ⟨⟨-, -, hopen⟩, -, hgone⟩ := hd
    rcases hrow with hrow | ⟨u, hu, hrow⟩
    · exact hgone r.id (List.mem_append_right _ (List.mem_map_of_mem hrc)) row.id
        (List.mem_map_of_mem hrow) (Option.some.inj hid)
    · exact hopen row.id (List.mem_map_of_mem (List.mem_flatMap.mpr ⟨u, hu, hrow⟩)) r.id
        (List.mem_map_of_mem hrc) (Option.some.inj hid).symm
  · have := Chronicle.steady_run steady_published now first rig rfl moves
    rwa [Chronicle.outbox_run] at this

/-- The row of a message whose confirm was lost. -/
theorem Outbox.keeps_row_of_lost_confirm :
    let moves : List OutboxMove :=
      [.addSettler .delete, .setConfirmMode .hold,
        .trySend ⟨0, .topic⟩ ⟨"orders", "order.placed", "1", none, none, none⟩, .loseHeld]
    let o := moves.foldl step (start 0 41 ())
    let h := (Chronicle.run 0 41 () moves).history
    h.allocations < UInt64.size ∧ h.committed.map (·.id) = [41] ∧
      ∀ row ∈ h.committed,
        (o.deployment.store.table.get? row.id = some row ∧ row.isPending = true) ∨ h.Confirmed row :=
  ⟨by decide, by decide, (keeps_committed_rows 0 41 () _ (by decide)).1⟩

end DurableMessaging
