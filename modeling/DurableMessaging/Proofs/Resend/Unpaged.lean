import DurableMessaging.Proofs.Resend.Paging
import DurableMessaging.Proofs.Sender.Answer
import DurableMessaging.Proofs.Store.Settling

/-!
# A pass without pages

How many rows a pass fetches at once makes no difference to what it does: it deals with the rows that
are pending when it begins as one loop over all of them would. Calls to the broker may fail on the
way with any error, and take any time.
-/

namespace DurableMessaging

variable {ρ : Type}

/-! ## Calls that may fail -/

inductive PassCall where
  | declare (t : Topology)
  | publish (m : OutboundMessage) (callback : ConfirmCallback)

/-- What a call meets on its way to the broker. -/
structure Transit (ρ : Type) where
  /-- The call fails with this error, and the broker does not see it. -/
  error : Option BrokerError
  now : Instant
  rig : ρ

/-- A line to the broker. What a call meets may depend on everything, also on a script or a count of
calls that the rig holds. -/
abbrev Line (ρ : Type) := PassCall → Deployment ρ → Transit ρ

namespace Line

def carry (line : Line ρ) (call : PassCall)
    (pass : Deployment ρ → Reply BrokerError Unit × Deployment ρ) (d : Deployment ρ) :
    Reply BrokerError Unit × Deployment ρ :=
  let t := line call d
  let d := { d with now := t.now, rig := t.rig }
  match t.error with
  | some e => (.failed e, d)
  | none => pass d

/-- The in-memory broker at the other end of a line. -/
def gateway (line : Line ρ) : Gateway ρ where
  declare t := line.carry (.declare t) (Gateway.inMemory.declare t)
  publish m callback := line.carry (.publish m callback) (Gateway.inMemory.publish m callback)
  startConsumer := Gateway.inMemory.startConsumer

end Line

/-! ## One loop over all rows -/

/-- Publishes rows one after another, except those that are too young, until the broker is
unavailable. -/
def Resender.resendAll (g : Gateway ρ) (r : Resender) :
    List Row → PassReport → Deployment ρ → PassReport × Deployment ρ
  | [], report, d => (report, d)
  | row :: rows, report, d =>
    let report := { report with found := report.found + 1 }
    if row.age d.now < r.minAge then
      r.resendAll g rows { report with skippedYoung := report.skippedYoung + 1 } d
    else
      match g.publishRow r.settler row d with
      | (.returned (), d) =>
        r.resendAll g rows { report with republished := report.republished + 1 } d
      | (.failed (.unavailable _), d) =>
        ({ report with failed := report.failed + 1, brokerUnavailable := true }, d)
      | (.failed _, d) => r.resendAll g rows { report with failed := report.failed + 1 } d
      | (.crashed, d) => (report, d)

/-! ## What publishing a row does to the store -/

/-- Two stores that differ in one row at most. -/
structure Store.Apart (id : RowId) (s s' : Store) : Prop where
  available : s'.available = s.available
  rows : ∀ p : Row → Bool, (∀ row, p row = true → row.id ≠ id) →
    s'.table.rows.filter p = s.table.rows.filter p

namespace Store

theorem Apart.of_eq {s s' : Store} (h : s' = s) (id : RowId) : s.Apart id s' :=
  h ▸ ⟨rfl, fun _ _ => rfl⟩

theorem Apart.mem {id : RowId} {s s' : Store} (h : s.Apart id s') {row : Row} (hid : row.id ≠ id)
    (hrow : row ∈ s.table.rows) : row ∈ s'.table.rows := by
  have same := h.rows (· == row) fun x hx => eq_of_beq hx ▸ hid
  have found : row ∈ s.table.rows.filter (· == row) :=
    List.mem_filter.mpr ⟨hrow, beq_self_eq_true row⟩
  rw [← same] at found
  exact (List.mem_filter.mp found).1

theorem apart_settle {s s' : Store} {id : RowId} {policy : AckPolicy} {found : Bool}
    (h : s.settle id policy = .ok (found, s')) : s.Apart id s' := by
  cases ha : s.available with
  | false =>
      cases policy <;> unfold settle at h
      · unfold delete ensureAvailable at h
        rw [ha] at h
        cases h
      · unfold markSent ensureAvailable at h
        rw [ha] at h
        cases h
  | true =>
      obtain ⟨found', table, settled, rows⟩ := settle_of_available ha id policy
      cases settled.symm.trans h
      refine ⟨rfl, fun p avoids => ?_⟩
      dsimp only
      rw [rows, List.filter_filterMap, ← List.filterMap_eq_filter]
      refine congrArg (List.filterMap · s.table.rows) (funext fun row => ?_)
      by_cases hid : id = row.id
      · have ignored : ∀ x : Row, x.id = id → p x = false := fun x hx =>
          Bool.eq_false_iff.mpr fun hp => avoids x hp hx
        rw [if_pos hid]
        have before : Option.guard p row = none := by
          rw [Option.guard, ignored row hid.symm]
          rfl
        cases policy with
        | delete => exact before.symm
        | markSent =>
            have after : Option.filter p (row.settled .markSent) = none := by
              rw [Row.settled, Option.filter_some, ignored row.asSent hid.symm]
              rfl
            exact after.trans before.symm
      · rw [if_neg hid]
        rfl

end Store

theorem Deployment.apart_fire (d : Deployment ρ) (settler : Nat) (id : RowId) (ack : Bool) :
    d.store.Apart id (d.fire (.settle settler id) (.ofAck (some id) ack)).store := by
  rcases d.store_fire settler id ack with same | ⟨-, policy, settled, h⟩
  · exact .of_eq same id
  · exact Store.apart_settle h

/-- A gateway that comes back from every call, and whose calls for a row do nothing to the store but
settle that row. -/
structure Gateway.Confined (g : Gateway ρ) : Prop where
  declare : ∀ t d, (g.declare t d).1 ≠ .crashed ∧ (g.declare t d).2.store = d.store
  publish : ∀ (row : Row) settler d,
    (g.publish row.message (.settle settler row.id) d).1 ≠ .crashed ∧
      d.store.Apart row.id (g.publish row.message (.settle settler row.id) d).2.store
  refused : ∀ (row : Row) settler d e,
    (g.publish row.message (.settle settler row.id) d).1 = .failed e →
      (g.publish row.message (.settle settler row.id) d).2.store = d.store

namespace Gateway

theorem confined_inMemory : (inMemory : Gateway ρ).Confined where
  declare t d := by
    dsimp only [inMemory]
    cases d.broker.declare t with
    | error e => exact ⟨nofun, rfl⟩
    | ok b => exact ⟨nofun, rfl⟩
  publish row settler d := by
    dsimp only [inMemory]
    cases h : d.broker.publish row.message (.settle settler row.id) with
    | error e => exact ⟨nofun, .of_eq rfl _⟩
    | ok p =>
        obtain ⟨t, -, -, rfl⟩ := Broker.publish_eq_ok h
        unfold Broker.taken
        cases d.broker.confirmMode with
        | hold => exact ⟨nofun, .of_eq rfl _⟩
        | ack =>
            exact ⟨nofun, Deployment.apart_fire { d with broker := d.broker.accept row.message t }
              settler row.id true⟩
        | nack =>
            exact ⟨nofun, Deployment.apart_fire { d with broker := d.broker.accept row.message t }
              settler row.id false⟩
  refused row settler d e := by
    dsimp only [inMemory]
    cases h : d.broker.publish row.message (.settle settler row.id) with
    | error e => exact fun _ => rfl
    | ok p =>
        dsimp only
        cases p.confirm <;> exact nofun

theorem Confined.line (line : Line ρ) : line.gateway.Confined where
  declare t d := by
    dsimp only [Line.gateway, Line.carry]
    cases (line (.declare t) d).error with
    | some e => exact ⟨nofun, rfl⟩
    | none => exact confined_inMemory.declare t _
  publish row settler d := by
    dsimp only [Line.gateway, Line.carry]
    cases (line (.publish row.message (.settle settler row.id)) d).error with
    | some e => exact ⟨nofun, .of_eq rfl _⟩
    | none => exact confined_inMemory.publish row settler _
  refused row settler d e := by
    dsimp only [Line.gateway, Line.carry]
    cases (line (.publish row.message (.settle settler row.id)) d).error with
    | some e => exact fun _ => rfl
    | none => exact confined_inMemory.refused row settler _ e

/-- To be watched makes no difference. -/
theorem Confined.watched {g : Gateway ρ} (h : g.Confined) : g.watched.Confined where
  declare t d := h.declare t d.bare
  publish row settler d := h.publish row settler d.bare
  refused row settler d e := h.refused row settler d.bare e

theorem Confined.publishRow {g : Gateway ρ} (h : g.Confined) (settler : Nat) (row : Row)
    (d : Deployment ρ) :
    (g.publishRow settler row d).1 ≠ .crashed ∧
      d.store.Apart row.id (g.publishRow settler row d).2.store ∧
      ∀ e, (g.publishRow settler row d).1 = .failed e →
        (g.publishRow settler row d).2.store = d.store := by
  obtain ⟨returns, same⟩ := h.declare row.topology d
  unfold Gateway.publishRow
  rcases hd : g.declare row.topology d with ⟨⟨⟩ | e | _, d'⟩
  · rw [hd] at same
    obtain ⟨returns', apart⟩ := h.publish row settler d'
    have refused := h.refused row settler d'
    rw [same] at apart refused
    exact ⟨returns', apart, refused⟩
  · rw [hd] at same
    exact ⟨nofun, .of_eq same _, fun _ _ => same⟩
  · rw [hd] at returns
    exact absurd rfl returns

end Gateway

/-! ## What a cursor leaves to be done -/

namespace Table

/-- The pending rows after a cursor. -/
def due (t : Table) (after : Option RowId) : List Row :=
  t.rows.filter fun row => after.all (· < row.id) && row.isPending

theorem length_pending (t : Table) (after : Option RowId) (limit : Nat) :
    (t.pending after limit).length = min limit (t.due after).length :=
  List.length_take

/-- A cursor at the last row of a page leaves what is not in the page. -/
theorem due_last {t : Table} {after : Option RowId} {limit : Nat} {last : Row}
    (h : (t.pending after limit).getLast? = some last) :
    t.due (some last.id) = (t.due after).drop limit := by
  have inPage : last ∈ t.pending after limit := List.mem_of_getLast? h
  have split : t.due after = t.pending after limit ++ (t.due after).drop limit :=
    (List.take_append_drop limit _).symm
  have beyond := pending_beyond inPage
  -- what lies after the last row of the page lies after the old cursor
  have narrowed : t.due (some last.id) = (t.due after).filter (last.id < ·.id) := by
    unfold due
    rw [List.filter_filter]
    refine List.filter_congr fun row _ => ?_
    by_cases hlt : last.id < row.id
    · have : after.all (· < row.id) = true := by
        cases after with
        | none => rfl
        | some after =>
            rw [Option.all_some, decide_eq_true_eq] at beyond ⊢
            exact UInt64.lt_trans beyond hlt
      simp [hlt, this]
    · simp [hlt]
  have ascending : (t.due after).Pairwise fun a b => a.id < b.id := t.ascending.filter _
  rw [split, List.pairwise_append] at ascending
  have page : (t.pending after limit).filter (last.id < ·.id) = [] := by
    rw [List.filter_eq_nil_iff]
    intro row hrow
    simpa using pending_le_last hrow h
  have rest : ((t.due after).drop limit).filter (last.id < ·.id) = (t.due after).drop limit := by
    rw [List.filter_eq_self]
    intro row hrow
    exact decide_eq_true (ascending.2.2 last inPage row hrow)
  rw [narrowed, split, List.filter_append, page, rest, List.nil_append, ← split]

end Table

theorem Store.Apart.due {id : RowId} {s s' : Store} (h : s.Apart id s') {last : RowId}
    (hid : id ≤ last) : s'.table.due (some last) = s.table.due (some last) := by
  refine h.rows _ fun row hrow heq => ?_
  obtain ⟨later, -⟩ := Bool.and_eq_true_iff.mp hrow
  rw [Option.all_some, decide_eq_true_eq, heq] at later
  exact UInt64.not_lt.mpr hid later

/-! ## The loop over all rows -/

namespace Resender

variable {g : Gateway ρ} {r : Resender}

/-- What publishing each of the rows keeps, the loop keeps. -/
theorem resendAll_keeps {P : Deployment ρ → Prop} {rows : List Row}
    (keeps : ∀ row ∈ rows, ∀ d, P d → P (g.publishRow r.settler row d).2) (report : PassReport)
    {d : Deployment ρ} (h : P d) : P (r.resendAll g rows report d).2 := by
  induction rows generalizing report d with
  | nil => exact h
  | cons row rows ih =>
      obtain ⟨first, rest⟩ := List.forall_mem_cons.mp keeps
      unfold resendAll
      dsimp only
      split
      · exact ih rest _ h
      · have after := first d h
        split <;> rename_i hp <;> rw [hp] at after
        · exact ih rest _ after
        · exact after
        · exact ih rest _ after
        · exact after

/-- What the loop does with one row. -/
inductive Deals (g : Gateway ρ) (r : Resender) (row : Row) (report : PassReport) (d : Deployment ρ) :
    PassReport × Deployment ρ → Prop
  | young (h : row.age d.now < r.minAge) :
      Deals g r row report d
        ({ report with found := report.found + 1, skippedYoung := report.skippedYoung + 1 }, d)
  | published {d' : Deployment ρ} (old : ¬row.age d.now < r.minAge)
      (h : g.publishRow r.settler row d = (.returned (), d')) :
      Deals g r row report d
        ({ report with found := report.found + 1, republished := report.republished + 1 }, d')
  | refused {e : BrokerError} {d' : Deployment ρ} (old : ¬row.age d.now < r.minAge)
      (h : g.publishRow r.settler row d = (.failed e, d')) (reached : e.isUnavailable = false) :
      Deals g r row report d
        ({ report with found := report.found + 1, failed := report.failed + 1 }, d')
  | unavailable {reason : String} {d' : Deployment ρ} (old : ¬row.age d.now < r.minAge)
      (h : g.publishRow r.settler row d = (.failed (.unavailable reason), d')) :
      Deals g r row report d
        ({ report with
            found := report.found + 1, failed := report.failed + 1, brokerUnavailable := true }, d')

section Confined

variable (hg : g.Confined)

include hg

theorem deals (row : Row) (report : PassReport) (d : Deployment ρ) :
    Deals g r row report d (r.resendAll g [row] report d) := by
  have returns := (hg.publishRow r.settler row d).1
  unfold resendAll
  dsimp only
  split
  · exact .young ‹_›
  · rename_i old
    split <;> rename_i hp
    · exact .published old hp
    · exact .unavailable old hp
    · rename_i e d' reached
      refine .refused old hp ?_
      cases e with
      | unavailable reason => exact absurd rfl (reached reason)
      | _ => rfl
    · rw [hp] at returns
      exact absurd rfl returns

theorem resendAll_cons {report : PassReport} (fresh : report.brokerUnavailable = false) (row : Row)
    (rows : List Row) (d : Deployment ρ) :
    let s := r.resendAll g [row] report d
    r.resendAll g (row :: rows) report d =
      if s.1.brokerUnavailable then s else r.resendAll g rows s.1 s.2 := by
  have returns := (hg.publishRow r.settler row d).1
  simp only [resendAll]
  by_cases young : row.age d.now < r.minAge
  · simp only [if_pos young, fresh, Bool.false_eq_true, if_false]
  · simp only [if_neg young]
    split <;> rename_i hp
    · simp only [fresh, Bool.false_eq_true, if_false]
    · rfl
    · simp only [fresh, Bool.false_eq_true, if_false]
    · rw [hp] at returns
      exact absurd rfl returns

end Confined

/-- How the loop ends: with all rows, or at the first row whose publish finds the broker
unavailable. -/
inductive Ends (g : Gateway ρ) (r : Resender) (rows : List Row) (report : PassReport)
    (d : Deployment ρ) (s : PassReport × Deployment ρ) : Prop
  | all (h : s.1.brokerUnavailable = false) (found : s.1.found = report.found + rows.length)
  | unavailable (before after : List Row) (row : Row) (reason : String) (d' : Deployment ρ)
      (split : rows = before ++ row :: after) (h : s.1.brokerUnavailable = true)
      (found : s.1.found = report.found + before.length + 1)
      (reached : d' = (r.resendAll g before report d).2)
      (first : (r.resendAll g before report d).1.brokerUnavailable = false)
      (refused : g.publishRow r.settler row d' = (.failed (.unavailable reason), s.2))

namespace Deals

variable {row : Row} {report : PassReport} {d : Deployment ρ} {s : PassReport × Deployment ρ}

theorem found (h : Deals g r row report d s) : s.1.found = report.found + 1 := by
  cases h <;> rfl

theorem addsUp (h : Deals g r row report d s)
    (before : report.found = report.republished + report.failed + report.skippedYoung) :
    s.1.found = s.1.republished + s.1.failed + s.1.skippedYoung := by
  cases h <;> dsimp only <;> omega

theorem unavailable_of (h : Deals g r row report d s) (fresh : report.brokerUnavailable = false)
    (cut : s.1.brokerUnavailable = true) :
    ∃ reason, g.publishRow r.settler row d = (.failed (.unavailable reason), s.2) := by
  cases h with
  | unavailable old hp => exact ⟨_, hp⟩
  | _ => exact absurd (fresh.symm.trans cut) Bool.false_ne_true

end Deals

section Confined

variable (hg : g.Confined)

include hg

theorem resendAll_addsUp (rows : List Row) {report : PassReport}
    (fresh : report.brokerUnavailable = false)
    (before : report.found = report.republished + report.failed + report.skippedYoung)
    (d : Deployment ρ) :
    let s := r.resendAll g rows report d
    s.1.found = s.1.republished + s.1.failed + s.1.skippedYoung := by
  induction rows generalizing report d with
  | nil => exact before
  | cons row rows ih =>
      have after := (deals (r := r) hg row report d).addsUp before
      rw [resendAll_cons hg fresh]
      dsimp only
      cases cut : (r.resendAll g [row] report d).1.brokerUnavailable with
      | true => exact after
      | false => exact ih cut after _

theorem resendAll_append (xs ys : List Row) {report : PassReport}
    (fresh : report.brokerUnavailable = false) (d : Deployment ρ) :
    let s := r.resendAll g xs report d
    r.resendAll g (xs ++ ys) report d =
      if s.1.brokerUnavailable then s else r.resendAll g ys s.1 s.2 := by
  induction xs generalizing report d with
  | nil =>
      dsimp only [resendAll, List.nil_append]
      rw [fresh]
      rfl
  | cons x xs ih =>
      have cons := fun rows => resendAll_cons (r := r) hg fresh x rows d
      dsimp only at cons
      rw [List.cons_append, cons (xs ++ ys), cons xs]
      cases cut : (r.resendAll g [x] report d).1.brokerUnavailable with
      | true => simp only [if_true, cut]
      | false =>
          simp only [Bool.false_eq_true, if_false]
          exact ih cut _

theorem ends (rows : List Row) {report : PassReport} (fresh : report.brokerUnavailable = false)
    (d : Deployment ρ) : Ends g r rows report d (r.resendAll g rows report d) := by
  induction rows generalizing report d with
  | nil => exact .all fresh rfl
  | cons row rows ih =>
      have first := deals (r := r) hg row report d
      have cons := fun rows => resendAll_cons (r := r) hg fresh row rows d
      dsimp only at cons
      cases cut : (r.resendAll g [row] report d).1.brokerUnavailable with
      | true =>
          obtain ⟨reason, refused⟩ := first.unavailable_of fresh cut
          rw [cons, if_pos cut]
          exact .unavailable [] rows row reason d rfl cut first.found rfl fresh refused
      | false =>
          simp only [cut, Bool.false_eq_true, if_false] at cons
          have found := first.found
          rw [cons]
          cases ih cut (r.resendAll g [row] report d).2 with
          | all h hf =>
              refine .all h ?_
              rw [hf, found, List.length_cons]
              omega
          | unavailable before after x reason d' split h hf reached first refused =>
              refine .unavailable (row :: before) after x reason d' (congrArg (row :: ·) split) h ?_
                (reached.trans (congrArg Prod.snd (cons before).symm)) (by rw [cons, first]) refused
              rw [hf, found, List.length_cons]
              omega

end Confined

end Resender

/-! ## Pages -/

namespace Pass

variable {g : Gateway ρ} {r : Resender}

theorem run_short (report : PassReport) (last : RowId) (d : Deployment ρ) :
    run g r ⟨report, .walk [] last true⟩ d = (.returned report, d) :=
  run_ended rfl

theorem run_full (report : PassReport) (last : RowId) (d : Deployment ρ) :
    run g r ⟨report, .walk [] last false⟩ d = run g r ⟨report, .query (some last)⟩ d :=
  run_next rfl

/-- A pass deals with a row of its page as the loop does. -/
theorem step_row {row : Row} {report : PassReport} {d : Deployment ρ}
    {s : PassReport × Deployment ρ} (h : Resender.Deals g r row report d s)
    (fresh : report.brokerUnavailable = false) (pages : Nat) (rows : List Row) (last : RowId)
    (short : Bool) :
    step g r ⟨{ report with pages }, .walk (row :: rows) last short⟩ d =
      (if s.1.brokerUnavailable then .ended (.returned { s.1 with pages })
        else .next ⟨{ s.1 with pages }, .walk rows last short⟩, s.2) := by
  dsimp only [step, visit]
  cases h with
  | young h => simp only [if_pos h, fresh, Bool.false_eq_true, if_false]
  | published old hp => simp only [if_neg old, hp, fresh, Bool.false_eq_true, if_false]
  | refused old hp reached =>
      simp only [if_neg old, hp, reached, fresh, Bool.false_eq_true, if_false]
  | unavailable old hp => simp only [if_neg old, hp, BrokerError.isUnavailable, if_true]

section Confined

variable (hg : g.Confined)

include hg

/-- A pass deals with the rows of its page as the loop does. -/
theorem run_walk (rows : List Row) {report : PassReport} (fresh : report.brokerUnavailable = false)
    (pages : Nat) (last : RowId) (short : Bool) (d : Deployment ρ) :
    let s := r.resendAll g rows report d
    run g r ⟨{ report with pages }, .walk rows last short⟩ d =
      if s.1.brokerUnavailable then (.returned { s.1 with pages }, s.2)
      else run g r ⟨{ s.1 with pages }, .walk [] last short⟩ s.2 := by
  induction rows generalizing report d with
  | nil =>
      dsimp only [Resender.resendAll]
      rw [fresh]
      rfl
  | cons row rows ih =>
      have step := step_row (Resender.deals (r := r) hg row report d) fresh pages rows last short
      have cons := Resender.resendAll_cons (r := r) hg fresh row rows d
      dsimp only at cons ⊢
      rw [cons]
      cases cut : (r.resendAll g [row] report d).1.brokerUnavailable with
      | true =>
          rw [cut, if_pos rfl] at step
          simp only [run_ended step, if_true, cut]
      | false =>
          rw [cut, if_neg Bool.false_ne_true] at step
          rw [run_next step, if_neg Bool.false_ne_true]
          exact ih cut _

/-- What rows are due after a cursor is not changed by publishing rows up to it. -/
theorem due_resendAll {rows : List Row} {last : RowId} (upTo : ∀ row ∈ rows, row.id ≤ last)
    (report : PassReport) (d : Deployment ρ) :
    (r.resendAll g rows report d).2.store.available = d.store.available ∧
      (r.resendAll g rows report d).2.store.table.due (some last) =
        d.store.table.due (some last) := by
  refine Resender.resendAll_keeps (P := fun d' => d'.store.available = d.store.available ∧
    d'.store.table.due (some last) = d.store.table.due (some last)) ?_ report ⟨rfl, rfl⟩
  rintro row hrow d' ⟨available, due⟩
  have apart := (hg.publishRow r.settler row d').2.1
  exact ⟨apart.available.trans available, (apart.due (upTo row hrow)).trans due⟩

omit hg in
theorem step_query {d : Deployment ρ} (available : d.store.available = true) (report : PassReport)
    (after : Option RowId) :
    let page := d.store.table.pending after r.batchSize
    step g r ⟨report, .query after⟩ d =
      (match page.getLast? with
        | none => .ended (.returned { report with pages := report.pages + 1 })
        | some last => .next ⟨{ report with pages := report.pages + 1 },
            .walk page last.id (page.length < r.batchSize)⟩, d) := by
  have found : d.store.pending after r.batchSize =
      .ok (d.store.table.pending after r.batchSize) := by
    unfold Store.pending Store.ensureAvailable
    rw [if_pos available]
    rfl
  cases last : (d.store.table.pending after r.batchSize).getLast? <;>
    simp only [step, query, found, last]

/-- From a page query on, a pass does what the loop does with the rows after its cursor; and if it is
not cut short, it queries as many pages as it takes to come to one that is not full. -/
theorem run_query (positive : 1 ≤ r.batchSize) {report : PassReport}
    (fresh : report.brokerUnavailable = false) (pages : Nat) (after : Option RowId)
    {d : Deployment ρ} (available : d.store.available = true) :
    let rows := d.store.table.due after
    let s := r.resendAll g rows report d
    ∃ pages', run g r ⟨{ report with pages }, .query after⟩ d =
        (.returned { s.1 with pages := pages' }, s.2) ∧
      (s.1.brokerUnavailable = false → pages' = pages + (rows.length / r.batchSize + 1)) := by
  induction hn : (d.store.table.due after).length using Nat.strongRecOn
    generalizing report pages after d with
  | ind n ih =>
      subst hn
      have step := step_query (g := g) (r := r) available { report with pages } after
      have whole := Resender.resendAll_append (r := r) hg (d.store.table.pending after r.batchSize)
        ((d.store.table.due after).drop r.batchSize) fresh d
      have split : d.store.table.pending after r.batchSize ++
          (d.store.table.due after).drop r.batchSize = d.store.table.due after :=
        List.take_append_drop _ _
      rw [split] at whole
      dsimp only at step whole ⊢
      cases hlast : (d.store.table.pending after r.batchSize).getLast? with
      | none =>
          have nothing : d.store.table.due after = [] := by
            rcases List.take_eq_nil_iff.mp (List.getLast?_eq_none_iff.mp hlast) with hb | hr
            · omega
            · exact hr
          rw [hlast] at step
          rw [nothing]
          exact ⟨pages + 1, run_ended step, fun _ => by simp⟩
      | some last =>
          rw [hlast] at step
          obtain ⟨available', due'⟩ := due_resendAll (r := r) hg
            (fun row hrow => Table.pending_le_last hrow hlast) report d
          rw [Table.due_last hlast] at due'
          have walked := run_walk (r := r) hg (d.store.table.pending after r.batchSize) fresh
            (pages + 1) last.id ((d.store.table.pending after r.batchSize).length < r.batchSize) d
          dsimp only at walked
          rw [run_next step, walked, whole]
          by_cases cut : (r.resendAll g (d.store.table.pending after r.batchSize) report
            d).1.brokerUnavailable
          · rw [if_pos cut, if_pos cut]
            exact ⟨pages + 1, rfl, fun uncut => absurd (uncut.symm.trans cut) Bool.false_ne_true⟩
          · have full := d.store.table.length_pending after r.batchSize
            rw [if_neg cut, if_neg cut]
            by_cases short : (d.store.table.due after).length < r.batchSize
            · rw [List.drop_eq_nil_of_le (Nat.le_of_lt short), decide_eq_true (by omega), run_short]
              refine ⟨pages + 1, rfl, fun _ => ?_⟩
              rw [Nat.div_eq_of_lt short]
            · have shorter : ((d.store.table.due after).drop r.batchSize).length =
                  (d.store.table.due after).length - r.batchSize := List.length_drop
              rw [decide_eq_false (by omega), run_full]
              obtain ⟨pages', ran, count⟩ :=
                ih _ (by rw [due']; omega) (Bool.eq_false_iff.mpr cut) (pages + 1) (some last.id)
                  (available'.trans available) rfl
              rw [due'] at ran count
              refine ⟨pages', ran, fun uncut => ?_⟩
              rw [count uncut, shorter, Nat.div_eq_sub_div positive (Nat.not_lt.mp short)]
              omega

end Confined

end Pass

/-! ## The pass and the loop -/

namespace Resender

theorem resendAll_batchSize (g : Gateway ρ) (r : Resender) (b : Nat) (rows : List Row)
    (report : PassReport) (d : Deployment ρ) :
    { r with batchSize := b }.resendAll g rows report d = r.resendAll g rows report d := by
  induction rows generalizing report d with
  | nil => rfl
  | cons row rows ih => simp only [resendAll, ih]

section Confined

variable {g : Gateway ρ} {r : Resender} (hg : g.Confined)

include hg

theorem mem_resendAll {rows : List Row} {x : Row} (other : ∀ row ∈ rows, x.id ≠ row.id)
    (report : PassReport) {d : Deployment ρ} (hx : x ∈ d.store.table.rows) :
    x ∈ (r.resendAll g rows report d).2.store.table.rows :=
  resendAll_keeps (P := fun d => x ∈ d.store.table.rows)
    (fun row hrow d => (hg.publishRow r.settler row d).2.1.mem (other row hrow)) report hx

/-- A whole pass does what the loop does with all pending rows. -/
theorem pass_run {b : Nat} (positive : 1 ≤ b) {d d' : Deployment ρ} {report : PassReport}
    (available : d.store.available = true)
    (looped : r.resendAll g (d.store.table.rows.filter Row.isPending) .zero d = (report, d')) :
    ∃ pages, { r with batchSize := b }.pass g d = (.returned { report with pages }, d') ∧
      (report.brokerUnavailable = false →
        pages = (d.store.table.rows.filter Row.isPending).length / b + 1) := by
  have all : d.store.table.due none = d.store.table.rows.filter Row.isPending := by
    simp [Table.due]
  have fresh : PassReport.zero.brokerUnavailable = false := rfl
  obtain ⟨pages, ran, count⟩ :=
    Pass.run_query (r := { r with batchSize := b }) hg positive fresh 0 none available
  rw [resendAll_batchSize, all, looped] at ran count
  exact ⟨pages, ran, fun uncut => (count uncut).trans (Nat.zero_add _)⟩

/-- Neither the row at which the broker is unavailable nor the rows after it are changed. -/
theorem rows_of_unavailable {d d' : Deployment ρ} {before after : List Row} {row : Row}
    {reason : String} (split : d.store.table.rows.filter Row.isPending = before ++ row :: after)
    (refused : g.publishRow r.settler row (r.resendAll g before .zero d).2 =
      (.failed (.unavailable reason), d')) :
    ∀ x ∈ row :: after, x ∈ d'.store.table.rows := by
  intro x hx
  have ascending : (d.store.table.rows.filter Row.isPending).Pairwise fun a b => a.id < b.id :=
    d.store.table.ascending.filter _
  rw [split, List.pairwise_append] at ascending
  have pending : x ∈ d.store.table.rows.filter Row.isPending :=
    split ▸ List.mem_append_right before hx
  have other : ∀ y ∈ before, x.id ≠ y.id := fun y hy =>
    (UInt64.ne_of_lt (ascending.2.2 y hy x hx)).symm
  have left := mem_resendAll (r := r) hg other .zero (List.mem_filter.mp pending).1
  have same := (hg.publishRow r.settler row _).2.2 _ (congrArg Prod.fst refused)
  rw [refused] at same
  exact same ▸ left

end Confined

/-- A pass makes the calls, the changes and the report of one loop over the rows that are pending
when it begins, whatever the size of its pages. The report adds up. A pass that is not cut short sees
all these rows, and one page more than the full ones; one that is cut short has found the broker
unavailable for the first time, and leaves the rows from there on as they are. -/
theorem pass_eq_resendAll (line : Line ρ) (r : Resender) {d : Deployment ρ}
    (available : d.store.available = true) :
    let g := line.gateway.watched
    let due := d.store.table.rows.filter Row.isPending
    ∃ report d', r.resendAll g due .zero (d.beside []) = (report, d') ∧
      (∀ b, 1 ≤ b → ∃ pages,
        { r with batchSize := b }.pass g (d.beside []) = (.returned { report with pages }, d') ∧
          (report.brokerUnavailable = false → pages = report.found / b + 1)) ∧
      report.found = report.republished + report.failed + report.skippedYoung ∧
      (report.brokerUnavailable = false → report.found = due.length) ∧
      (report.brokerUnavailable = true → ∃ before row after reason,
        let reached := r.resendAll g before .zero (d.beside [])
        due = before ++ row :: after ∧ report.found = before.length + 1 ∧
          reached.1.brokerUnavailable = false ∧
          g.publishRow r.settler row reached.2 = (.failed (.unavailable reason), d') ∧
          ∀ x ∈ row :: after, x ∈ d'.store.table.rows) := by
  intro g due
  have hg : g.Confined := (Gateway.Confined.line line).watched
  have fresh : PassReport.zero.brokerUnavailable = false := rfl
  have ends := ends (r := r) hg due fresh (d.beside [])
  have addsUp := resendAll_addsUp (r := r) hg due fresh rfl (d.beside [])
  rcases hs : r.resendAll g due .zero (d.beside []) with ⟨report, d'⟩
  have paged := fun b positive => pass_run (b := b) hg positive (d := d.beside []) available hs
  rw [hs] at ends addsUp
  refine ⟨report, d', rfl, ?_⟩
  dsimp only at ends addsUp
  cases ends with
  | all uncut found =>
      have counted : due.length = report.found := (found.trans (Nat.zero_add _)).symm
      refine ⟨counted ▸ paged, addsUp, fun _ => counted.symm, fun cut => ?_⟩
      cases uncut.symm.trans cut
  | unavailable before after row reason d'' split cut found reached first refused =>
      have uncut : ∀ {P : Prop}, report.brokerUnavailable = false → P := fun h =>
        absurd (h.symm.trans cut) Bool.false_ne_true
      subst reached
      refine ⟨fun b positive => ?_, addsUp, uncut, fun _ => ⟨before, row, after, reason, split, ?_,
        first, refused, rows_of_unavailable hg split refused⟩⟩
      · obtain ⟨pages, ran, -⟩ := paged b positive
        exact ⟨pages, ran, uncut⟩
      · exact found.trans (by simp [PassReport.zero])

/-- Acks on the spot take rows out of the pages: four rows in pages of two still make three pages,
the last one empty. Once the broker cannot be reached, what follows stays as it is. -/
theorem pass_eq_resendAll_of_four :
    let row (id : RowId) (created : Timestamp) : Row :=
      ⟨id, "m", "1", created, "orders", "order.placed", none, .topic, none, .pending⟩
    let d : Deployment Unit :=
      { ((Deployment.start (10 * Duration.second) 5 ()).addSettler .delete).2 with
        store := ((Store.startingAt 5).commit [row 1 0, row 2 (10 * Duration.second), row 3 0,
          row 4 0]).2 }
    let line (down : RowId) : Line Unit := fun call d =>
      match call with
      | .publish _ (.settle _ id) =>
        if id = 1 then ⟨some (.topologyConflict "queue"), d.now, ()⟩
        else if id = down then ⟨some (.unavailable "down"), d.now, ()⟩
        else ⟨none, d.now + 1, ()⟩
      | _ => ⟨none, d.now, ()⟩
    let pass (down : RowId) :=
      Resender.pass ⟨0, 2, Duration.second⟩ (line down).gateway.watched (d.beside [])
    d.store.available = true ∧
      ((pass 0).1 = .returned ⟨3, 4, 2, 1, 1, false⟩ ∧
        (pass 0).2.store.table.rows.map (·.id) = [1, 2]) ∧
      ∃ pages, (pass 3).1 = .returned ⟨pages, 3, 0, 2, 1, true⟩ ∧
        (pass 3).2.store.table.rows.map (·.id) = [1, 2, 3, 4] := by
  intro row d line pass
  have available : d.store.available = true := by decide +kernel
  let r : Resender := ⟨0, 2, Duration.second⟩
  let due := d.store.table.rows.filter Row.isPending
  refine ⟨available, ?_, ?_⟩
  · obtain ⟨report, d', looped, paged, -⟩ := pass_eq_resendAll (line 0) r available
    obtain ⟨pages, ran, count⟩ := paged 2 (by decide)
    obtain rfl : report = ⟨0, 4, 2, 1, 1, false⟩ :=
      (congrArg Prod.fst looped).symm.trans (by decide +kernel)
    obtain rfl : pages = 3 := count rfl
    rw [show pass 0 = _ from ran]
    refine ⟨rfl, (congrArg (·.2.store.table.rows.map Row.id) looped).symm.trans ?_⟩
    decide +kernel
  · obtain ⟨report, d', looped, paged, -⟩ := pass_eq_resendAll (line 3) r available
    obtain ⟨pages, ran, -⟩ := paged 2 (by decide)
    obtain rfl : report = ⟨0, 3, 0, 2, 1, true⟩ :=
      (congrArg Prod.fst looped).symm.trans (by decide +kernel)
    rw [show pass 3 = _ from ran]
    refine ⟨pages, rfl, (congrArg (·.2.store.table.rows.map Row.id) looped).symm.trans ?_⟩
    decide +kernel

end Resender

end DurableMessaging
