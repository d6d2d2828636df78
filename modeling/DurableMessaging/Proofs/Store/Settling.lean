import DurableMessaging.Deployment
import DurableMessaging.Proofs.Store.Rows

/-!
# Confirms in any order

What confirms do to an available store depends on which confirms there are, not on their order or on
how often each of them comes. Each settler counts each of its confirms in one place.
-/

namespace DurableMessaging

/-- A confirm that comes in at a settler for a publish of row `expected`. -/
structure Notice where
  settler : Nat
  expected : RowId
  confirm : Confirm
  deriving DecidableEq

namespace Notice

/-- Whether it is an ack of the row that was published. -/
def acks (n : Notice) : Bool :=
  n.confirm.correlation == some n.expected && n.confirm.outcome == .ack

def nacks (n : Notice) : Bool :=
  n.confirm.correlation == some n.expected && n.confirm.outcome != .ack

/-- Whether it is about another row, or none. -/
def strays (n : Notice) : Bool := n.confirm.correlation != some n.expected

/-- It is exactly one of the three. -/
theorem kinds (n : Notice) :
    (n.acks = true ∧ n.nacks = false ∧ n.strays = false) ∨
      (n.acks = false ∧ n.nacks = true ∧ n.strays = false) ∨
        (n.acks = false ∧ n.nacks = false ∧ n.strays = true) := by
  unfold acks nacks strays bne
  cases n.confirm.correlation == some n.expected <;> cases n.confirm.outcome == .ack <;> simp

theorem countP_kinds (notices : List Notice) :
    notices.countP acks + notices.countP nacks + notices.countP strays = notices.length := by
  induction notices with
  | nil => rfl
  | cons n notices ih =>
      simp only [List.countP_cons, List.length_cons]
      rcases n.kinds with ⟨ha, hn, hs⟩ | ⟨ha, hn, hs⟩ | ⟨ha, hn, hs⟩ <;>
        simp only [ha, hn, hs, Bool.false_eq_true, ↓reduceIte] <;> omega

end Notice

/-! ## One row -/

/-- What is left of a row once it is settled. -/
def Row.settled (row : Row) : AckPolicy → Option Row
  | .delete => none
  | .markSent => some row.asSent

/-- What a notice leaves of a row, the policies of the settlers being known. -/
def Notice.fate (policy? : Nat → Option AckPolicy) (row : Row) (n : Notice) : Option Row :=
  if n.acks ∧ n.expected = row.id then
    match policy? n.settler with
    | none => some row
    | some policy => row.settled policy
  else some row

/-- Whether a row is acked to some settler of a policy. -/
def AckedTo (policy? : Nat → Option AckPolicy) (notices : List Notice) (id : RowId)
    (policy : AckPolicy) : Prop :=
  ∃ n ∈ notices, n.acks ∧ n.expected = id ∧ policy? n.settler = some policy

instance (policy? : Nat → Option AckPolicy) (notices : List Notice) (id : RowId)
    (policy : AckPolicy) : Decidable (AckedTo policy? notices id policy) :=
  inferInstanceAs (Decidable (∃ n ∈ notices, _))

theorem ackedTo_cons {policy? : Nat → Option AckPolicy} {n : Notice} {notices : List Notice}
    {id : RowId} {policy : AckPolicy} :
    AckedTo policy? (n :: notices) id policy ↔
      ((n.acks ∧ n.expected = id) ∧ policy? n.settler = some policy) ∨
        AckedTo policy? notices id policy := by
  simp only [AckedTo, List.mem_cons, exists_eq_or_imp, and_assoc]

theorem foldlM_fate (policy? : Nat → Option AckPolicy) (notices : List Notice) (row : Row) :
    notices.foldlM (Notice.fate policy?) row =
      if AckedTo policy? notices row.id .delete then none
      else if AckedTo policy? notices row.id .markSent then some row.asSent
      else some row := by
  induction notices generalizing row with
  | nil => rfl
  | cons n notices ih =>
      rw [List.foldlM_cons, Notice.fate]
      simp only [ackedTo_cons]
      by_cases hn : n.acks ∧ n.expected = row.id
      · rw [if_pos hn]
        cases hp : policy? n.settler with
        | none => simp [ih]
        | some policy =>
            cases policy with
            | delete => simp [hn, Row.settled]
            | markSent => simp [hn, Row.settled, ih, Row.asSent]
      · simp [hn, ih]

/-! ## One settler -/

namespace Settler

/-- Counts a confirm that the store does not refuse. -/
def note (s : Settler) (n : Notice) : Settler :=
  if n.acks then s.countAck else if n.nacks then s.countNack else s.countAnomaly

theorem foldl_note (s : Settler) (notices : List Notice) :
    notices.foldl note s =
      ⟨s.policy, s.stats.acks + notices.countP (·.acks), s.stats.nacks + notices.countP (·.nacks),
        s.stats.anomalies + notices.countP (·.strays), s.stats.settleFailures⟩ := by
  induction notices generalizing s with
  | nil => rfl
  | cons n notices ih =>
      rw [List.foldl_cons, ih]
      unfold note
      rcases n.kinds with ⟨ha, hn, hs⟩ | ⟨ha, hn, hs⟩ | ⟨ha, hn, hs⟩ <;>
        simp [ha, hn, hs, countAck, countNack, countAnomaly, Nat.add_comm, Nat.add_left_comm]

theorem policy_foldl_note (s : Settler) (notices : List Notice) :
    (notices.foldl note s).policy = s.policy := by
  rw [foldl_note]

end Settler

/-! ## One confirm -/

namespace Table

theorem ext_rows {t t' : Table} (h : t.rows = t'.rows) : t = t' := by
  cases t
  cases h
  rfl

theorem rows_erase (t : Table) (id : RowId) :
    (t.erase id).rows =
      t.rows.filterMap fun row => if id = row.id then row.settled .delete else some row := by
  show t.rows.filter (·.id != id) = _
  rw [← List.filterMap_eq_filter]
  refine congrArg (List.filterMap · t.rows) (funext fun row => ?_)
  by_cases h : id = row.id
  · simp [h, Option.guard, Row.settled]
  · simp [h, Option.guard, Ne.symm h]

theorem rows_setSent (t : Table) (id : RowId) :
    (t.setStatus id .sent).rows =
      t.rows.filterMap fun row => if id = row.id then row.settled .markSent else some row := by
  show (t.rows.map fun r => if r.id = id then { r with status := .sent } else r) = _
  rw [← List.filterMap_eq_map]
  refine congrArg (List.filterMap · t.rows) (funext fun row => ?_)
  by_cases h : id = row.id <;> simp [h, Row.settled, Row.asSent, eq_comm]

/-- A row that is not pending is sent. -/
theorem setSent_of_not_pending {t : Table} {id : RowId}
    (h : ¬(t.get? id).any Row.isPending = true) : t.setStatus id .sent = t := by
  refine ext_rows ((List.map_congr_left fun row hr => ?_).trans (List.map_id _))
  split
  · rename_i hid
    rw [get?_eq_some_iff.mpr ⟨hr, hid⟩] at h
    obtain ⟨_, _, _, _, _, _, _, _, _, status⟩ := row
    cases status with
    | pending => exact absurd rfl h
    | sent => rfl
  · rfl

end Table

/-- An available store treats a row as the policy says, and nothing else in it changes. -/
theorem Store.settle_of_available {s : Store} (ha : s.available = true) (id : RowId)
    (policy : AckPolicy) :
    ∃ found table, s.settle id policy = .ok (found, { s with table }) ∧
      table.rows = s.table.rows.filterMap fun row =>
        if id = row.id then row.settled policy else some row := by
  cases policy with
  | delete =>
      refine ⟨s.table.contains id, s.table.erase id, ?_, s.table.rows_erase id⟩
      unfold settle delete ensureAvailable
      rw [if_pos ha]
      rfl
  | markSent =>
      have settled : s.settle id .markSent =
          .ok ((s.table.get? id).any Row.isPending,
            { s with table := s.table.setStatus id .sent }) := by
        unfold settle markSent ensureAvailable
        rw [if_pos ha]
        by_cases hp : (s.table.get? id).any Row.isPending = true
        · rw [hp]
          rfl
        · rw [Table.setSent_of_not_pending hp, Bool.eq_false_iff.mpr hp]
          rfl
      exact ⟨_, _, settled, s.table.rows_setSent id⟩

/-- Each confirm is counted in its place, and only an ack does anything to its row. -/
theorem Settler.handle_of_available (s : Settler) {store : Store} (ha : store.available = true)
    (n : Notice) :
    ∃ table, s.handle store n.expected n.confirm = (s.note n, { store with table }) ∧
      table.rows = store.table.rows.filterMap fun row =>
        if n.acks ∧ n.expected = row.id then row.settled s.policy else some row := by
  have left : n.acks = false → store.table.rows = store.table.rows.filterMap fun row =>
      if n.acks ∧ n.expected = row.id then row.settled s.policy else some row := by
    intro hn
    simp only [hn, Bool.false_eq_true, false_and, ↓reduceIte, List.filterMap_some]
  unfold handle note
  by_cases hc : n.confirm.correlation = some n.expected
  · cases ho : n.confirm.outcome with
    | ack =>
        have acked : n.acks = true := by simp [Notice.acks, hc, ho]
        obtain ⟨found, table, settled, rows⟩ := store.settle_of_available ha n.expected s.policy
        refine ⟨table, ?_, ?_⟩
        · simp only [hc, acked, ↓reduceIte, settled]
        · simpa only [acked, true_and] using rows
    | nack reason =>
        have acked : n.acks = false := by simp [Notice.acks, hc, ho]
        have nacked : n.nacks = true := by simp [Notice.nacks, hc, ho]
        refine ⟨store.table, ?_, left acked⟩
        simp only [hc, acked, nacked, ↓reduceIte, Bool.false_eq_true]
  · have acked : n.acks = false := by simp [Notice.acks, hc]
    have nacked : n.nacks = false := by simp [Notice.nacks, hc]
    refine ⟨store.table, ?_, left acked⟩
    simp only [hc, acked, nacked, ↓reduceIte, Bool.false_eq_true]

/-! ## Any number of confirms -/

namespace Deployment

variable {ρ : Type} {d d' d'' : Deployment ρ}

/-- The policy of a settler. -/
def policy? (d : Deployment ρ) (settler : Nat) : Option AckPolicy :=
  d.settlers[settler]?.map (·.policy)

def notify (d : Deployment ρ) (n : Notice) : Deployment ρ :=
  d.settleConfirm n.settler n.expected n.confirm

/-- Confirms that come in one after another. -/
def notifyAll (d : Deployment ρ) (notices : List Notice) : Deployment ρ := notices.foldl notify d

/-- The second deployment is the first after some notices. -/
structure Notified (notices : List Notice) (d d' : Deployment ρ) : Prop where
  rows : d'.store.table.rows = d.store.table.rows.filterMap fun row =>
    notices.foldlM (Notice.fate d.policy?) row
  settlers : ∀ i, d'.settlers[i]? =
    d.settlers[i]?.map fun s => (notices.filter (·.settler == i)).foldl Settler.note s
  store : d'.store = { d.store with table := d'.store.table }
  same : d' = { d with store := d'.store, settlers := d'.settlers }

theorem notified_nil (d : Deployment ρ) : Notified [] d d where
  rows := List.filterMap_some.symm
  settlers _ := Option.map_id'.symm ▸ rfl
  store := rfl
  same := rfl

theorem notified_single {n : Notice} (ha : d.store.available = true) :
    Notified [n] d (d.notify n) := by
  unfold notify settleConfirm
  cases hs : d.settlers[n.settler]? with
  | none =>
      refine ⟨?_, fun i => ?_, rfl, rfl⟩
      · simp [Notice.fate, policy?, hs]
      · by_cases hi : n.settler = i
        · subst hi
          rw [hs]
          rfl
        · simp [hi]
  | some s =>
      obtain ⟨table, handled, rows⟩ := s.handle_of_available ha n
      simp only [handled]
      refine ⟨?_, fun i => ?_, rfl, rfl⟩
      · simp [Notice.fate, policy?, hs, rows]
      · by_cases hi : n.settler = i
        · subst hi
          have known := (List.getElem?_eq_some_iff.mp hs).1
          simp [hs, List.getElem?_set_self known]
        · simp [hi]

theorem Notified.policy? {notices : List Notice} (h : Notified notices d d') :
    d'.policy? = d.policy? := by
  funext i
  unfold Deployment.policy?
  rw [h.settlers]
  cases d.settlers[i]? with
  | none => rfl
  | some s => exact congrArg some (s.policy_foldl_note _)

theorem Notified.append {notices notices' : List Notice} (h : Notified notices d d')
    (h' : Notified notices' d' d'') : Notified (notices ++ notices') d d'' where
  rows := by
    rw [h'.rows, h.rows, List.filterMap_filterMap, h.policy?]
    simp only [List.foldlM_append]
    rfl
  settlers i := by
    rw [h'.settlers, h.settlers, Option.map_map, List.filter_append]
    simp only [List.foldl_append]
    rfl
  store := h'.store.trans (congrArg (fun s : Store => { s with table := d''.store.table }) h.store)
  same := h'.same.trans (congrArg
    (fun d : Deployment ρ => { d with store := d''.store, settlers := d''.settlers }) h.same)

theorem notified_notifyAll (notices : List Notice) (ha : d.store.available = true) :
    Notified notices d (d.notifyAll notices) := by
  induction notices generalizing d with
  | nil => exact notified_nil d
  | cons n notices ih =>
      have first := notified_single (n := n) ha
      have available : (d.notify n).store.available = true := by
        rw [first.store]
        exact ha
      exact first.append (ih available)

theorem ackedTo_congr {policy? : Nat → Option AckPolicy} {notices notices' : List Notice}
    (same : ∀ n, n ∈ notices' ↔ n ∈ notices) (id : RowId) (policy : AckPolicy) :
    AckedTo policy? notices' id policy ↔ AckedTo policy? notices id policy := by
  simp only [AckedTo, same]

/-- The store does not know how often or in what order the confirms came. -/
theorem Notified.store_eq {notices notices' : List Notice} (h : Notified notices d d')
    (h' : Notified notices' d d'') (same : ∀ n, n ∈ notices' ↔ n ∈ notices) :
    d''.store = d'.store := by
  have table : d''.store.table = d'.store.table := Table.ext_rows <| by
    rw [h'.rows, h.rows]
    simp only [foldlM_fate, ackedTo_congr same]
  rw [h'.store, h.store, table]

/-- The settlers do not know in what order the confirms came. -/
theorem Notified.settlers_eq {notices notices' : List Notice} (h : Notified notices d d')
    (h' : Notified notices' d d'') (perm : notices'.Perm notices) : d''.settlers = d'.settlers := by
  refine List.ext_getElem? fun i => ?_
  rw [h'.settlers, h.settlers]
  have perm := perm.filter (·.settler == i)
  simp only [Settler.foldl_note, perm.countP_eq]

/-- Confirms that find the store available leave the table without the rows that some of them acked
to a settler that deletes. Of the other rows, those that some of them acked are sent, and the rest
is as it was. Each settler counts each of its confirms as an ack, a nack or an anomaly. The store is
the same however often and in whatever order the confirms come, and all else is in whatever order
they come. -/
theorem settles_in_any_order (d : Deployment ρ) (available : d.store.available = true)
    (notices : List Notice) :
    let d' := d.notifyAll notices
    (d'.store = { d.store with table := d'.store.table } ∧
      d'.store.table.rows = d.store.table.rows.filterMap fun row =>
        if AckedTo d.policy? notices row.id .delete then none
        else if AckedTo d.policy? notices row.id .markSent then some { row with status := .sent }
        else some row) ∧
      (∀ i s, d.settlers[i]? = some s →
        let mine := notices.filter (·.settler == i)
        mine.countP (·.acks) + mine.countP (·.nacks) + mine.countP (·.strays) = mine.length ∧
          d'.settlers[i]? = some ⟨s.policy, s.stats.acks + mine.countP (·.acks),
            s.stats.nacks + mine.countP (·.nacks), s.stats.anomalies + mine.countP (·.strays),
            s.stats.settleFailures⟩) ∧
      (∀ notices', (∀ n, n ∈ notices' ↔ n ∈ notices) →
        (d.notifyAll notices').store = d'.store) ∧
      ∀ notices', notices'.Perm notices → d.notifyAll notices' = d' := by
  intro d'
  have h : Notified notices d d' := notified_notifyAll notices available
  refine ⟨⟨h.store, ?_⟩, fun i s hs => ⟨Notice.countP_kinds _, ?_⟩, fun notices' same => ?_,
    fun notices' perm => ?_⟩
  · rw [h.rows]
    simp only [foldlM_fate]
    rfl
  · rw [h.settlers, hs, Option.map_some, Settler.foldl_note]
  · exact h.store_eq (notified_notifyAll notices' available) same
  · have h' : Notified notices' d (d.notifyAll notices') := notified_notifyAll notices' available
    rw [h'.same, h.same, h.store_eq h' fun n => perm.mem_iff, h.settlers_eq h' perm]

/-- A row is acked to a settler that marks rows before one that deletes them gets its ack, and the
other way round. Another row is acked twice and nacked in between; a third gets the confirm of
another row and one of no row. -/
theorem settles_race_of_two_policies :
    let row (id : RowId) : Row :=
      ⟨id, "m", "1", 0, "orders", "placed", none, .topic, none, .pending⟩
    let d : Deployment Unit :=
      { Deployment.start 0 4 () with
        store := ⟨⟨[row 1, row 2, row 3], by decide⟩, 4, true, false⟩
        settlers := [.new .delete, .new .markSent] }
    let notices : List Notice :=
      [⟨1, 1, ⟨some 1, .ack⟩⟩, ⟨0, 1, ⟨some 1, .ack⟩⟩, ⟨1, 2, ⟨some 2, .ack⟩⟩,
        ⟨0, 2, ⟨some 2, .nack "full"⟩⟩, ⟨1, 2, ⟨some 2, .ack⟩⟩, ⟨0, 3, ⟨some 2, .ack⟩⟩,
        ⟨1, 3, ⟨none, .ack⟩⟩]
    d.store.available = true ∧
      (d.notifyAll notices).store.table.rows = [(row 2).asSent, row 3] ∧
      (d.notifyAll notices).settlers =
        [⟨.delete, ⟨1, 1, 1, 0⟩⟩, ⟨.markSent, ⟨3, 0, 1, 0⟩⟩] ∧
      d.notifyAll notices.reverse = d.notifyAll notices := by
  intro row d notices
  obtain ⟨⟨-, rows⟩, -, -, anyOrder⟩ := settles_in_any_order d rfl notices
  exact ⟨rfl, rows.trans (by decide), by decide, anyOrder _ notices.reverse_perm⟩

end Deployment

end DurableMessaging
