import DurableMessaging.Proofs.Outbox.History
import Mathlib.Data.List.Nodup

/-!
# The books of an outbox

What holds between the store, the confirms that are outstanding and the history: ids are given out
once, what is stored was committed, and what was committed is stored as it was or confirmed. Each
small thing that can happen keeps it so.
-/

namespace DurableMessaging

variable {ρ : Type}

/-! ## Histories that grow -/

namespace History

@[simp] theorem allocations_append (h h' : History) :
    (h ++ h').allocations = h.allocations + h'.allocations := List.countP_append

@[simp] theorem committed_append (h h' : History) :
    committed (h ++ h') = h.committed ++ h'.committed := List.filterMap_append

@[simp] theorem discarded_append (h h' : History) :
    discarded (h ++ h') = h.discarded ++ h'.discarded := List.filterMap_append

@[simp] theorem acceptances_append (h h' : History) (c : ConfirmCallback) :
    acceptances (h ++ h') c = h.acceptances c + h'.acceptances c := List.countP_append

@[simp] theorem firings_append (h h' : History) (c : ConfirmCallback) :
    firings (h ++ h') c = h.firings c + h'.firings c := List.countP_append

section Runs

variable {σ μ : Type} {history : σ → History} {step : σ → μ → σ}

theorem grow_foldl (grow : ∀ s m, ∃ h, history (step s m) = history s ++ h) (moves : List μ) (s : σ) :
    ∃ h, history (moves.foldl step s) = history s ++ h := by
  induction moves generalizing s with
  | nil => exact ⟨[], (List.append_nil _).symm⟩
  | cons m moves ih =>
      obtain ⟨h, hh⟩ := grow s m
      obtain ⟨h', hh'⟩ := ih (step s m)
      exact ⟨h ++ h', by rw [List.foldl_cons, hh', hh, List.append_assoc]⟩

theorem allocations_le_foldl (grow : ∀ s m, ∃ h, history (step s m) = history s ++ h)
    (moves : List μ) (s : σ) :
    (history s).allocations ≤ (history (moves.foldl step s)).allocations := by
  obtain ⟨h, hh⟩ := grow_foldl grow moves s
  rw [hh, allocations_append]
  exact Nat.le_add_right _ _

/-- What every move keeps while ids last holds at the end of a run if they last so long. -/
theorem foldl_of_few (grow : ∀ s m, ∃ h, history (step s m) = history s ++ h) {P : σ → Prop}
    (keep : ∀ s m, P s → (history (step s m)).allocations < UInt64.size → P (step s m))
    (moves : List μ) {s : σ} (hs : P s)
    (few : (history (moves.foldl step s)).allocations < UInt64.size) : P (moves.foldl step s) := by
  induction moves generalizing s with
  | nil => exact hs
  | cons m moves ih =>
      have now := Nat.lt_of_le_of_lt (allocations_le_foldl grow moves (step s m)) few
      exact ih (keep s m hs now) few

end Runs

theorem mem_committed {h : History} {row : Row} : row ∈ h.committed ↔ .committed row ∈ h := by
  unfold committed
  rw [List.mem_filterMap]
  constructor
  · rintro ⟨e, he, heq⟩
    cases e <;> cases heq
    exact he
  · exact fun he => ⟨_, he, rfl⟩

theorem committed_map (rows : List Row) :
    committed (rows.map .committed) = rows ∧ discarded (rows.map .committed) = [] ∧
      allocations (rows.map .committed) = 0 := by
  induction rows with
  | nil => exact ⟨rfl, rfl, rfl⟩
  | cons row rows ih => exact ⟨congrArg (row :: ·) ih.1, ih.2.1, ih.2.2⟩

theorem discarded_map (rows : List Row) :
    committed (rows.map .discarded) = [] ∧ discarded (rows.map .discarded) = rows ∧
      allocations (rows.map .discarded) = 0 := by
  induction rows with
  | nil => exact ⟨rfl, rfl, rfl⟩
  | cons row rows ih => exact ⟨ih.1, congrArg (row :: ·) ih.2.1, ih.2.2⟩

theorem count_accepted (m : OutboundMessage) (c callback : ConfirmCallback) :
    acceptances [.accepted m c] callback = (if c = callback then 1 else 0) ∧
      firings [.accepted m c] callback = 0 := by
  by_cases hc : c = callback <;> simp [acceptances, firings, hc]

theorem count_fired (c callback : ConfirmCallback) (confirm : Confirm) :
    acceptances [.fired c confirm] callback = 0 ∧
      firings [.fired c confirm] callback = (if c = callback then 1 else 0) := by
  by_cases hc : c = callback <;> simp [acceptances, firings, hc]

/-- A publish of the row was taken, and such a publish was confirmed by an ack. -/
def Confirmed (h : History) (row : Row) : Prop :=
  ∃ settler, .accepted row.message (.settle settler row.id) ∈ h ∧
    .fired (.settle settler row.id) ⟨some row.id, .ack⟩ ∈ h

theorem Confirmed.append {h : History} {row : Row} (hc : h.Confirmed row) (h' : History) :
    Confirmed (h ++ h') row := by
  obtain ⟨settler, ha, hf⟩ := hc
  exact ⟨settler, List.mem_append_left _ ha, List.mem_append_left _ hf⟩

/-- Every publish that was taken is of a row that was committed before. -/
def InOrder (h : History) : Prop :=
  ∀ earlier m callback later, h = earlier ++ .accepted m callback :: later →
    ∃ row settler, .committed row ∈ earlier ∧ m = row.message ∧ callback = .settle settler row.id

theorem InOrder.append {h h' : History} (ho : h.InOrder)
    (hn : ∀ m callback, .accepted m callback ∉ h') : InOrder (h ++ h') := by
  intro earlier m callback later he
  rcases List.append_eq_append_iff.mp he with ⟨mid, -, rfl⟩ | ⟨mid, rfl, hmid⟩
  · exact absurd (List.mem_append_right _ List.mem_cons_self) (hn m callback)
  · cases mid with
    | nil =>
        have hm : .accepted m callback ∈ [] ++ h' := hmid ▸ List.mem_cons_self
        exact absurd hm (hn m callback)
    | cons e mid =>
        rw [List.cons_append] at hmid
        obtain ⟨rfl, -⟩ := List.cons.inj hmid
        exact ho earlier m callback mid rfl

theorem InOrder.accept {h : History} (ho : h.InOrder) {row : Row} (hr : .committed row ∈ h)
    (settler : Nat) : InOrder (h ++ [.accepted row.message (.settle settler row.id)]) := by
  intro earlier m callback later he
  rcases List.eq_nil_or_concat later with rfl | ⟨later, e, rfl⟩
  · obtain ⟨rfl, hl⟩ := List.append_inj' he rfl
    cases hl
    exact ⟨row, settler, hr, rfl, rfl⟩
  · rw [List.concat_eq_append, ← List.cons_append, ← List.append_assoc] at he
    exact ho earlier m callback later (List.append_inj' he rfl).1

end History

/-! ## Stores -/

/-- The row as it was when it was committed. -/
def Row.asPending (row : Row) : Row := { row with status := .pending }

namespace Store

theorem commit_eq_ok {s s' : Store} {staged : List Row} (h : s.commit staged = (.ok (), s')) :
    s' = { s with table := staged.foldl .insert s.table } := by
  unfold commit at h
  split at h
  · cases h
  · split at h
    · cases h
    · split at h
      · cases h
      · exact (Prod.mk.inj h).2.symm

theorem commit_eq_error {s s' : Store} {staged : List Row} {e : StoreError}
    (h : s.commit staged = (.error e, s')) : s'.table = s.table ∧ s'.nextId = s.nextId := by
  unfold commit at h
  split at h
  · cases h
    exact ⟨rfl, rfl⟩
  · split at h
    · cases h
      exact ⟨rfl, rfl⟩
    · split at h
      · cases h
        exact ⟨rfl, rfl⟩
      · cases h

/-- Settling a row may remove it or change its status, and leaves all other rows alone. -/
theorem settle_eq_ok {s s' : Store} {id : RowId} {policy : AckPolicy} {settled : Bool}
    (h : s.settle id policy = .ok (settled, s')) :
    s'.nextId = s.nextId ∧
      (∀ row, row.id ≠ id → (row ∈ s'.table.rows ↔ row ∈ s.table.rows)) ∧
      (∀ row ∈ s'.table.rows, ∃ r ∈ s.table.rows, r.asPending = row.asPending) := by
  cases policy with
  | delete =>
      unfold settle delete ensureAvailable at h
      cases ha : s.available with
      | false =>
          rw [ha] at h
          cases h
      | true =>
          rw [ha] at h
          cases h
          refine ⟨rfl, ?_, ?_⟩
          · intro row hne
            simp only [Table.mem_erase, hne, ne_eq, not_false_eq_true, and_true]
          · intro row hrow
            exact ⟨row, (Table.mem_erase.mp hrow).1, rfl⟩
  | markSent =>
      unfold settle markSent ensureAvailable at h
      cases ha : s.available with
      | false =>
          rw [ha] at h
          cases h
      | true =>
          rw [ha] at h
          by_cases hp : (s.table.get? id).any Row.isPending = true
          · rw [if_pos hp] at h
            cases h
            refine ⟨rfl, ?_, ?_⟩
            · intro row hne
              rw [Table.mem_setStatus]
              constructor
              · rintro ⟨r, hr, rfl⟩
                split at hne
                · rename_i hid
                  exact absurd hid hne
                · rename_i hid
                  rw [if_neg hid]
                  exact hr
              · exact fun hrow => ⟨row, hrow, if_neg hne⟩
            · intro row hrow
              obtain ⟨r, hr, rfl⟩ := Table.mem_setStatus.mp hrow
              refine ⟨r, hr, ?_⟩
              split <;> rfl
          · rw [if_neg hp] at h
            cases h
            exact ⟨rfl, fun _ _ => Iff.rfl, fun row hrow => ⟨row, hrow, rfl⟩⟩

end Store

/-! ## Books -/

/-- A confirm that a publish of a row waits for. -/
def HeldConfirm.ofRow (settler : Nat) (row : Row) : HeldConfirm ConfirmCallback :=
  ⟨some row.id, .settle settler row.id⟩

/-- What holds of a store whose ids begin with `first`, of the confirms that are outstanding, the
rows staged in open units, and the history. -/
structure Books (first : RowId) (s : Store) (outstanding : List (HeldConfirm ConfirmCallback))
    (staged : List Row) (h : History) : Prop where
  nextId : s.nextId = first + UInt64.ofNat h.allocations
  allocated : ∀ row ∈ staged ++ h.committed ++ h.discarded,
    ∃ k < h.allocations, row.id = first + UInt64.ofNat k
  distinct : ((staged ++ h.committed ++ h.discarded).map (·.id)).Nodup
  pending : ∀ row ∈ staged ++ h.committed, row.status = .pending
  stored : ∀ row ∈ s.table.rows, row.asPending ∈ h.committed
  /-- No row is lost. -/
  kept : ∀ row ∈ h.committed, row ∈ s.table.rows ∨ h.Confirmed row
  awaited : ∀ c ∈ outstanding, ∃ row settler, row ∈ h.committed ∧
    c = .ofRow settler row ∧ .accepted row.message (.settle settler row.id) ∈ h
  inOrder : h.InOrder
  /-- No callback is fired more often than publishes with it were taken. -/
  fired : ∀ callback, h.firings callback + outstanding.countP (·.callback == callback) ≤
    h.acceptances callback

namespace Books

variable {first : RowId} {s s' : Store} {outstanding : List (HeldConfirm ConfirmCallback)}
  {staged : List Row} {h : History}

theorem start (first : RowId) : Books first (.startingAt first) [] [] [] where
  nextId := (UInt64.add_zero _).symm
  allocated := nofun
  distinct := .nil
  pending := nofun
  stored := nofun
  kept := nofun
  awaited := nofun
  inOrder := by
    intro earlier m callback later he
    exact absurd he.symm (List.append_ne_nil_of_right_ne_nil _ (List.cons_ne_nil _ _))
  fired := fun _ => Nat.le_refl _

theorem of_table_eq (b : Books first s outstanding staged h) (ht : s'.table = s.table)
    (hn : s'.nextId = s.nextId) : Books first s' outstanding staged h :=
  { b with
    nextId := hn.trans b.nextId
    stored := ht ▸ b.stored
    kept := ht ▸ b.kept }

theorem perm (b : Books first s outstanding staged h)
    {outstanding' : List (HeldConfirm ConfirmCallback)} {staged' : List Row}
    (ho : outstanding'.Perm outstanding) (hs : staged'.Perm staged) :
    Books first s outstanding' staged' h :=
  { b with
    allocated := by
      intro row hrow
      refine b.allocated row ?_
      rwa [((hs.append_right _).append_right _).mem_iff] at hrow
    distinct := (((hs.append_right _).append_right _).map _).nodup_iff.mpr b.distinct
    pending := by
      intro row hrow
      refine b.pending row ?_
      rwa [(hs.append_right _).mem_iff] at hrow
    awaited := fun c hc => b.awaited c (ho.mem_iff.mp hc)
    fired := by
      intro callback
      rw [ho.countP_eq]
      exact b.fired callback }

theorem forget (b : Books first s outstanding staged h)
    {outstanding' : List (HeldConfirm ConfirmCallback)} (ho : outstanding'.Sublist outstanding) :
    Books first s outstanding' staged h :=
  { b with
    awaited := fun c hc => b.awaited c (ho.subset hc)
    fired := fun callback =>
      Nat.le_trans (Nat.add_le_add_left ho.countP_le _) (b.fired callback) }

theorem eq_of_id_eq (b : Books first s outstanding staged h) {r r' : Row}
    (hr : r ∈ staged ++ h.committed ++ h.discarded) (hr' : r' ∈ staged ++ h.committed ++ h.discarded)
    (hid : r.id = r'.id) : r = r' :=
  List.inj_on_of_nodup_map b.distinct hr hr' hid

/-! ## Ids -/

theorem ofNat_ne {k n : Nat} (hk : k < n) (hn : n < UInt64.size) (first : RowId) :
    first + UInt64.ofNat k ≠ first + UInt64.ofNat n := by
  intro h
  have := congrArg UInt64.toNat ((UInt64.add_right_inj first).mp h)
  simp only [UInt64.toNat_ofNat', UInt64.size] at this hn
  omega

theorem allocateId_eq_ok {id : RowId} (hid : s.allocateId = .ok (id, s')) :
    id = s.nextId ∧ s' = { s with nextId := s.nextId + 1 } := by
  unfold Store.allocateId Store.ensureAvailable at hid
  cases ha : s.available with
  | false =>
      rw [ha] at hid
      cases hid
  | true =>
      rw [ha] at hid
      cases hid
      exact ⟨rfl, rfl⟩

/-! ## What can happen -/

/-- Books stay in order when something happens that neither commits nor discards a row, if that is
accounted for in the rest of them. -/
theorem note (b : Books first s outstanding staged h) {e : OutboxEvent}
    {outstanding' : List (HeldConfirm ConfirmCallback)} (hc : History.committed [e] = [])
    (hd : History.discarded [e] = [])
    (nextId : s'.nextId = first + UInt64.ofNat (h.allocations + History.allocations [e]))
    (stored : ∀ row ∈ s'.table.rows, row.asPending ∈ h.committed)
    (kept : ∀ row ∈ h.committed, row ∈ s'.table.rows ∨ History.Confirmed (h ++ [e]) row)
    (awaited : ∀ c ∈ outstanding', ∃ row settler, row ∈ h.committed ∧
      c = .ofRow settler row ∧ .accepted row.message (.settle settler row.id) ∈ h ++ [e])
    (inOrder : History.InOrder (h ++ [e]))
    (fired : ∀ callback, History.firings (h ++ [e]) callback +
      outstanding'.countP (·.callback == callback) ≤ History.acceptances (h ++ [e]) callback) :
    Books first s' outstanding' staged (h ++ [e]) := by
  have hc' : History.committed (h ++ [e]) = h.committed := by
    rw [History.committed_append, hc, List.append_nil]
  have hd' : History.discarded (h ++ [e]) = h.discarded := by
    rw [History.discarded_append, hd, List.append_nil]
  refine ⟨?_, ?_, ?_, ?_, ?_, ?_, ?_, inOrder, fired⟩
  · rw [History.allocations_append]
    exact nextId
  · rw [hc', hd', History.allocations_append]
    intro row hrow
    obtain ⟨k, hk, hid⟩ := b.allocated row hrow
    exact ⟨k, Nat.lt_add_right _ hk, hid⟩
  · rw [hc', hd']
    exact b.distinct
  · rw [hc']
    exact b.pending
  · rw [hc']
    exact stored
  · rw [hc']
    exact kept
  · rw [hc']
    exact awaited

theorem awaited_append (b : Books first s outstanding staged h) (h' : History) :
    ∀ c ∈ outstanding, ∃ row settler, row ∈ h.committed ∧ c = .ofRow settler row ∧
      .accepted row.message (.settle settler row.id) ∈ h ++ h' := by
  intro c hm
  obtain ⟨row, settler, hr, he, ha⟩ := b.awaited c hm
  exact ⟨row, settler, hr, he, List.mem_append_left _ ha⟩

/-- An id is given out, perhaps for nothing. -/
theorem allocate (b : Books first s outstanding staged h) {id : RowId}
    (hid : s.allocateId = .ok (id, s')) :
    Books first s' outstanding staged (h ++ [.allocated id]) := by
  obtain ⟨rfl, rfl⟩ := allocateId_eq_ok hid
  refine b.note rfl rfl ?_ b.stored ?_ (b.awaited_append _) (b.inOrder.append (by simp)) ?_
  · show s.nextId + 1 = first + UInt64.ofNat (h.allocations + 1)
    rw [b.nextId, UInt64.ofNat_add, UInt64.add_assoc]
    rfl
  · exact fun row hrow => (b.kept row hrow).imp_right fun hk => hk.append _
  · intro callback
    simp only [History.firings_append, History.acceptances_append]
    exact b.fired callback

theorem stage (b : Books first s outstanding staged h) {row : Row}
    (hid : s.allocateId = .ok (row.id, s')) (hp : row.status = .pending)
    (few : h.allocations + 1 < UInt64.size) :
    Books first s' outstanding (row :: staged) (h ++ [.allocated row.id]) := by
  have b' := b.allocate hid
  obtain ⟨hnext, -⟩ := allocateId_eq_ok hid
  have hrow : row.id = first + UInt64.ofNat h.allocations := hnext.trans b.nextId
  have hcom : History.committed (h ++ [.allocated row.id]) = h.committed := by
    rw [History.committed_append]
    exact List.append_nil _
  have hdis : History.discarded (h ++ [.allocated row.id]) = h.discarded := by
    rw [History.discarded_append]
    exact List.append_nil _
  refine { b' with allocated := ?_, distinct := ?_, pending := ?_ }
  · intro r hr
    rcases List.mem_cons.mp hr with rfl | hr
    · refine ⟨h.allocations, ?_, hrow⟩
      rw [History.allocations_append]
      exact Nat.lt_succ_self _
    · exact b'.allocated r hr
  · refine List.nodup_cons.mpr ⟨?_, b'.distinct⟩
    rw [hcom, hdis]
    intro hm
    -- Every other id was given out earlier.
    obtain ⟨r, hr, hid⟩ := List.mem_map.mp hm
    obtain ⟨k, hk, hrk⟩ := b.allocated r hr
    exact ofNat_ne hk (by omega) first (hrk.symm.trans (hid.trans hrow))
  · intro r hr
    rcases List.mem_cons.mp hr with rfl | hr
    · exact hp
    · exact b'.pending r hr

theorem commit {unit : List Row} (b : Books first s outstanding (unit ++ staged) h)
    (hc : s.commit unit = (.ok (), s')) :
    Books first s' outstanding staged (h ++ unit.map .committed) := by
  obtain rfl := Store.commit_eq_ok hc
  obtain ⟨hcom, hdis, hall⟩ := History.committed_map unit
  have move : (staged ++ (h.committed ++ unit) ++ h.discarded).Perm
      (unit ++ staged ++ h.committed ++ h.discarded) := by
    refine List.Perm.append_right _ ?_
    rw [← List.append_assoc, List.append_assoc unit]
    exact List.perm_append_comm
  have hunit : (unit.map (·.id)).Nodup := by
    refine b.distinct.sublist (List.Sublist.map _ ?_)
    rw [List.append_assoc, List.append_assoc]
    exact List.sublist_append_left _ _
  refine ⟨?_, ?_, ?_, ?_, ?_, ?_, ?_, ?_, ?_⟩
  · rw [History.allocations_append, hall]
    exact b.nextId
  · rw [History.committed_append, History.discarded_append, History.allocations_append, hcom, hdis,
      hall, List.append_nil]
    exact fun row hrow => b.allocated row (move.mem_iff.mp hrow)
  · rw [History.committed_append, History.discarded_append, hcom, hdis, List.append_nil]
    exact (move.map _).nodup_iff.mpr b.distinct
  · rw [History.committed_append, hcom]
    intro row hrow
    refine b.pending row ?_
    simp only [List.mem_append] at hrow ⊢
    tauto
  · rw [History.committed_append, hcom]
    intro row hrow
    rcases (Table.mem_foldl_insert hunit).mp hrow with hm | ⟨hm, -⟩
    · have hp := b.pending row (List.mem_append_left _ (List.mem_append_left _ hm))
      have same : row.asPending = row := by rw [Row.asPending, ← hp]
      rw [same]
      exact List.mem_append_right _ hm
    · exact List.mem_append_left _ (b.stored row hm)
  · rw [History.committed_append, hcom]
    intro row hrow
    rcases List.mem_append.mp hrow with hr | hr
    · refine (b.kept row hr).imp (fun hm => ?_) fun hk => hk.append _
      refine (Table.mem_foldl_insert hunit).mpr (.inr ⟨hm, fun hid => ?_⟩)
      -- No row of the unit has the id of one that was committed before.
      have hd := b.distinct
      rw [List.append_assoc, List.append_assoc, List.map_append, List.nodup_append] at hd
      refine hd.2.2 row.id hid row.id (List.mem_map_of_mem ?_) rfl
      exact List.mem_append_right _ (List.mem_append_left _ hr)
    · exact .inl ((Table.mem_foldl_insert hunit).mpr (.inl hr))
  · rw [History.committed_append]
    intro c hm
    obtain ⟨row, settler, hr, he, ha⟩ := b.awaited_append _ c hm
    exact ⟨row, settler, List.mem_append_left _ hr, he, ha⟩
  · exact b.inOrder.append (by simp)
  · intro callback
    have hf : History.firings (unit.map .committed) callback = 0 := by simp [History.firings]
    rw [History.firings_append, History.acceptances_append, hf]
    exact Nat.le_add_right_of_le (b.fired callback)

theorem discard {unit : List Row} (b : Books first s outstanding (unit ++ staged) h) :
    Books first s outstanding staged (h ++ unit.map .discarded) := by
  obtain ⟨hcom, hdis, hall⟩ := History.discarded_map unit
  have move : (staged ++ h.committed ++ (h.discarded ++ unit)).Perm
      (unit ++ staged ++ h.committed ++ h.discarded) := by
    rw [← List.append_assoc, List.append_assoc unit, List.append_assoc unit]
    exact List.perm_append_comm
  refine ⟨?_, ?_, ?_, ?_, ?_, ?_, ?_, b.inOrder.append (by simp), ?_⟩
  · rw [History.allocations_append, hall]
    exact b.nextId
  · rw [History.committed_append, History.discarded_append, History.allocations_append, hcom, hdis,
      hall, List.append_nil]
    exact fun row hrow => b.allocated row (move.mem_iff.mp hrow)
  · rw [History.committed_append, History.discarded_append, hcom, hdis, List.append_nil]
    exact (move.map _).nodup_iff.mpr b.distinct
  · rw [History.committed_append, hcom, List.append_nil]
    intro row hrow
    refine b.pending row ?_
    rw [List.append_assoc]
    exact List.mem_append_right _ hrow
  · rw [History.committed_append, hcom, List.append_nil]
    exact b.stored
  · rw [History.committed_append, hcom, List.append_nil]
    exact fun row hrow => (b.kept row hrow).imp_right fun hk => hk.append _
  · rw [History.committed_append, hcom, List.append_nil]
    exact b.awaited_append _
  · intro callback
    have hf : History.firings (unit.map .discarded) callback = 0 := by simp [History.firings]
    rw [History.firings_append, History.acceptances_append, hf]
    exact Nat.le_add_right_of_le (b.fired callback)

theorem accept (b : Books first s outstanding staged h) {row : Row} (hr : row ∈ h.committed)
    (settler : Nat) :
    Books first s (.ofRow settler row :: outstanding) staged
      (h ++ [.accepted row.message (.settle settler row.id)]) := by
  refine b.note rfl rfl b.nextId b.stored ?_ ?_
    (b.inOrder.accept (History.mem_committed.mp hr) settler) ?_
  · exact fun r hm => (b.kept r hm).imp_right fun hk => hk.append _
  · intro c hm
    rcases List.mem_cons.mp hm with rfl | hm
    · exact ⟨row, settler, hr, rfl, List.mem_append_right _ List.mem_cons_self⟩
    · exact b.awaited_append _ c hm
  · intro callback
    have := b.fired callback
    obtain ⟨ha, hf⟩ := History.count_accepted row.message (.settle settler row.id) callback
    rw [History.firings_append, History.acceptances_append, ha, hf, List.countP_cons]
    simp only [HeldConfirm.ofRow, beq_iff_eq]
    omega

end Books

/-! ## Confirms -/

/-- Firing a row's callback settles the row if the confirm is an ack and there is a settler that can,
and otherwise leaves the store alone. -/
theorem Deployment.store_fire (d : Deployment ρ) (settler : Nat) (id : RowId) (ack : Bool) :
    (d.fire (.settle settler id) (.ofAck (some id) ack)).store = d.store ∨
      (ack = true ∧ ∃ policy settled, d.store.settle id policy =
        .ok (settled, (d.fire (.settle settler id) (.ofAck (some id) ack)).store)) := by
  simp only [fire, settleConfirm]
  cases d.settlers[settler]? with
  | none => exact .inl rfl
  | some s =>
      cases ack with
      | false =>
          simp only [Settler.handle, Confirm.ofAck, if_true]
          exact .inl rfl
      | true =>
          cases hs : d.store.settle id s.policy with
          | error e =>
              simp only [Settler.handle, Confirm.ofAck, if_true, hs]
              exact .inl trivial
          | ok r =>
              refine .inr ⟨rfl, s.policy, r.1, ?_⟩
              simp only [Settler.handle, Confirm.ofAck, if_true, hs]

theorem Books.fire {first : RowId} {d : Deployment ρ} {c : HeldConfirm ConfirmCallback}
    {rest : List (HeldConfirm ConfirmCallback)} {staged : List Row} {h : History}
    (b : Books first d.store (c :: rest) staged h) (ack : Bool) :
    Books first (d.fire c.callback (.ofAck c.correlation ack)).store rest staged
      (h ++ [.fired c.callback (.ofAck c.correlation ack)]) := by
  obtain ⟨row, settler, hr, rfl, ha⟩ := b.awaited c List.mem_cons_self
  have fired : ∀ callback,
      History.firings (h ++ [.fired (.settle settler row.id) (.ofAck (some row.id) ack)]) callback +
        rest.countP (·.callback == callback) ≤
      History.acceptances (h ++ [.fired (.settle settler row.id) (.ofAck (some row.id) ack)])
        callback := by
    intro callback
    have := b.fired callback
    obtain ⟨ha, hf⟩ := History.count_fired (.settle settler row.id) callback
      (.ofAck (some row.id) ack)
    rw [History.firings_append, History.acceptances_append, ha, hf]
    rw [List.countP_cons] at this
    simp only [HeldConfirm.ofRow, beq_iff_eq] at this
    omega
  have awaited := fun c hm => b.awaited_append
    [.fired (.settle settler row.id) (.ofAck (some row.id) ack)] c (List.mem_cons_of_mem _ hm)
  have inOrder : History.InOrder (h ++ [.fired (.settle settler row.id) (.ofAck (some row.id) ack)]) :=
    b.inOrder.append (by simp)
  show Books first (d.fire (.settle settler row.id) (.ofAck (some row.id) ack)).store rest staged
    (h ++ [.fired (.settle settler row.id) (.ofAck (some row.id) ack)])
  rcases d.store_fire settler row.id ack with hs | ⟨rfl, policy, settled, hs⟩
  · rw [hs]
    refine b.note rfl rfl b.nextId b.stored ?_ awaited inOrder fired
    exact fun r hm => (b.kept r hm).imp_right fun hk => hk.append _
  · obtain ⟨hnext, hothers, hrows⟩ := Store.settle_eq_ok hs
    refine b.note rfl rfl (hnext.trans b.nextId) ?_ ?_ awaited inOrder fired
    · intro r hm
      obtain ⟨r', hr', he⟩ := hrows r hm
      exact he ▸ b.stored r' hr'
    · intro r hm
      by_cases hid : r.id = row.id
      · have mem : ∀ {x}, x ∈ h.committed → x ∈ staged ++ h.committed ++ h.discarded :=
          fun hx => List.mem_append_left _ (List.mem_append_right _ hx)
        obtain rfl := b.eq_of_id_eq (mem hm) (mem hr) hid
        exact .inr ⟨settler, List.mem_append_left _ ha, List.mem_append_right _ List.mem_cons_self⟩
      · exact (b.kept r hm).imp (hothers r hid).mpr fun hk => hk.append _

end DurableMessaging
