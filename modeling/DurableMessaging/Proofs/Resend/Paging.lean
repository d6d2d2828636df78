import DurableMessaging.Proofs.Resend.Survey

/-!
# Paging by ids

A page lies after everything visited, and the next cursor after the page. So a pass visits rows in
the order of their ids and no row twice, whatever happens to the table meanwhile; and a row that
stays pending is found as soon as the cursor is to go past it.
-/

namespace DurableMessaging

variable {ρ : Type}

/-- Whether a pass goes on after this reply to the publish of a row. -/
def Reply.letsPassGoOn : Reply BrokerError Unit → Bool
  | .returned _ => true
  | .failed e => !e.isUnavailable
  | .crashed => false

/-- The store is available, and the row that is due can be published or is refused. -/
def Survey.Served (g : Gateway ρ) (r : Resender) (s : Survey ρ) : Prop :=
  s.deployment.store.available = true ∧
    ∀ row ∈ s.state.rows.head?, ¬row.age s.deployment.now < r.minAge →
      (g.publishRow r.settler row s.deployment).1.letsPassGoOn = true

instance (g : Gateway ρ) (r : Resender) (s : Survey ρ) : Decidable (s.Served g r) :=
  inferInstanceAs (Decidable (_ ∧ _))

/-! ## What a turn can do -/

namespace Pass

/-- What a phase leads to where the store is available and the broker is reached. -/
inductive Leads (limit : Nat) (t : Table) : PassPhase → PassStep → Prop
  | page {after : Option RowId} {last : Row} (report : PassReport)
      (h : (t.pending after limit).getLast? = some last) :
      Leads limit t (.query after)
        (.next ⟨report, .walk (t.pending after limit) last.id ((t.pending after limit).length < limit)⟩)
  | nothing {after : Option RowId} (report : PassReport) (h : t.pending after limit = []) :
      Leads limit t (.query after) (.ended (.returned report))
  | row {row : Row} {rows : List Row} {last : RowId} {short : Bool} (report : PassReport) :
      Leads limit t (.walk (row :: rows) last short) (.next ⟨report, .walk rows last short⟩)
  | onward {last : RowId} (report : PassReport) :
      Leads limit t (.walk [] last false) (.next ⟨report, .query (some last)⟩)
  | short {last : RowId} (report : PassReport) :
      Leads limit t (.walk [] last true) (.ended (.returned report))

theorem visit_next {g : Gateway ρ} {r : Resender} {row : Row} {d : Deployment ρ}
    (h : ¬row.age d.now < r.minAge → (g.publishRow r.settler row d).1.letsPassGoOn = true)
    (report : PassReport) (rest : PassPhase) :
    ∃ report', (visit g r report row rest d).1 = .next ⟨report', rest⟩ := by
  unfold visit
  dsimp only
  split
  · exact ⟨_, rfl⟩
  · rename_i old
    have goesOn := h old
    rcases hp : g.publishRow r.settler row d with ⟨u | e | _, d'⟩
    · exact ⟨_, rfl⟩
    · simp only [hp, Reply.letsPassGoOn, Bool.not_eq_true'] at goesOn
      simp only [goesOn]
      exact ⟨_, rfl⟩
    · simp [hp, Reply.letsPassGoOn] at goesOn

theorem leads_step {g : Gateway ρ} {r : Resender} {p : Pass} {d : Deployment ρ}
    (available : d.store.available = true)
    (reached : ∀ row ∈ p.phase.rows.head?, ¬row.age d.now < r.minAge →
      (g.publishRow r.settler row d).1.letsPassGoOn = true) :
    Leads r.batchSize d.store.table p.phase (p.step g r d).1 := by
  obtain ⟨report, phase⟩ := p
  cases phase with
  | query after =>
      have found : d.store.pending after r.batchSize = .ok (d.store.table.pending after r.batchSize) := by
        simp only [Store.pending, Store.ensureAvailable, available]
        rfl
      dsimp only [step]
      unfold query
      rw [found]
      dsimp only
      split
      · rename_i h
        exact .nothing _ (List.getLast?_eq_none_iff.mp h)
      · rename_i last h
        exact .page _ h
  | walk rows last short =>
      cases rows with
      | nil =>
          cases short with
          | true => exact .short _
          | false => exact .onward _
      | cons row rows =>
          obtain ⟨report', h⟩ := visit_next (reached row rfl) report (.walk rows last short)
          dsimp only [step]
          rw [h]
          exact .row _

end Pass

namespace Survey

theorem turn_cases {g : Gateway ρ} {r : Resender} {s : Survey ρ} {p : Pass} (h : s.state = .next p)
    (served : s.Served g r) :
    Pass.Leads r.batchSize s.deployment.store.table p.phase (s.turn g r).state ∧
      (s.turn g r).visited = s.visited ++ p.phase.rows.head?.toList := by
  obtain ⟨available, reached⟩ := served
  rw [h] at reached
  have leads := Pass.leads_step available reached
  obtain ⟨calls, turned, -⟩ := turn_next (g := g) (r := r) h
  rw [turned]
  refine ⟨leads, ?_⟩
  dsimp only [visited]
  rw [List.map_append]
  cases p.phase.rows.head? <;> rfl

end Survey

/-! ## Pages -/

namespace Table

variable {t : Table} {after : Option RowId} {limit : Nat}

theorem pending_ascending (t : Table) (after : Option RowId) (limit : Nat) :
    (t.pending after limit).Pairwise fun a b => a.id < b.id :=
  (t.ascending.filter _).sublist (List.take_sublist _ _)

theorem pending_beyond {row : Row} (h : row ∈ t.pending after limit) :
    after.all (· < row.id) = true := by
  obtain ⟨-, hrow⟩ := List.mem_filter.mp (List.mem_of_mem_take h)
  exact (Bool.and_eq_true_iff.mp hrow).1

theorem pending_le_last {row last : Row} (h : row ∈ t.pending after limit)
    (hl : (t.pending after limit).getLast? = some last) : row.id ≤ last.id := by
  obtain ⟨init, hinit⟩ := List.getLast?_eq_some_iff.mp hl
  have ascending := t.pending_ascending after limit
  rw [hinit] at h ascending
  rcases List.mem_append.mp h with h | h
  · have := (List.pairwise_append.mp ascending).2.2 row h last List.mem_cons_self
    exact UInt64.le_of_lt this
  · cases List.mem_singleton.mp h
    exact UInt64.le_refl _

/-- A pending row after the cursor is in the page, or after a full page. -/
theorem pending_complete {row : Row} (hrow : row ∈ t.rows) (pending : row.isPending = true)
    (beyond : after.all (· < row.id) = true) (limit : Nat) :
    row ∈ t.pending after limit ∨
      (t.pending after limit).length = limit ∧ ∀ r ∈ t.pending after limit, r.id < row.id := by
  unfold Table.pending
  have ascending := t.ascending.filter fun r => after.all (· < r.id) && r.isPending
  have found : row ∈ t.rows.filter fun r => after.all (· < r.id) && r.isPending :=
    List.mem_filter.mpr ⟨hrow, by rw [beyond, pending]; rfl⟩
  generalize (t.rows.filter fun r => after.all (· < r.id) && r.isPending) = rows at ascending found ⊢
  rw [← List.take_append_drop limit rows] at ascending found
  rcases List.mem_append.mp found with h | h
  · exact .inl h
  · have long : limit ≤ rows.length := by
      have := List.length_pos_of_mem h
      rw [List.length_drop] at this
      omega
    refine .inr ⟨List.length_take_of_le long, fun r hr => ?_⟩
    exact (List.pairwise_append.mp ascending).2.2 r hr row h

end Table

/-! ## The order of visits -/

/-- The id that everything visited or fetched so far is at most. -/
def PassPhase.bound : PassPhase → Option RowId
  | .query after => after
  | .walk _ last _ => some last

/-- The rows visited and those about to be, in the order of their ids, none beyond the cursor. -/
structure PassStep.Ordered (visited : List Row) (state : PassStep) : Prop where
  ascending : ((visited ++ state.rows).map (·.id)).Pairwise (· < ·)
  bounded : ∀ p, state = .next p → ∀ row ∈ visited ++ p.phase.rows, ∃ last ∈ p.phase.bound, row.id ≤ last

/-- What is to be visited of a row that is pending. -/
def PassPhase.Reaches (row : Row) : PassPhase → Prop
  | .query after => after.all (· < row.id) = true
  | .walk rows last short => row ∈ rows ∨ (last < row.id ∧ short = false)

/-- Whether a pass has visited a row or is still to come to it. -/
def PassStep.Covers (row : Row) (visited : List Row) : PassStep → Prop
  | .next p => row ∈ visited ∨ p.phase.Reaches row
  | .ended _ => row ∈ visited

/-- A page of `k` rows takes `k + 2` turns. -/
def PassPhase.Pace (turns visits : Nat) : PassPhase → Prop
  | .query _ => turns ≤ 3 * visits
  | .walk [] _ _ => turns + 1 ≤ 3 * visits
  | .walk (_ :: _) _ _ => turns ≤ 3 * visits + 1

theorem PassPhase.Pace.le {turns visits : Nat} {phase : PassPhase} (h : phase.Pace turns visits) :
    turns ≤ 3 * visits + 1 := by
  unfold Pace at h
  split at h <;> omega

namespace Pass.Leads

variable {limit : Nat} {t : Table} {p : Pass} {state : PassStep} {visited : List Row}

theorem mem_rows {row : Row} (h : Leads limit t p.phase state)
    (hrow : row ∈ (visited ++ p.phase.rows.head?.toList) ++ state.rows) :
    row ∈ visited ∨ row ∈ p.phase.rows ∨ row ∈ t.rows := by
  obtain ⟨report, phase⟩ := p
  cases h with
  | @page after last report h =>
      simp only [PassPhase.rows, PassStep.rows, List.head?_nil, Option.toList_none, List.append_nil,
        List.mem_append] at hrow
      exact hrow.imp_right fun hp => .inr (Table.of_mem_pending hp).1
  | nothing | onward | short => exact .inl (by simpa [PassPhase.rows, PassStep.rows] using hrow)
  | row report =>
      simp only [PassPhase.rows, PassStep.rows, List.head?_cons, Option.toList_some, List.mem_append,
        List.mem_singleton, or_assoc] at hrow
      exact hrow.imp_right fun h => .inl (List.mem_cons.mpr h)

theorem ordered (h : Leads limit t p.phase state) (ordered : PassStep.Ordered visited (.next p)) :
    PassStep.Ordered (visited ++ p.phase.rows.head?.toList) state := by
  obtain ⟨report, phase⟩ := p
  obtain ⟨ascending, bounded⟩ := ordered
  replace bounded := bounded _ rfl
  cases h with
  | @page after last report h =>
      simp only [PassStep.rows, PassPhase.rows, List.append_nil, List.head?_nil,
        Option.toList_none] at ascending bounded ⊢
      have below : ∀ v ∈ visited, ∀ row ∈ t.pending after limit, v.id < row.id := by
        intro v hv row hrow
        obtain ⟨a, ha, hle⟩ := bounded v hv
        have beyond := Table.pending_beyond hrow
        rw [show after = some a from ha, Option.all_some, decide_eq_true_eq] at beyond
        exact UInt64.lt_of_le_of_lt hle beyond
      refine ⟨?_, ?_⟩
      · rw [PassStep.rows, PassPhase.rows, List.map_append, List.pairwise_append]
        refine ⟨ascending, List.pairwise_map.mpr (t.pending_ascending after limit), ?_⟩
        simpa using below
      · rintro _ ⟨⟩ row hrow
        refine ⟨last.id, rfl, ?_⟩
        rcases List.mem_append.mp hrow with hv | hp
        · exact UInt64.le_of_lt (below row hv last (List.mem_of_getLast? h))
        · exact Table.pending_le_last hp h
  | nothing report h =>
      refine ⟨by simpa [PassStep.rows, PassPhase.rows] using ascending, ?_⟩
      rintro _ ⟨⟩
  | row report =>
      refine ⟨by simpa [PassStep.rows, PassPhase.rows] using ascending, ?_⟩
      rintro _ ⟨⟩ row hrow
      exact bounded row (by simpa [PassPhase.rows] using hrow)
  | onward report =>
      refine ⟨by simpa [PassStep.rows, PassPhase.rows] using ascending, ?_⟩
      rintro _ ⟨⟩ row hrow
      exact bounded row (by simpa [PassPhase.rows] using hrow)
  | short report =>
      refine ⟨by simpa [PassStep.rows, PassPhase.rows] using ascending, ?_⟩
      rintro _ ⟨⟩

theorem covers {row : Row} (h : Leads limit t p.phase state) (positive : 1 ≤ limit)
    (pending : row.isPending = true) (present : row ∉ visited → row ∈ t.rows)
    (covered : PassStep.Covers row visited (.next p)) :
    PassStep.Covers row (visited ++ p.phase.rows.head?.toList) state := by
  obtain ⟨report, phase⟩ := p
  by_cases hv : row ∈ visited
  · cases h with
    | page | row | onward => exact .inl (List.mem_append_left _ hv)
    | nothing | short => exact List.mem_append_left _ hv
  have reaches := covered.resolve_left hv
  cases h with
  | @page after last report h =>
      -- A row that is not in the page lies after it, and then the page is full.
      refine .inr ?_
      rcases Table.pending_complete (present hv) pending reaches limit with hp | ⟨full, below⟩
      · exact .inl hp
      · exact .inr ⟨below last (List.mem_of_getLast? h), by simp [full]⟩
  | nothing report h =>
      rcases Table.pending_complete (present hv) pending reaches limit with hp | ⟨full, -⟩
      · rw [h] at hp
        cases hp
      · rw [h, List.length_nil] at full
        omega
  | @row first rows last short report =>
      rcases reaches with hr | hr
      · rcases List.mem_cons.mp hr with rfl | hr
        · exact .inl (List.mem_append_right _ List.mem_cons_self)
        · exact .inr (.inl hr)
      · exact .inr (.inr hr)
  | onward report =>
      refine .inr ?_
      rcases reaches with hr | ⟨hr, -⟩
      · cases hr
      · exact decide_eq_true hr
  | short report =>
      rcases reaches with hr | ⟨-, hs⟩
      · cases hr
      · cases hs

theorem pace {turns : Nat} (h : Leads limit t p.phase state) (pace : p.phase.Pace turns visited.length)
    {p' : Pass} (next : state = .next p') :
    p'.phase.Pace (turns + 1) (visited ++ p.phase.rows.head?.toList).length := by
  obtain ⟨report, phase⟩ := p
  cases h with
  | @page after last report h =>
      cases next
      simp only [PassPhase.rows, List.head?_nil, Option.toList_none, List.append_nil,
        PassPhase.Pace] at pace ⊢
      split
      · trivial
      · rename_i hphase
        obtain ⟨hrows, -⟩ := PassPhase.walk.inj hphase
        rw [hrows] at h
        cases h
      · rename_i hphase
        obtain ⟨-, rfl, -⟩ := PassPhase.walk.inj hphase
        omega
  | nothing => cases next
  | @row first rows last short report =>
      cases next
      simp only [PassPhase.rows, List.head?_cons, Option.toList_some, List.length_append,
        List.length_singleton, PassPhase.Pace] at pace ⊢
      cases rows <;> dsimp only [PassPhase.Pace] <;> omega
  | onward report =>
      cases next
      simp only [PassPhase.rows, List.head?_nil, Option.toList_none, List.append_nil,
        PassPhase.Pace] at pace ⊢
      exact pace
  | short => cases next

end Pass.Leads

end DurableMessaging
