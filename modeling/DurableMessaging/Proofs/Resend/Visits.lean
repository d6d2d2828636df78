import DurableMessaging.Proofs.Resend.Paging
import Mathlib.Data.List.Infix

/-!
# What a pass visits

Whatever other clients do meanwhile, a pass comes to its rows in the order of their ids, misses none
that stays pending, and ends unless new rows keep coming.
-/

namespace DurableMessaging

variable {ρ : Type}

namespace Survey

variable {g : Gateway ρ} {r : Resender} {d : Deployment ρ} {moves : List (SurveyMove ρ)}

/-- What holds at the start and is kept by other clients and by each turn of the pass, the turns so
far counted, holds after a run. -/
theorem run_induction {P : Nat → Survey ρ → Prop} (start : P 0 (start d))
    (aside : ∀ n s d', P n s → P n (s.moveTo d'))
    (turn : ∀ earlier, earlier <+: moves → ∀ n p, (run g r d earlier).state = .next p →
      P n (run g r d earlier) → P (n + 1) ((run g r d earlier).turn g r))
    (still : ∀ n s outcome, s.state = .ended outcome → P n s → P (n + 1) s) :
    P (moves.countP (·.isTurn)) (run g r d moves) := by
  induction moves using List.reverseRecOn with
  | nil => exact start
  | append_singleton moves m ih =>
      have before := ih fun earlier he => turn earlier (he.trans (List.prefix_append _ _))
      have here := turn moves (List.prefix_append _ _)
      rw [run_concat, List.countP_append]
      generalize run g r d moves = s at before here ⊢
      cases hm : m.isTurn with
      | true =>
          obtain rfl : m = .turn := by
            cases m with
            | turn => rfl
            | _ => cases hm
          have one : ([SurveyMove.turn] : List (SurveyMove ρ)).countP (·.isTurn) = 1 := rfl
          rw [one]
          cases hs : s.state with
          | next p => exact here _ p hs before
          | ended outcome =>
              dsimp only [step]
              rw [turn_of_ended hs]
              exact still _ s outcome hs before
      | false =>
          have none : [m].countP (·.isTurn) = 0 := by simp [hm]
          rw [none, Nat.add_zero]
          rcases step_cases g r s hm with h | ⟨d', h⟩
          · rw [h]
            exact before
          · rw [h]
            exact aside _ s d' before

/-! ## Ids that were seen -/

/-- Every id in the table was there when the pass began or has come since, and so has every id of a
row that the pass has come to or is about to. -/
structure Accounted (first : List RowId) (s : Survey ρ) : Prop where
  table : ∀ id ∈ s.deployment.store.table.ids, id ∈ first ++ s.entered
  rows : ∀ row ∈ s.visited ++ s.state.rows, row.id ∈ first ++ s.entered

namespace Accounted

variable {first : List RowId} {s : Survey ρ}

theorem entered_moveTo (s : Survey ρ) (d : Deployment ρ) {id : RowId} (h : id ∈ first ++ s.entered) :
    id ∈ first ++ (s.moveTo d).entered := by
  rw [moveTo, ← List.append_assoc]
  exact List.mem_append_left _ h

theorem ids_moveTo (h : s.Accounted first) (d : Deployment ρ) :
    ∀ id ∈ d.store.table.ids, id ∈ first ++ (s.moveTo d).entered := by
  intro id hid
  by_cases hold : id ∈ s.deployment.store.table.ids
  · exact entered_moveTo s d (h.table id hold)
  · have new := Table.mem_newcomers.mpr ⟨hid, hold⟩
    exact List.mem_append_right _ (List.mem_append_right _ new)

theorem moveTo (h : s.Accounted first) (d : Deployment ρ) : (s.moveTo d).Accounted first :=
  ⟨h.ids_moveTo d, fun row hrow => entered_moveTo s d (h.rows row hrow)⟩

theorem turn (h : s.Accounted first) {p : Pass} (hp : s.state = .next p) (served : s.Served g r) :
    (s.turn g r).Accounted first := by
  obtain ⟨leads, visited⟩ := turn_cases hp served
  obtain ⟨calls, turned, -⟩ := turn_next (g := g) (r := r) hp
  have entered : (s.turn g r).entered = (s.moveTo (s.turn g r).deployment).entered := by
    rw [turned]
    rfl
  refine ⟨fun id hid => ?_, fun row hrow => ?_⟩
  · rw [entered]
    exact h.ids_moveTo _ id hid
  · rw [entered]
    apply entered_moveTo
    rcases leads.mem_rows (visited ▸ hrow) with hv | hp' | ht
    · exact h.rows row (List.mem_append_left _ hv)
    · exact h.rows row (List.mem_append_right _ (by rw [hp]; exact hp'))
    · exact h.table _ (List.mem_map_of_mem ht)

end Accounted

/-! ## Runs -/

section Runs

variable (served : ∀ earlier, earlier <+: moves → (run g r d earlier).Served g r)

include served

theorem ordered_run : PassStep.Ordered (run g r d moves).visited (run g r d moves).state := by
  refine run_induction (P := fun _ s => PassStep.Ordered s.visited s.state) ?_ ?_ ?_ ?_
  · refine ⟨.nil, ?_⟩
    rintro _ ⟨⟩ row hrow
    cases hrow
  · exact fun _ _ _ h => h
  · intro earlier he _ p hp h
    obtain ⟨leads, visited⟩ := turn_cases hp (served earlier he)
    rw [visited]
    exact leads.ordered (hp ▸ h)
  · exact fun _ _ _ _ h => h

theorem accounted_run : (run g r d moves).Accounted d.store.table.ids := by
  refine run_induction (P := fun _ s => s.Accounted d.store.table.ids) ?_ ?_ ?_ ?_
  · exact ⟨fun id hid => List.mem_append_left _ hid, nofun⟩
  · exact fun _ _ d' h => h.moveTo d'
  · exact fun earlier he _ p hp h => h.turn hp (served earlier he)
  · exact fun _ _ _ _ h => h

theorem pace_run : ∀ p, (run g r d moves).state = .next p →
    p.phase.Pace (moves.countP (·.isTurn)) (run g r d moves).visited.length := by
  refine run_induction (P := fun n s => ∀ p, s.state = .next p → p.phase.Pace n s.visited.length)
    ?_ ?_ ?_ ?_
  · rintro _ ⟨⟩
    exact Nat.le_refl _
  · exact fun _ _ _ h => h
  · intro earlier he _ p hp h p' hp'
    obtain ⟨leads, visited⟩ := turn_cases hp (served earlier he)
    rw [visited]
    exact leads.pace (h p hp) hp'
  · intro _ _ outcome he _ p hp
    cases he.symm.trans hp

theorem covers_run (positive : 1 ≤ r.batchSize) {row : Row} (pending : row.isPending = true)
    (present : ∀ earlier, earlier <+: moves → (run g r d earlier).ended = false →
      row ∉ (run g r d earlier).visited → row ∈ (run g r d earlier).deployment.store.table.rows) :
    PassStep.Covers row (run g r d moves).visited (run g r d moves).state := by
  refine run_induction (P := fun _ s => PassStep.Covers row s.visited s.state) ?_ ?_ ?_ ?_
  · exact .inr rfl
  · exact fun _ _ _ h => h
  · intro earlier he _ p hp h
    have underway : (run g r d earlier).ended = false := by
      unfold ended
      rw [hp]
    obtain ⟨leads, visited⟩ := turn_cases hp (served earlier he)
    rw [visited]
    exact leads.covers positive pending (present earlier he underway) (hp ▸ h)
  · exact fun _ _ _ _ h => h

end Runs

/-- What the pass has asked of its gateway is what it asked at its visits. -/
structure Told (r : Resender) (s : Survey ρ) : Prop where
  calls : s.calls = s.visits.flatMap (·.calls)
  proper : ∀ v ∈ s.visits, v.Proper r

theorem Told.turn {s : Survey ρ} (h : s.Told r) {p : Pass} (hp : s.state = .next p) :
    (s.turn g r).Told r := by
  obtain ⟨calls, turned, asked⟩ := turn_next (g := g) (r := r) hp
  rw [turned]
  cases hrow : p.phase.rows.head? with
  | none =>
      rw [hrow] at asked
      subst asked
      exact ⟨by simpa using h.calls, by simpa using h.proper⟩
  | some row =>
      rw [hrow] at asked
      refine ⟨?_, List.forall_mem_append.mpr ⟨h.proper, List.forall_mem_singleton.mpr asked⟩⟩
      dsimp only [Option.map_some, Option.toList_some]
      rw [List.flatMap_append, List.flatMap_singleton, h.calls]

theorem told_run : (run g r d moves).Told r := by
  refine run_induction (P := fun _ s => s.Told r) ?_ ?_ ?_ ?_
  · exact ⟨rfl, nofun⟩
  · exact fun _ _ _ h => ⟨h.calls, h.proper⟩
  · exact fun _ _ _ _ hp h => h.turn hp
  · exact fun _ _ _ _ h => h

theorem filter_id_eq {visited : List Row} (ascending : (visited.map (·.id)).Pairwise (· < ·)) {row : Row}
    (h : row ∈ visited) : visited.filter (·.id == row.id) = [row] := by
  obtain ⟨before, after, rfl⟩ := List.append_of_mem h
  rw [List.pairwise_map, List.pairwise_append, List.pairwise_cons] at ascending
  obtain ⟨-, ⟨above, -⟩, below⟩ := ascending
  have none_before : before.filter (·.id == row.id) = [] := by
    rw [List.filter_eq_nil_iff]
    intro r hr
    simpa using UInt64.ne_of_lt (below r hr row List.mem_cons_self)
  have none_after : after.filter (·.id == row.id) = [] := by
    rw [List.filter_eq_nil_iff]
    intro r hr
    simpa using (UInt64.ne_of_lt (above r hr)).symm
  simp [none_before, none_after]

/-- The ids visited differ from each other, and all of them are accounted for. -/
theorem ended_of_many
    (served : ∀ earlier, earlier <+: moves → (run g r d earlier).Served g r)
    (ascending : ((run g r d moves).visited.map (·.id)).Pairwise (· < ·))
    (many : 3 * (d.store.table.size + (run g r d moves).entered.length) + 1 <
      moves.countP (·.isTurn)) : (run g r d moves).ended = true := by
  cases hs : (run g r d moves).state with
  | ended outcome =>
      unfold ended
      rw [hs]
  | next p =>
      have pace := (pace_run served p hs).le
      have known : (run g r d moves).visited.map (·.id) ⊆
          d.store.table.ids ++ (run g r d moves).entered := by
        intro id hid
        obtain ⟨row, hrow, rfl⟩ := List.mem_map.mp hid
        exact (accounted_run served).rows row (List.mem_append_left _ hrow)
      have nodup : ((run g r d moves).visited.map (·.id)).Nodup := ascending.imp UInt64.ne_of_lt
      have few := (nodup.subperm known).length_le
      rw [List.length_map, List.length_append, Table.ids, List.length_map] at few
      have visits : (run g r d moves).visited.length = (run g r d moves).visits.length :=
        List.length_map ..
      unfold Table.size at many
      omega

/-- However a pass and the operations of other clients take turns: the pass comes to its rows in the
order of their ids. What it asks of its gateway is to publish each of them as it comes to it, unless
the row is too young, so no row is published twice. A row that is pending until the pass comes to it
or ends has been visited exactly once by then. And the pass has ended after a number of turns that
the rows in the table and those that came in bound; others bring in no more than they commit. -/
theorem visits_in_order (g : Gateway ρ) (r : Resender) (positive : 1 ≤ r.batchSize) (d : Deployment ρ)
    (moves : List (SurveyMove ρ))
    (served : ∀ earlier, earlier <+: moves → (run g r d earlier).Served g r) :
    let s := run g r d moves
    let turns := moves.countP (·.isTurn)
    (s.visited.map (·.id)).Pairwise (· < ·) ∧
      s.calls = s.visits.flatMap (·.calls) ∧ (∀ v ∈ s.visits, v.Proper r) ∧
      (s.calls.filterMap (·.published?)).Pairwise (· < ·) ∧
      (∀ row : Row, row.isPending = true →
        (∀ earlier, earlier <+: moves → (run g r d earlier).ended = false →
          row ∉ (run g r d earlier).visited →
            row ∈ (run g r d earlier).deployment.store.table.rows) →
        s.ended = true → s.visited.filter (·.id == row.id) = [row]) ∧
      (3 * (d.store.table.size + s.entered.length) + 1 < turns → s.ended = true) ∧
      (g.Thrifty → 3 * (d.store.table.size + (moves.flatMap (·.rows)).length) + 1 < turns →
        s.ended = true) := by
  intro s turns
  have ascending : (s.visited.map (·.id)).Pairwise (· < ·) := by
    have ordered := (ordered_run served).ascending
    rw [List.map_append] at ordered
    exact (List.pairwise_append.mp ordered).1
  have told : s.Told r := told_run
  have published : (s.calls.filterMap (·.published?)).Pairwise (· < ·) := by
    rw [visited, List.map_map] at ascending
    rw [told.calls]
    exact ascending.sublist (Visit.published_sublist told.proper)
  have ends : 3 * (d.store.table.size + s.entered.length) + 1 < turns → s.ended = true :=
    ended_of_many served ascending
  refine ⟨ascending, told.calls, told.proper, published, fun row pending present ended => ?_, ends,
    fun thrifty many => ends ?_⟩
  · have covers := covers_run served positive pending present
    cases hs : s.state with
    | next p =>
        unfold Survey.ended at ended
        rw [hs] at ended
        cases ended
    | ended outcome =>
        rw [show (run g r d moves).state = _ from hs] at covers
        exact filter_id_eq ascending covers
  · have few : s.entered.length ≤ (moves.flatMap (·.rows)).length := entered_run thrifty r d moves
    omega

/-- A row that is deleted after its page was fetched is published all the same, and one that comes in
below the cursor is left to the next pass. -/
theorem visits_last_row_once :
    let row (id : RowId) : Row :=
      ⟨id, "m", "1", 0, "orders", "order.placed", none, .topic, none, .pending⟩
    let d : Deployment Unit :=
      { ((Deployment.start 0 7 ()).addSettler .delete).2 with
        store := ((Store.startingAt 7).commit [row 1, row 2, row 4, row 6]).2 }
    let r : Resender := ⟨0, 2, 0⟩
    let moves : List (SurveyMove Unit) :=
      [.turn, .settle 2 .delete, .turn, .commit [row 0, row 3], .turn, .turn, .turn, .turn,
        .settle 1 .markSent, .turn, .turn, .turn, .turn, .turn]
    let s := run .inMemory r d moves
    (∀ earlier, earlier <+: moves → (run .inMemory r d earlier).Served .inMemory r) ∧
      s.visited = [row 1, row 2, row 3, row 4, row 6] ∧
      s.calls.filterMap (·.published?) = [1, 2, 3, 4, 6] ∧
      s.visited.filter (·.id == 6) = [row 6] ∧ s.deployment.store.table.rows = [row 0] := by
  intro row d r moves s
  have served : ∀ earlier, earlier <+: moves → (run .inMemory r d earlier).Served .inMemory r := by
    have all : ∀ earlier ∈ moves.inits, (run .inMemory r d earlier).Served .inMemory r := by
      decide +kernel
    exact fun earlier he => all earlier ((List.mem_inits _ _).mpr he)
  have present : ∀ earlier, earlier <+: moves → (run .inMemory r d earlier).ended = false →
      row 6 ∉ (run .inMemory r d earlier).visited →
        row 6 ∈ (run .inMemory r d earlier).deployment.store.table.rows := by
    have all : ∀ earlier ∈ moves.inits, (run .inMemory r d earlier).ended = false →
        row 6 ∉ (run .inMemory r d earlier).visited →
          row 6 ∈ (run .inMemory r d earlier).deployment.store.table.rows := by
      decide +kernel
    exact fun earlier he => all earlier ((List.mem_inits _ _).mpr he)
  obtain ⟨-, -, -, -, once, -⟩ := visits_in_order .inMemory r (by decide) d moves served
  exact ⟨served, by decide +kernel, by decide +kernel, once (row 6) rfl present (by decide +kernel),
    by decide +kernel⟩

end Survey

end DurableMessaging
