import DurableMessaging.Proofs.Sender.Answer
import DurableMessaging.Proofs.Sender.Numbering
import Mathlib.Data.List.Induction
import Mathlib.Data.List.Perm.Subperm

/-!
# A pass among other clients

A survey is a resend pass under way. Between any two of its turns, each a page query or a row, other
clients may commit rows, delete them, mark them as sent, and do anything to the rest of the
deployment. What the pass asks of its gateway is watched from beside.
-/

namespace DurableMessaging

variable {ρ : Type}

namespace Table

/-- The ids in a table that were not in another one. -/
def newcomers (t t' : Table) : List RowId := t'.ids.filter fun id => !t.contains id

theorem mem_newcomers {t t' : Table} {id : RowId} :
    id ∈ t.newcomers t' ↔ id ∈ t'.ids ∧ id ∉ t.ids := by
  simp [newcomers, ← contains_iff]

theorem nodup_newcomers (t t' : Table) : (t.newcomers t').Nodup :=
  t'.nodup_ids.filter _

theorem newcomers_eq_nil {t t' : Table} (h : t'.ids ⊆ t.ids) : t.newcomers t' = [] := by
  rw [List.eq_nil_iff_forall_not_mem]
  exact fun id hid => (mem_newcomers.mp hid).2 (h (mem_newcomers.mp hid).1)

end Table

namespace Pass

theorem run_next {g : Gateway ρ} {r : Resender} {p p' : Pass} {d d' : Deployment ρ}
    (h : p.step g r d = (.next p', d')) : p.run g r d = p'.run g r d' := by
  rw [run]
  split
  all_goals simp_all

theorem run_ended {g : Gateway ρ} {r : Resender} {p : Pass} {d d' : Deployment ρ}
    {outcome : Reply StoreError PassReport} (h : p.step g r d = (.ended outcome, d')) :
    p.run g r d = (outcome, d') := by
  rw [run]
  split
  all_goals simp_all

end Pass

/-! ## Visits -/

/-- A row that a pass came to, when it did, and what it asked of its gateway there. -/
structure Visit where
  row : Row
  now : Instant
  calls : List GatewaySighting

/-- The id of a row that was to be published, whether that went well or not. -/
def GatewaySighting.published? (s : GatewaySighting) : Option RowId :=
  match s.call with
  | .publish m _ _ => m.correlation
  | _ => none

/-- A row is published at a visit, with one call for its topology and one for its message, unless it
is too young. -/
def Visit.Proper (r : Resender) (v : Visit) : Prop :=
  if v.row.age v.now < r.minAge then v.calls = []
  else ∃ table, Announcement.Seen ⟨r.settler, v.row⟩ table v.calls

namespace Visit

variable {r : Resender} {v : Visit}

theorem Proper.published (h : v.Proper r) :
    (v.calls.filterMap (·.published?)).Sublist [v.row.id] := by
  unfold Proper at h
  split at h
  · rw [h]
    exact List.nil_sublist _
  · obtain ⟨table, seen⟩ := h
    generalize v.calls = calls at seen
    cases seen with
    | undeclared => exact List.nil_sublist _
    | published => exact List.Sublist.refl _

theorem published_sublist {visits : List Visit} (h : ∀ v ∈ visits, v.Proper r) :
    ((visits.flatMap (·.calls)).filterMap (·.published?)).Sublist (visits.map (·.row.id)) := by
  induction visits with
  | nil => exact .slnil
  | cons v visits ih =>
      obtain ⟨first, others⟩ := List.forall_mem_cons.mp h
      rw [List.flatMap_cons, List.filterMap_append]
      exact first.published.append (ih others)

end Visit

namespace Pass

theorem visit_watched (g : Gateway ρ) (r : Resender) (report : PassReport) (row : Row)
    (rest : PassPhase) (d : Deployment ρ) (log : List GatewaySighting) :
    ∃ calls, visit g.watched r report row rest (d.beside log) =
        ((visit g r report row rest d).1, (visit g r report row rest d).2.beside (log ++ calls)) ∧
      Visit.Proper r ⟨row, d.now, calls⟩ := by
  unfold visit
  by_cases young : row.age d.now < r.minAge
  · have nothing : Visit.Proper r ⟨row, d.now, []⟩ := by rw [Visit.Proper, if_pos young]
    have young' : row.age (d.beside log).now < r.minAge := young
    refine ⟨[], ?_, nothing⟩
    rw [if_pos young, if_pos young', List.append_nil]
  · obtain ⟨calls, published, seen⟩ := g.publishRow_watched ⟨r.settler, row⟩ d log
    have proper : Visit.Proper r ⟨row, d.now, calls⟩ := by
      rw [Visit.Proper, if_neg young]
      exact ⟨_, seen⟩
    have old : ¬row.age (d.beside log).now < r.minAge := young
    refine ⟨calls, ?_, proper⟩
    dsimp only at published ⊢
    rw [if_neg young, if_neg old, published]
    rcases g.publishRow r.settler row d with ⟨⟨⟩ | e | _, d'⟩
    · rfl
    · dsimp only
      cases e.isUnavailable <;> rfl
    · rfl

/-- A pass that is watched does the same, and its gateway is asked something only about the row that
it comes to. -/
theorem step_watched (g : Gateway ρ) (r : Resender) (p : Pass) (d : Deployment ρ)
    (log : List GatewaySighting) :
    ∃ calls, p.step g.watched r (d.beside log) =
        ((p.step g r d).1, (p.step g r d).2.beside (log ++ calls)) ∧
      match p.phase.rows.head? with
      | none => calls = []
      | some row => Visit.Proper r ⟨row, d.now, calls⟩ := by
  obtain ⟨report, phase⟩ := p
  cases phase with
  | query after => exact ⟨[], by rw [List.append_nil]; rfl, rfl⟩
  | walk rows last short =>
      cases rows with
      | nil =>
          refine ⟨[], ?_, rfl⟩
          rw [List.append_nil]
          cases short <;> rfl
      | cons row rows => exact visit_watched g r report row _ d log

end Pass

/-! ## Surveys -/

structure Survey (ρ : Type) where
  deployment : Deployment ρ
  /-- What the pass has come to. -/
  state : PassStep
  /-- The oldest first. -/
  visits : List Visit
  /-- What the pass has asked of its gateway, the oldest first. -/
  calls : List GatewaySighting
  /-- The ids of rows that came into the table since the pass began. -/
  entered : List RowId

inductive SurveyMove (ρ : Type) where
  /-- The pass queries a page or deals with a row. -/
  | turn
  | commit (rows : List Row)
  /-- Deletes a row or marks it as sent. -/
  | settle (id : RowId) (policy : AckPolicy)
  /-- Something is done that has nothing to do with the store. -/
  | elsewhere (change : Deployment ρ → Deployment ρ)

def SurveyMove.isTurn : SurveyMove ρ → Bool
  | .turn => true
  | _ => false

/-- The rows that a move is to commit. -/
def SurveyMove.rows : SurveyMove ρ → List Row
  | .commit rows => rows
  | _ => []

namespace Survey

def start (d : Deployment ρ) : Survey ρ := ⟨d, .next .start, [], [], []⟩

def ended (s : Survey ρ) : Bool :=
  match s.state with
  | .next _ => false
  | .ended _ => true

/-- The rows that the pass has come to. -/
def visited (s : Survey ρ) : List Row := s.visits.map (·.row)

def moveTo (s : Survey ρ) (d : Deployment ρ) : Survey ρ :=
  { s with
    deployment := d
    entered := s.entered ++ s.deployment.store.table.newcomers d.store.table }

def turn (g : Gateway ρ) (r : Resender) (s : Survey ρ) : Survey ρ :=
  match s.state with
  | .ended _ => s
  | .next p =>
    let (state, d) := p.step g.watched r (s.deployment.beside s.calls)
    { s.moveTo d.bare with
      state
      visits := s.visits ++
        (p.phase.rows.head?.map
          (⟨·, s.deployment.now, d.rig.2.drop s.calls.length⟩)).toList
      calls := d.rig.2 }

def step (g : Gateway ρ) (r : Resender) (s : Survey ρ) : SurveyMove ρ → Survey ρ
  | .turn => s.turn g r
  | .commit rows => s.moveTo { s.deployment with store := (s.deployment.store.commit rows).2 }
  | .settle id policy =>
    match s.deployment.store.settle id policy with
    | .error _ => s
    | .ok (_, store) => s.moveTo { s.deployment with store }
  | .elsewhere change => s.moveTo { change s.deployment with store := s.deployment.store }

def run (g : Gateway ρ) (r : Resender) (d : Deployment ρ) (moves : List (SurveyMove ρ)) : Survey ρ :=
  moves.foldl (step g r) (start d)

theorem run_concat (g : Gateway ρ) (r : Resender) (d : Deployment ρ) (moves : List (SurveyMove ρ))
    (m : SurveyMove ρ) : run g r d (moves ++ [m]) = (run g r d moves).step g r m :=
  List.foldl_append

theorem step_cases (g : Gateway ρ) (r : Resender) (s : Survey ρ) {m : SurveyMove ρ}
    (h : m.isTurn = false) : s.step g r m = s ∨ ∃ d, s.step g r m = s.moveTo d := by
  cases m with
  | turn => simp [SurveyMove.isTurn] at h
  | commit rows => exact .inr ⟨_, rfl⟩
  | settle id policy =>
      dsimp only [step]
      split
      · exact .inl rfl
      · exact .inr ⟨_, rfl⟩
  | elsewhere change => exact .inr ⟨_, rfl⟩

/-- What a turn does that is one of a pass under way. -/
theorem turn_next {g : Gateway ρ} {r : Resender} {s : Survey ρ} {p : Pass} (h : s.state = .next p) :
    ∃ calls,
      s.turn g r =
        { s.moveTo (p.step g r s.deployment).2 with
          state := (p.step g r s.deployment).1
          visits := s.visits ++ (p.phase.rows.head?.map (⟨·, s.deployment.now, calls⟩)).toList
          calls := s.calls ++ calls } ∧
      match p.phase.rows.head? with
      | none => calls = []
      | some row => Visit.Proper r ⟨row, s.deployment.now, calls⟩ := by
  obtain ⟨calls, watched, proper⟩ := p.step_watched g r s.deployment s.calls
  refine ⟨calls, ?_, proper⟩
  unfold turn
  rw [h]
  dsimp only
  rw [watched, Deployment.rig_beside, List.drop_left]
  rfl

theorem turn_of_ended {g : Gateway ρ} {r : Resender} {s : Survey ρ}
    {outcome : Reply StoreError PassReport} (h : s.state = .ended outcome) : s.turn g r = s := by
  unfold turn
  rw [h]

/-! ## Rows that come in -/

/-- A move brings in no more rows than it is to commit, if the gateway brings in none. -/
theorem entered_step {g : Gateway ρ} (thrifty : g.Thrifty) (r : Resender) (s : Survey ρ)
    (m : SurveyMove ρ) :
    (s.step g r m).entered.length ≤ s.entered.length + m.rows.length := by
  have none : ∀ d : Deployment ρ, d.store.table.ids ⊆ s.deployment.store.table.ids →
      (s.moveTo d).entered.length ≤ s.entered.length := by
    intro d fewer
    have same : (s.moveTo d).entered = s.entered := by
      unfold moveTo
      rw [Table.newcomers_eq_nil fewer, List.append_nil]
    exact Nat.le_of_eq (congrArg List.length same)
  cases m with
  | turn =>
      dsimp only [step]
      cases hs : s.state with
      | ended outcome => exact Nat.le_of_eq (congrArg (·.entered.length) (turn_of_ended hs))
      | next p =>
          obtain ⟨calls, turned, -⟩ := turn_next (g := g) (r := r) hs
          rw [turned]
          exact none _ (thrifty.pass p r s.deployment).ids
  | commit rows =>
      dsimp only [step, moveTo]
      rw [List.length_append]
      refine Nat.add_le_add_left ?_ _
      have own : s.deployment.store.table.newcomers
          (s.deployment.store.commit rows).2.table ⊆ rows.map (·.id) := by
        intro id hid
        obtain ⟨after, before⟩ := Table.mem_newcomers.mp hid
        unfold Store.commit at after
        split at after
        · exact absurd after before
        · split at after
          · exact absurd after before
          · split at after
            · exact absurd after before
            · exact (Table.mem_ids_foldl_insert after).resolve_right before
      have few := ((Table.nodup_newcomers _ _).subperm own).length_le
      rwa [List.length_map] at few
  | settle id policy =>
      dsimp only [step]
      split
      · exact Nat.le_refl _
      · rename_i settled
        exact none _ (Store.Thins.settle settled).ids
  | elsewhere change => exact none _ (List.Subset.refl _)

theorem entered_run {g : Gateway ρ} (thrifty : g.Thrifty) (r : Resender) (d : Deployment ρ)
    (moves : List (SurveyMove ρ)) :
    (run g r d moves).entered.length ≤ (moves.flatMap (·.rows)).length := by
  induction moves using List.reverseRecOn with
  | nil => exact Nat.le_refl _
  | append_singleton moves m ih =>
      rw [run_concat, List.flatMap_append, List.length_append, List.flatMap_singleton]
      exact Nat.le_trans (entered_step thrifty r _ m) (Nat.add_le_add_right ih _)

/-! ## A pass that is left alone -/

theorem turns_run (g : Gateway ρ) (r : Resender) (p : Pass) (d : Deployment ρ) {s : Survey ρ}
    (hp : s.state = .next p) (hd : s.deployment = d) :
    ∃ n, let s' := (List.replicate n SurveyMove.turn).foldl (step g r) s
      s'.state = .ended (p.run g r d).1 ∧ s'.deployment = (p.run g r d).2 := by
  induction p, d using Pass.run.induct g r generalizing s with
  | case1 p d outcome d' h =>
      obtain ⟨calls, turned, -⟩ := turn_next (g := g) (r := r) hp
      rw [hd, h] at turned
      rw [Pass.run_ended h]
      exact ⟨1, congrArg (·.state) turned, congrArg (·.deployment) turned⟩
  | case2 p d p' d' h ih =>
      obtain ⟨calls, turned, -⟩ := turn_next (g := g) (r := r) hp
      rw [hd, h] at turned
      obtain ⟨n, hn⟩ := ih (congrArg (·.state) turned) (congrArg (·.deployment) turned)
      rw [Pass.run_next h]
      exact ⟨n + 1, hn⟩

/-- Turns alone lead to what the pass as a whole does. -/
theorem turns_pass (g : Gateway ρ) (r : Resender) (d : Deployment ρ) :
    ∃ n, let s := run g r d (List.replicate n .turn)
      s.state = .ended (r.pass g d).1 ∧ s.deployment = (r.pass g d).2 :=
  turns_run g r .start d rfl rfl

end Survey

end DurableMessaging
