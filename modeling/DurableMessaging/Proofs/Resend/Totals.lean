import DurableMessaging.Proofs.Resend.Survey
import DurableMessaging.Proofs.Sender.Answer
import DurableMessaging.Resend.Loop

/-!
# The totals of a resend loop

A loop counts what its passes report. A pass that fails on the store or crashes reports nothing, so
the rows it has published by then are missing from the totals, and nothing else is.
-/

namespace DurableMessaging

variable {ρ : Type}

/-! ## Rows published and refused -/

namespace GatewaySighting

/-- A row was published. -/
def isAccepted (s : GatewaySighting) : Bool :=
  match s.call with
  | .publish _ _ (.returned ()) => true
  | _ => false

/-- A row could not be published: its topology or its message was refused. -/
def isRefused (s : GatewaySighting) : Bool :=
  match s.call with
  | .declare _ (.failed _) => true
  | .publish _ _ (.failed _) => true
  | _ => false

end GatewaySighting

/-- A report tells what became of the rows in a list of calls. -/
structure PassReport.Tallies (report : PassReport) (calls : List GatewaySighting) : Prop where
  republished : report.republished = calls.countP (·.isAccepted)
  failed : report.failed = calls.countP (·.isRefused)

/-- Publishing a row shows in the calls as it ends: as one row published, as one refused, or not at
all. -/
theorem Gateway.calls_publishRow (g : Gateway ρ) (settler : Nat) (row : Row)
    (d : Deployment (ρ × List GatewaySighting)) :
    let (reply, d') := g.watched.publishRow settler row d
    d'.rig.2.countP (·.isAccepted) =
        d.rig.2.countP (·.isAccepted) + (match reply with | .returned () => 1 | _ => 0) ∧
      d'.rig.2.countP (·.isRefused) =
        d.rig.2.countP (·.isRefused) + (match reply with | .failed _ => 1 | _ => 0) := by
  unfold publishRow
  rw [show d = d.bare.beside d.rig.2 from rfl, declare_watched]
  rcases g.declare row.topology d.bare with ⟨⟨⟩ | e | _, between⟩
  · simp only [publish_watched]
    rcases g.publish row.message (.settle settler row.id) between with ⟨⟨⟩ | e | _, after⟩ <;>
      simp [List.countP_append, GatewaySighting.isAccepted, GatewaySighting.isRefused]
  all_goals simp [List.countP_append, GatewaySighting.isAccepted, GatewaySighting.isRefused]

/-! ## Passes -/

/-- What a pass has counted, as long as it can tell. -/
def PassStep.Tallies (state : PassStep) (calls : List GatewaySighting) : Prop :=
  match state with
  | .next p => p.report.Tallies calls
  | .ended (.returned report) => report.Tallies calls
  | .ended _ => True

namespace Pass

theorem tallies_visit {report : PassReport} {row : Row} {rest : PassPhase}
    {d : Deployment (ρ × List GatewaySighting)} (h : report.Tallies d.rig.2) (g : Gateway ρ)
    (r : Resender) :
    (visit g.watched r report row rest d).1.Tallies
      (visit g.watched r report row rest d).2.rig.2 := by
  obtain ⟨republished, failed⟩ := h
  have counted := g.calls_publishRow r.settler row d
  unfold visit
  dsimp only
  split
  · exact ⟨republished, failed⟩
  · split <;> rename_i hp <;> rw [hp] at counted <;> obtain ⟨accepted, refused⟩ := counted
    · exact ⟨(congrArg (· + 1) republished).trans accepted.symm, failed.trans refused.symm⟩
    · trivial
    · split <;> exact ⟨republished.trans accepted.symm, (congrArg (· + 1) failed).trans refused.symm⟩

theorem tallies_step {p : Pass} {d : Deployment (ρ × List GatewaySighting)}
    (h : p.report.Tallies d.rig.2) (g : Gateway ρ) (r : Resender) :
    (p.step g.watched r d).1.Tallies (p.step g.watched r d).2.rig.2 := by
  obtain ⟨report, phase⟩ := p
  obtain ⟨republished, failed⟩ := h
  cases phase with
  | query after =>
      dsimp only [step, query]
      split
      · trivial
      · split <;> exact ⟨republished, failed⟩
  | walk rows last short =>
      cases rows with
      | cons row rows => exact tallies_visit ⟨republished, failed⟩ g r
      | nil =>
          dsimp only [step]
          split <;> exact ⟨republished, failed⟩

end Pass

/-! ## Loops -/

/-- A pass that has ended, and the calls it made. -/
structure PassRecord where
  outcome : Reply StoreError PassReport
  calls : List GatewaySighting

/-- The pass did not fail on the store, and it did not crash. -/
def PassRecord.isReported (p : PassRecord) : Bool :=
  match p.outcome with
  | .returned _ => true
  | _ => false

/-- A resend loop under way, with what it cannot see: the passes so far, and beside the deployment
the calls of the present one. -/
structure Rounds (ρ : Type) where
  stats : LoopStats
  pass : Pass
  deployment : Deployment (ρ × List GatewaySighting)
  passes : List PassRecord

inductive RoundsMove (ρ : Type) where
  /-- The loop queries a page or deals with a row. -/
  | turn
  /-- Others do something. -/
  | elsewhere (change : Deployment ρ → Deployment ρ)

namespace Rounds

def start (d : Deployment ρ) : Rounds ρ := ⟨.zero, .start, d.beside [], []⟩

def turn (g : Gateway ρ) (r : Resender) (s : Rounds ρ) : Rounds ρ :=
  match s.pass.step g.watched r s.deployment with
  | (.next pass, d) => { s with pass, deployment := d }
  | (.ended outcome, d) =>
    ⟨s.stats.add outcome, .start, d.bare.beside [], s.passes ++ [⟨outcome, d.rig.2⟩]⟩

def step (g : Gateway ρ) (r : Resender) (s : Rounds ρ) : RoundsMove ρ → Rounds ρ
  | .turn => s.turn g r
  | .elsewhere change =>
    { s with deployment := (change s.deployment.bare).beside s.deployment.rig.2 }

def run (g : Gateway ρ) (r : Resender) (d : Deployment ρ) (moves : List (RoundsMove ρ)) : Rounds ρ :=
  moves.foldl (step g r) (start d)

/-- The calls of the passes that ended. -/
def calls (passes : List PassRecord) : List GatewaySighting := passes.flatMap (·.calls)

theorem turns_run (g : Gateway ρ) (r : Resender) (s : Rounds ρ) :
    ∃ n, let (outcome, d) := s.pass.run g.watched r s.deployment
      (List.replicate n RoundsMove.turn).foldl (step g r) s =
        ⟨s.stats.add outcome, .start, d.bare.beside [], s.passes ++ [⟨outcome, d.rig.2⟩]⟩ := by
  obtain ⟨stats, p, d, passes⟩ := s
  dsimp only
  induction p, d using Pass.run.induct g.watched r with
  | case1 p d outcome d' h =>
      refine ⟨1, ?_⟩
      rw [Pass.run_ended h]
      dsimp only [List.replicate, List.foldl_cons, List.foldl_nil, step, turn]
      rw [h]
  | case2 p d p' d' h ih =>
      obtain ⟨n, hn⟩ := ih
      refine ⟨n + 1, ?_⟩
      rw [Pass.run_next h]
      refine Eq.trans ?_ hn
      dsimp only [List.replicate, List.foldl_cons, step, turn]
      rw [h]

/-- Turns alone lead from one pass to the next as the loop goes. -/
theorem turns_tick (g : Gateway ρ) (r : Resender) {s : Rounds ρ} (h : s.pass = .start) :
    ∃ n, let s' := (List.replicate n RoundsMove.turn).foldl (step g r) s
      let (stats, d) := r.tick g.watched (s.stats, s.deployment)
      s'.stats = stats ∧ s'.pass = .start ∧ s'.deployment.bare = d.bare ∧
        s'.passes.length = s.passes.length + 1 := by
  obtain ⟨n, hn⟩ := turns_run g r s
  rw [h] at hn
  refine ⟨n, ?_⟩
  dsimp only at hn ⊢
  rw [hn]
  exact ⟨rfl, rfl, rfl, List.length_append⟩

/-- The totals are those of the passes that reported, and the pass under way counts its own. -/
structure Sums (s : Rounds ρ) : Prop where
  ticks : s.stats.ticks = s.passes.length
  errors : s.stats.errors = s.passes.countP (!·.isReported)
  republished :
    s.stats.republished = (calls (s.passes.filter (·.isReported))).countP (·.isAccepted)
  failed : s.stats.failed = (calls (s.passes.filter (·.isReported))).countP (·.isRefused)
  underway : s.pass.report.Tallies s.deployment.rig.2

theorem sums_start (d : Deployment ρ) : (start d).Sums := ⟨rfl, rfl, rfl, rfl, ⟨rfl, rfl⟩⟩

theorem Sums.ended {s : Rounds ρ} (h : s.Sums) {outcome : Reply StoreError PassReport}
    {log : List GatewaySighting} (told : PassStep.Tallies (.ended outcome) log) (d : Deployment ρ) :
    (⟨s.stats.add outcome, .start, d.beside [], s.passes ++ [⟨outcome, log⟩]⟩ : Rounds ρ).Sums := by
  obtain ⟨ticks, errors, republished, failed, -⟩ := h
  cases outcome with
  | returned report =>
      obtain ⟨accepted, refused⟩ : report.Tallies log := told
      refine ⟨?_, ?_, ?_, ?_, ⟨rfl, rfl⟩⟩ <;>
        simp [LoopStats.add, calls, PassRecord.isReported, List.filter_append, List.countP_append,
          ticks, errors, republished, failed, accepted, refused]
  | failed | crashed =>
      refine ⟨?_, ?_, ?_, ?_, ⟨rfl, rfl⟩⟩ <;>
        simp [LoopStats.add, calls, PassRecord.isReported, List.filter_append, List.countP_append,
          ticks, errors, republished, failed]

theorem Sums.step {s : Rounds ρ} (h : s.Sums) (g : Gateway ρ) (r : Resender) (m : RoundsMove ρ) :
    (s.step g r m).Sums := by
  cases m with
  | elsewhere change => exact { h with }
  | turn =>
      have tallies := Pass.tallies_step h.underway g r
      dsimp only [Rounds.step, turn]
      split <;> rename_i hp <;> rw [hp] at tallies
      · exact { h with underway := tallies }
      · exact h.ended tallies _

theorem sums_run (g : Gateway ρ) (r : Resender) (d : Deployment ρ) (moves : List (RoundsMove ρ)) :
    (run g r d moves).Sums :=
  List.foldlRecOn moves (Rounds.step g r) (sums_start d) fun _ h m _ => h.step g r m

/-- Nothing is missing from a count of calls if what is left out has none of them. -/
theorem countP_reported_iff (passes : List PassRecord) (q : GatewaySighting → Bool) :
    (calls (passes.filter (·.isReported))).countP q = (calls passes).countP q ↔
      ∀ p ∈ passes, p.isReported = false → ∀ call ∈ p.calls, q call = false := by
  have split : (calls passes).countP q = (calls (passes.filter (·.isReported))).countP q +
      (calls (passes.filter (!·.isReported))).countP q := by
    have parted := List.filter_append_perm (·.isReported) passes
    rw [← List.countP_append]
    unfold calls
    rw [← List.flatMap_append]
    exact ((parted.flatMap_right _).countP_eq q).symm
  rw [split, Nat.left_eq_add, List.countP_eq_zero]
  simp only [calls, List.mem_flatMap, List.mem_filter, Bool.not_eq_true', Bool.not_eq_true]
  constructor
  · exact fun none p hp lost call hc => none call ⟨p, ⟨hp, lost⟩, hc⟩
  · rintro none call ⟨p, ⟨hp, lost⟩, hc⟩
    exact none p hp lost call hc

/-- Whatever the broker and the store do: a loop counts each pass, and as an error each pass that
failed on the store or crashed. It counts the rows that were published and refused in the other
passes, so its totals are true exactly if nothing was published or refused in a pass that was
lost. -/
theorem counts_reported_passes (g : Gateway ρ) (r : Resender) (d : Deployment ρ)
    (moves : List (RoundsMove ρ)) :
    let s := run g r d moves
    let lost := s.passes.filter (!·.isReported)
    s.stats.ticks = s.passes.length ∧ s.stats.errors = lost.length ∧
      s.stats.republished = (calls (s.passes.filter (·.isReported))).countP (·.isAccepted) ∧
      s.stats.failed = (calls (s.passes.filter (·.isReported))).countP (·.isRefused) ∧
      (s.stats.republished = (calls s.passes).countP (·.isAccepted) ↔
        ∀ p ∈ lost, ∀ call ∈ p.calls, call.isAccepted = false) ∧
      (s.stats.failed = (calls s.passes).countP (·.isRefused) ↔
        ∀ p ∈ lost, ∀ call ∈ p.calls, call.isRefused = false) := by
  intro s lost
  obtain ⟨ticks, errors, republished, failed, -⟩ := sums_run g r d moves
  have missing : ∀ q : GatewaySighting → Bool,
      (∀ p ∈ lost, ∀ call ∈ p.calls, q call = false) ↔
        ∀ p ∈ s.passes, p.isReported = false → ∀ call ∈ p.calls, q call = false := by
    intro q
    simp [lost]
  refine ⟨ticks, errors.trans List.countP_eq_length_filter, republished, failed, ?_, ?_⟩
  · rw [missing, ← countP_reported_iff, republished]
  · rw [missing, ← countP_reported_iff, failed]

/-- A row published before a crash is missing. -/
theorem row_published_before_crash_missing :
    let row (id : RowId) : Row :=
      ⟨id, "m", "1", 0, "orders", "order.placed", none, .topic, none, .pending⟩
    let d : Deployment Nat :=
      { Deployment.start 0 3 0 with store := ((Store.startingAt 3).commit [row 1, row 2]).2 }
    -- The second publish crashes.
    let g : Gateway Nat :=
      { Gateway.inMemory with
        publish := fun m callback d =>
          if d.rig = 1 then (.crashed, { d with rig := 2 })
          else Gateway.inMemory.publish m callback { d with rig := d.rig + 1 } }
    let s := run g ⟨0, 100, 0⟩ d [.turn, .turn, .turn]
    s.pass = .start ∧ s.stats = ⟨1, 0, 0, 0, 1⟩ ∧ (calls s.passes).countP (·.isAccepted) = 1 := by
  decide +kernel

end Rounds

end DurableMessaging
