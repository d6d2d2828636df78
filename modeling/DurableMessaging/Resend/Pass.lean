import DurableMessaging.Sender.Publisher

/-!
# Resend passes

A pass walks the pending rows page by page in the order of their ids and publishes each again. It
is a machine whose steps are single page queries and single rows, so that other clients may act
between any two of them; `run` takes the steps one after another, and ends because the cursor only
moves up.
-/

namespace DurableMessaging

structure PassReport where
  pages : Nat
  /-- Pending rows seen. -/
  found : Nat
  republished : Nat
  failed : Nat
  /-- Rows left alone because they were too young. -/
  skippedYoung : Nat
  /-- The pass ended early because the broker could not be reached. -/
  brokerUnavailable : Bool
  deriving DecidableEq, Repr

def PassReport.zero : PassReport := ⟨0, 0, 0, 0, 0, false⟩

/-- Who resends rows, and how. -/
structure Resender where
  /-- Gets the confirms of the rows resent. -/
  settler : Nat
  /-- Rows fetched at once. -/
  batchSize : Nat
  minAge : Duration
  deriving DecidableEq, Repr

namespace Resender

/-- A page has at least one row. -/
def withBatchSize (r : Resender) (n : Nat) : Resender := { r with batchSize := max n 1 }

def withMinAge (r : Resender) (age : Duration) : Resender := { r with minAge := age }

def withSettler (r : Resender) (settler : Nat) : Resender := { r with settler }

/-- A resender as settings say. It has a settler of its own, which treats rows as the one of a
sender with the same settings does. -/
def ofSettings {ρ : Type} (s : Settings) (d : Deployment ρ) : Resender × Deployment ρ :=
  let (settler, d) := d.addSettler s.sender.ackPolicy
  (withBatchSize ⟨settler, 1, s.resend.minAge⟩ s.resend.batchSize.toNat, d)

end Resender

inductive PassPhase where
  /-- The page after an id is to be fetched, or the first one. -/
  | query (after : Option RowId)
  /-- Rows of a page are still to be published; `last` is the id of its last row, and a short page
  is the last one. -/
  | walk (rows : List Row) (last : RowId) (short : Bool)
  deriving DecidableEq, Repr

structure Pass where
  report : PassReport
  phase : PassPhase
  deriving DecidableEq, Repr

/-- What a step leads to. -/
inductive PassStep where
  | next (pass : Pass)
  | ended (outcome : Reply StoreError PassReport)

namespace Pass

variable {ρ : Type}

def start : Pass := ⟨.zero, .query none⟩

/-- Fetches a page. -/
def query (r : Resender) (report : PassReport) (after : Option RowId) (s : Store) : PassStep :=
  match s.pending after r.batchSize with
  | .error e => .ended (.failed e)
  | .ok rows =>
    let report := { report with pages := report.pages + 1 }
    match rows.getLast? with
    | none => .ended (.returned report)
    | some last => .next ⟨report, .walk rows last.id (rows.length < r.batchSize)⟩

/-- Publishes a row, unless it is too young. -/
def visit (g : Gateway ρ) (r : Resender) (report : PassReport) (row : Row) (rest : PassPhase)
    (d : Deployment ρ) : PassStep × Deployment ρ :=
  let report := { report with found := report.found + 1 }
  if row.age d.now < r.minAge then
    (.next ⟨{ report with skippedYoung := report.skippedYoung + 1 }, rest⟩, d)
  else
    match g.publishRow r.settler row d with
    | (.returned (), d) => (.next ⟨{ report with republished := report.republished + 1 }, rest⟩, d)
    | (.crashed, d) => (.ended .crashed, d)
    | (.failed e, d) =>
      let report := { report with failed := report.failed + 1 }
      if e.isUnavailable then (.ended (.returned { report with brokerUnavailable := true }), d)
      else (.next ⟨report, rest⟩, d)

/-- One page query or one row. -/
def step (g : Gateway ρ) (r : Resender) (p : Pass) (d : Deployment ρ) : PassStep × Deployment ρ :=
  match p.phase with
  | .query after => (query r p.report after d.store, d)
  | .walk (row :: rows) last short => visit g r p.report row (.walk rows last short) d
  | .walk [] last short =>
    if short then (.ended (.returned p.report), d)
    else (.next ⟨p.report, .query (some last)⟩, d)

/-- What lies ahead of a cursor, and what is left of a page. -/
def measure (p : Pass) : Nat × Nat :=
  match p.phase with
  | .query none => (UInt64.size + 1, 0)
  | .query (some after) => (UInt64.size - after.toNat, 0)
  | .walk rows last _ => (UInt64.size - last.toNat, rows.length + 1)

theorem measure_query {r : Resender} {report : PassReport} {after : Option RowId} {s : Store}
    {p : Pass} (h : query r report after s = .next p) :
    p.measure.1 < (measure ⟨report, .query after⟩).1 := by
  unfold query at h
  split at h
  · simp at h
  · rename_i rows hrows
    split at h
    · simp at h
    · rename_i last hlast
      obtain rfl := PassStep.next.inj h
      have hmem : last ∈ rows := List.mem_of_getLast? hlast
      have hlast : last.id.toNat < UInt64.size := last.id.toNat_lt
      cases after with
      | none => simp only [measure]; omega
      | some after =>
        have lt := UInt64.lt_iff_toNat_lt.1 (Store.pending_after hrows last hmem)
        simp only [measure]
        omega

theorem phase_visit {g : Gateway ρ} {r : Resender} {report : PassReport} {row : Row}
    {rest : PassPhase} {d d' : Deployment ρ} {p : Pass}
    (h : visit g r report row rest d = (.next p, d')) : p.phase = rest := by
  unfold visit at h
  split at h
  · obtain ⟨h, -⟩ := Prod.mk.inj h
    rw [← PassStep.next.inj h]
  · split at h
    · obtain ⟨h, -⟩ := Prod.mk.inj h
      rw [← PassStep.next.inj h]
    · simp at h
    · split at h
      · simp at h
      · obtain ⟨h, -⟩ := Prod.mk.inj h
        rw [← PassStep.next.inj h]

theorem measure_step {g : Gateway ρ} {r : Resender} {p p' : Pass} {d d' : Deployment ρ}
    (h : step g r p d = (.next p', d')) :
    Prod.Lex (· < ·) (· < ·) p'.measure p.measure := by
  obtain ⟨report, phase⟩ := p
  unfold step at h
  split at h
  · rename_i after hphase
    obtain rfl : phase = .query after := hphase
    exact Prod.Lex.left _ _ (measure_query (Prod.mk.inj h).1)
  · rename_i row rows last short hphase
    obtain rfl : phase = .walk (row :: rows) last short := hphase
    simp only [measure, phase_visit h]
    exact Prod.Lex.right _ (by simp)
  · rename_i last short hphase
    obtain rfl : phase = .walk [] last short := hphase
    split at h
    · simp at h
    · obtain ⟨h, -⟩ := Prod.mk.inj h
      rw [← PassStep.next.inj h]
      exact Prod.Lex.right _ (by simp)

/-- Takes steps until the pass ends. -/
def run (g : Gateway ρ) (r : Resender) (p : Pass) (d : Deployment ρ) :
    Reply StoreError PassReport × Deployment ρ :=
  match _h : step g r p d with
  | (.ended outcome, d) => (outcome, d)
  | (.next p, d) => run g r p d
termination_by p.measure
decreasing_by exact measure_step _h

end Pass

/-- One pass over all pending rows. Only the store can make it fail; trouble with the broker is
reported. -/
def Resender.pass {ρ : Type} (r : Resender) (g : Gateway ρ) (d : Deployment ρ) :
    Reply StoreError PassReport × Deployment ρ :=
  Pass.start.run g r d

end DurableMessaging
