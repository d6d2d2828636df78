import DurableMessaging.Resend.Pass

/-!
# The resend loop

Passes one after another, with totals over all of them. A pass that fails on the store or crashes is
counted as an error, and the loop goes on.
-/

namespace DurableMessaging

/-- Numbers over all passes, counted without bound like those of deliveries. -/
structure LoopStats where
  /-- Passes begun. -/
  ticks : Nat
  republished : Nat
  failed : Nat
  /-- Passes that ended early because the broker could not be reached. -/
  brokerUnavailable : Nat
  /-- Passes that failed on the store or crashed. -/
  errors : Nat
  deriving DecidableEq, Repr

namespace LoopStats

def zero : LoopStats := ⟨0, 0, 0, 0, 0⟩

/-- Adds the outcome of a pass. -/
def add (t : LoopStats) : Reply StoreError PassReport → LoopStats
  | .returned report =>
    { ticks := t.ticks + 1
      republished := t.republished + report.republished
      failed := t.failed + report.failed
      brokerUnavailable := t.brokerUnavailable + if report.brokerUnavailable then 1 else 0
      errors := t.errors }
  | _ => { t with ticks := t.ticks + 1, errors := t.errors + 1 }

end LoopStats

/-- One pass of the loop. -/
def Resender.tick {ρ : Type} (r : Resender) (g : Gateway ρ) (s : LoopStats × Deployment ρ) :
    LoopStats × Deployment ρ :=
  let (outcome, d) := r.pass g s.2
  (s.1.add outcome, d)

end DurableMessaging
