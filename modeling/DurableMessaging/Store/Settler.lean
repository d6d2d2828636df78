import DurableMessaging.Broker.Message
import DurableMessaging.Store.Basic

/-!
# Settling rows by confirms

A settler applies the confirms of row publishes to the store. Only an ack that carries the id of
the row that was published settles it; every confirm is counted in exactly one place.
-/

namespace DurableMessaging

/-- Numbers of confirms, counted without bound like those of deliveries. -/
structure ConfirmStats where
  /-- Acks that settled their row, or found it settled. -/
  acks : Nat
  /-- Nacks; the row stays pending. -/
  nacks : Nat
  /-- Confirms without a correlation, or with that of another row. -/
  anomalies : Nat
  /-- Acks whose settlement the store refused; the row stays pending. -/
  settleFailures : Nat
  deriving DecidableEq, Repr

def ConfirmStats.zero : ConfirmStats := ⟨0, 0, 0, 0⟩

structure Settler where
  policy : AckPolicy
  stats : ConfirmStats
  deriving DecidableEq, Repr

namespace Settler

def new (policy : AckPolicy) : Settler := ⟨policy, .zero⟩

def countAck (s : Settler) : Settler := { s with stats.acks := s.stats.acks + 1 }

def countNack (s : Settler) : Settler := { s with stats.nacks := s.stats.nacks + 1 }

def countAnomaly (s : Settler) : Settler := { s with stats.anomalies := s.stats.anomalies + 1 }

def countFailure (s : Settler) : Settler :=
  { s with stats.settleFailures := s.stats.settleFailures + 1 }

/-- Applies one confirm for a publish of row `expected`. -/
def handle (s : Settler) (store : Store) (expected : RowId) (confirm : Confirm) :
    Settler × Store :=
  if confirm.correlation = some expected then
    match confirm.outcome with
    | .nack _ => (s.countNack, store)
    | .ack =>
      match store.settle expected s.policy with
      | .ok (_, store) => (s.countAck, store)
      | .error _ => (s.countFailure, store)
  else (s.countAnomaly, store)

end Settler

end DurableMessaging
