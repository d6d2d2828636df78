import DurableMessaging.Deployment

/-!
# Scheduled faults

A schedule says which coming call misbehaves, and how. Each fault happens once.
-/

namespace DurableMessaging.Rehearsal

/-- A fault in a call of one kind, after `skip` calls of that kind have gone well. -/
structure Fault (κ α : Type) where
  call : κ
  act : α
  skip : Nat
  deriving DecidableEq, Repr

/-- What happens at a call, and the schedule afterwards. Only the first fault for the kind of call
counts. -/
def nextFault {κ α : Type} [DecidableEq κ] (call : κ) :
    List (Fault κ α) → Option α × List (Fault κ α)
  | [] => (none, [])
  | f :: faults =>
    if f.call = call then
      match f.skip with
      | 0 => (some f.act, faults)
      | skip + 1 => (none, { f with skip } :: faults)
    else
      let (act, rest) := nextFault call faults
      (act, f :: rest)

inductive CacheCallKind where
  | exists
  | get
  | set
  | setIfAbsent
  | increment
  | delete
  deriving DecidableEq, Repr

def CacheCallKind.of : CacheCall → CacheCallKind
  | .exists _ => .exists
  | .get _ => .get
  | .set .. => .set
  | .setIfAbsent .. => .setIfAbsent
  | .increment _ => .increment
  | .delete _ => .delete

inductive CacheFault where
  | unavailable
  | notAnInteger
  | codec
  | crash
  /-- The key is set to a text before the call. -/
  | preset (value : String)
  deriving DecidableEq, Repr

inductive GatewayCallKind where
  | declare
  | publish
  | startConsumer
  deriving DecidableEq, Repr

inductive GatewayFault where
  | error (e : BrokerError)
  | crash
  /-- The message is published, and its confirm arrives with another correlation. -/
  | confirmFor (correlation : Option RowId)
  /-- The message is published, and its confirm never arrives. -/
  | confirmLost
  deriving DecidableEq, Repr

/-- What an injected error says. -/
def injected : String := "injected"

/-- The faults still to come. -/
structure Schedule where
  cache : List (Fault CacheCallKind CacheFault)
  gateway : List (Fault GatewayCallKind GatewayFault)
  deriving DecidableEq, Repr

namespace Schedule

def empty : Schedule := ⟨[], []⟩

def addCache (s : Schedule) (f : Fault CacheCallKind CacheFault) : Schedule :=
  { s with cache := s.cache ++ [f] }

def addGateway (s : Schedule) (f : Fault GatewayCallKind GatewayFault) : Schedule :=
  { s with gateway := s.gateway ++ [f] }

end Schedule

end DurableMessaging.Rehearsal
