import DurableMessaging.Consumer.Decision
import DurableMessaging.Settings

/-!
# The consumer engine

Decides about deliveries and settles each with exactly one call to its channel, counting what was
decided.
-/

namespace DurableMessaging

/-- Numbers of deliveries. They are counted without bound; no engine runs long enough to fill a word
of 64 bits. -/
structure ConsumerStats where
  accepted : Nat
  retried : Nat
  rejected : Nat
  /-- Accepted deliveries of messages that had been processed before. -/
  duplicates : Nat
  deriving DecidableEq, Repr

def ConsumerStats.zero : ConsumerStats := ⟨0, 0, 0, 0⟩

structure Engine where
  rule : DecisionRule
  /-- Workers of a consumer; as many as the machine has processors if none is given. -/
  concurrency : Option Nat
  prefetch : Nat
  stats : ConsumerStats
  deriving DecidableEq, Repr

namespace Engine

def ofSettings (s : ConsumerSettings) : Engine where
  rule := ⟨s.maxRetries, s.dedupTtl, s.retryTtl⟩
  concurrency := s.concurrency.map (·.toNat)
  prefetch := max s.prefetch.toNat 1
  stats := .zero

def standard : Engine := ofSettings .standard

def withMaxRetries (e : Engine) (n : UInt32) : Engine := { e with rule.maxRetries := n }

def withDedupTtl (e : Engine) (ttl : Duration) : Engine := { e with rule.dedupTtl := ttl }

def withRetryTtl (e : Engine) (ttl : Option Duration) : Engine := { e with rule.retryTtl := ttl }

/-- There is at least one worker. -/
def withConcurrency (e : Engine) (n : Nat) : Engine := { e with concurrency := some (max n 1) }

/-- A worker may hold at least one delivery. -/
def withPrefetch (e : Engine) (n : Nat) : Engine := { e with prefetch := max n 1 }

/-- Counts a duplicate, which is done as soon as it is found. -/
def countVerdict (e : Engine) (v : Verdict) : Engine :=
  if v = .duplicate then { e with stats.duplicates := e.stats.duplicates + 1 } else e

def countAction (e : Engine) : Action → Engine
  | .accept => { e with stats.accepted := e.stats.accepted + 1 }
  | .retry => { e with stats.retried := e.stats.retried + 1 }
  | .reject => { e with stats.rejected := e.stats.rejected + 1 }

/-- Decides about a delivery without settling it. -/
def decide {σ : Type} (e : Engine) (around : Surroundings σ) (d : Delivery) (s : σ) :
    Action × Engine × σ :=
  let (verdict, s) := (e.rule.decide d).run around s
  (verdict.action, e.countVerdict verdict, s)

/-- Settles deliveries in a state of any kind. -/
abbrev Channel (σ : Type) := DeliveryTag → Settlement → σ → Except BrokerError Unit × σ

/-- Decides about a delivery and settles it. A settlement that fails is let go. -/
def deliver {σ : Type} (e : Engine) (around : Surroundings σ) (channel : Channel σ)
    (d : Delivery) (s : σ) : Action × Engine × σ :=
  let (action, e, s) := e.decide around d s
  let (_, s) := channel d.tag action.settlement s
  (action, e.countAction action, s)

end Engine

end DurableMessaging
