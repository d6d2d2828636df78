import DurableMessaging.Deployment

/-!
# Workers

A worker takes one delivery at a time and hands it to a callback. If the callback crashes, what the
worker holds goes back to its queue, and so it does when the worker ends.
-/

namespace DurableMessaging

/-- Called with each delivery of a consumer. -/
abbrev DeliveryCallback (ρ : Type) := Delivery → Deployment ρ → Completion × Deployment ρ

namespace Deployment

variable {ρ : Type}

/-- One delivery to a worker, if there is one for it. -/
def turn? (callback : DeliveryCallback ρ) (worker : WorkerId) (d : Deployment ρ) :
    Option (Deployment ρ) :=
  match d.broker.take? worker with
  | none => none
  | some (delivery, broker) =>
    match callback delivery { d with broker } with
    | (.completed, d) => some d
    | (.crashed, d) => some { d with broker := d.broker.recover worker }

/-- Ends workers, each giving back what it holds. -/
def endWorkers (workers : List WorkerId) (d : Deployment ρ) : Deployment ρ :=
  { d with broker := workers.foldl .endWorker d.broker }

/-- Lets an engine decide about a delivery and settle it. -/
def deliver (engine : Nat) (around : Surroundings (Deployment ρ)) : DeliveryCallback ρ :=
  fun delivery d =>
    match d.engines[engine]? with
    | none => (.completed, d)
    | some e =>
      let channel : Engine.Channel (Deployment ρ) := fun tag s d => d.settle delivery.queue tag s
      let (_, e, d) := e.deliver around channel delivery d
      (.completed, { d with engines := d.engines.set engine e })

end Deployment

/-- Declares a target and starts workers on its queue. -/
def Engine.consume {ρ : Type} (e : Engine) (g : Gateway ρ) (target : ConsumeTarget)
    (concurrency : Nat) (d : Deployment ρ) : Reply BrokerError (List WorkerId) × Deployment ρ :=
  match g.declare target.topology d with
  | (.returned (), d) => g.startConsumer ⟨target.queue, concurrency, e.prefetch⟩ d
  | (.failed error, d) => (.failed error, d)
  | (.crashed, d) => (.crashed, d)

end DurableMessaging
