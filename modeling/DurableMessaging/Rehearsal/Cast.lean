import DurableMessaging.Rehearsal.Stage
import DurableMessaging.Resend.Loop
import DurableMessaging.Trigger

/-!
# Named components

A stage whose components have names. Settlers, senders, resenders and engines that nobody set up
come with the standard settings on their first use.
-/

namespace DurableMessaging.Rehearsal

/-- The trigger endpoints and what was started through them. -/
structure TriggerPost where
  sender : Sender
  engine : Nat
  target : ConsumeTarget
  /-- The numbers of the running consumers. -/
  consumers : List Nat

structure Cast where
  stage : Stage
  units : Registry (UnitOfWork Stage.Deferred)
  settlers : Registry Nat
  senders : Registry Sender
  resenders : Registry Resender
  engines : Registry Nat
  consumers : Registry Nat
  trigger : Option TriggerPost
  /-- Workers of a consumer if nobody says how many. -/
  processors : Nat

namespace Cast

abbrev Act (α : Type) := StateM Cast α

def start (stage : Stage) : Cast :=
  ⟨stage, .empty, .empty, .empty, .empty, .empty, .empty, none, 1⟩

/-! ## The stage -/

def onStage {α : Type} (f : Stage → α × Stage) : Act α :=
  modifyGet fun c => let (a, stage) := f c.stage; (a, { c with stage })

def changeStage (f : Stage → Stage) : Act Unit := modify fun c => { c with stage := f c.stage }

def getStage : Act Stage := return (← get).stage

/-! ## Set-up -/

def newSettler (policy : AckPolicy) : Act Nat := onStage (·.addSettler policy)

def putSettler (name : String) (policy : AckPolicy) : Act Nat := do
  let i ← newSettler policy
  modify fun c => { c with settlers := c.settlers.insert name i }
  return i

def putEngine (name : String) (e : Engine) : Act Nat := do
  let i ← onStage (·.addEngine e)
  modify fun c => { c with engines := c.engines.insert name i }
  return i

def putSender (name : String) (s : Sender) : Act Sender := do
  modify fun c => { c with senders := c.senders.insert name s }
  return s

def putResender (name : String) (r : Resender) : Act Resender := do
  modify fun c => { c with resenders := c.resenders.insert name r }
  return r

def dropResender (name : String) : Act Unit :=
  modify fun c => { c with resenders := c.resenders.erase name }

def settler (name : String) : Act Nat := do
  match (← get).settlers.get? name with
  | some i => return i
  | none => putSettler name .delete

def sender (name : String) : Act Sender := do
  match (← get).senders.get? name with
  | some s => return s
  | none => putSender name (← onStage (Sender.ofSettings .standard))

def resender (name : String) : Act Resender := do
  match (← get).resenders.get? name with
  | some r => return r
  | none => putResender name (← onStage (Resender.ofSettings .standard))

def engine (name : String) : Act Nat := do
  match (← get).engines.get? name with
  | some i => return i
  | none => putEngine name .standard

/-- The settler to use in place of a component's own: the one that it shares, if any, or else a new
one if another policy is asked for. -/
def otherSettler (shared : Option String) (policy : Option AckPolicy) : Act (Option Nat) := do
  match shared, policy with
  | some name, _ => return some (← settler name)
  | none, some policy => return some (← newSettler policy)
  | none, none => return none

/-! ## Units of work -/

def putUnit (name : String) (u : UnitOfWork Stage.Deferred) : Act Unit :=
  modify fun c => { c with units := c.units.insert name u }

def dropUnit (name : String) : Act Unit :=
  modify fun c => { c with units := c.units.erase name }

/-! ## Consumers -/

/-- Keeps a consumer that has started. One that had its name ends. -/
def putConsumer (name : String) (started : RunningConsumer) : Act Unit := do
  match (← get).consumers.get? name with
  | some old => changeStage (Stage.stopConsumer old)
  | none => pure ()
  let i ← onStage (Stage.addConsumer started)
  modify fun c => { c with consumers := c.consumers.insert name i }

/-- Starts a consumer with an engine and a scripted handler. -/
def startConsumer (name : String) (engine : Nat) (target : ConsumeTarget)
    (concurrency : Option Nat) (lines : List HandlerLine) :
    Act (Reply BrokerError (List WorkerId)) := do
  match (← getStage).engines[engine]? with
  | none => return .returned []
  | some e =>
    let workers := concurrency.getD (e.concurrency.getD (← get).processors)
    let reply ← onStage (e.consume Stage.gateway target workers)
    if let .returned workers := reply then
      putConsumer name ⟨target.queue, workers, false, .engine engine (.of lines)⟩
    return reply

/-- Starts a consumer with a scripted callback. -/
def startCallback (name : String) (spec : ConsumerSpec) (lines : List CallbackLine) :
    Act (Reply BrokerError (List WorkerId)) := do
  let reply ← onStage (Stage.gateway.startConsumer spec)
  if let .returned workers := reply then
    putConsumer name ⟨spec.queue, workers, false, .callback (.of lines)⟩
  return reply

/-! ## Trigger endpoints -/

def stopTriggered (post : TriggerPost) : Act Unit :=
  changeStage fun d => post.consumers.foldl (fun d i => Stage.stopConsumer i d) d

/-- Sets up the endpoints. What was started through earlier ones ends. -/
def openTrigger (sender : Sender) (engine : Nat) (target : ConsumeTarget) : Act Unit := do
  if let some old := (← get).trigger then stopTriggered old
  modify fun c => { c with trigger := some ⟨sender, engine, target, []⟩ }

def closeTrigger (post : TriggerPost) : Act Unit := do
  stopTriggered post
  modify fun c => { c with trigger := some { post with consumers := [] } }

/-- Answers a request to an endpoint. -/
def serve (post : TriggerPost) : Trigger.Endpoint → Act Trigger.Response
  | .send => onStage fun d => Trigger.send post.sender Stage.gateway post.target d.draws d
  | .consume => do
    match (← getStage).engines[post.engine]? with
    | none => return .ofStatus 500
    | some e =>
      let reply ← onStage (Trigger.consume e Stage.gateway post.target (← get).processors)
      if let .returned workers := reply then
        let i ← onStage (Stage.addConsumer
          ⟨post.target.queue, workers, false, .engine post.engine (.of [])⟩)
        modify fun c => { c with trigger := some { post with consumers := post.consumers ++ [i] } }
      return Trigger.consumeResponse reply

end Cast

end DurableMessaging.Rehearsal
