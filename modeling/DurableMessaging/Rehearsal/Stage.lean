import DurableMessaging.Rehearsal.Fault
import DurableMessaging.Rehearsal.Script
import DurableMessaging.Sender.Basic

/-!
# The rehearsal stage

A deployment with scheduled faults, running consumers that play scripts, and notes of what deferred
actions found. Cache and broker are reached through the faults.
-/

namespace DurableMessaging.Rehearsal

/-- What a running consumer does with its deliveries. -/
inductive Behaviour where
  /-- An engine decides, with a scripted handler. -/
  | engine (engine : Nat) (handler : ScriptedHandler)
  | callback (callback : ScriptedCallback)

structure RunningConsumer where
  queue : String
  workers : List WorkerId
  stopped : Bool
  behaviour : Behaviour

/-- Forgets what a consumer has kept of its deliveries. -/
def RunningConsumer.cleared (c : RunningConsumer) : RunningConsumer :=
  match c.behaviour with
  | .engine engine handler => { c with behaviour := .engine engine { handler with seen := [] } }
  | .callback callback => { c with behaviour := .callback { callback with records := [] } }

/-- What a deferred action noted: a text, or an answer of the store, which is none if it failed. -/
inductive Note where
  | text (s : String)
  | answer (a : Option Bool)
  deriving DecidableEq, Repr

structure Rig where
  schedule : Schedule
  /-- Every consumer started so far, in order. -/
  consumers : List RunningConsumer
  /-- The oldest first. -/
  notes : List Note

def Rig.empty : Rig := ⟨.empty, [], []⟩

abbrev Stage := Deployment Rig

namespace Stage

/-- A stage whose rows are numbered from `first` on. -/
def opened (now : Instant) (first : RowId) : Stage := Deployment.start now first Rig.empty

def mapRig (d : Stage) (f : Rig → Rig) : Stage := { d with rig := f d.rig }

def mapSchedule (d : Stage) (f : Schedule → Schedule) : Stage :=
  d.mapRig fun r => { r with schedule := f r.schedule }

def addNote (d : Stage) (note : Note) : Stage :=
  d.mapRig fun r => { r with notes := r.notes ++ [note] }

/-! ## The cache with faults -/

/-- One call to the cache itself. -/
def passCache (call : CacheCall) (d : Stage) : Reply CacheError call.Answer × Stage :=
  let (answer, d) := Deployment.callCache call d
  (.ofExcept answer, d)

/-- One call to the cache, unless a fault is due. -/
def askCache (call : CacheCall) (d : Stage) : Reply CacheError call.Answer × Stage :=
  let (fault, cache) := nextFault (.of call) d.rig.schedule.cache
  let d := d.mapSchedule fun s => { s with cache }
  match fault with
  | none => passCache call d
  | some .unavailable => (.failed (.unavailable injected), d)
  | some .notAnInteger => (.failed (.notAnInteger call.key), d)
  | some .codec => (.failed (.codec injected), d)
  | some .crash => (.crashed, d)
  | some (.preset value) => passCache call (passCache (.set call.key value none) d).2

/-! ## The gateway with faults -/

/-- What happens at a call to the gateway. -/
def takeFault (call : GatewayCallKind) (d : Stage) : Option GatewayFault × Stage :=
  let (fault, gateway) := nextFault call d.rig.schedule.gateway
  (fault, d.mapSchedule fun s => { s with gateway })

/-- A call that a fault can make fail, but not alter. -/
def guardCall {α : Type} (call : GatewayCallKind) (pass : Stage → Reply BrokerError α × Stage)
    (d : Stage) : Reply BrokerError α × Stage :=
  match takeFault call d with
  | (some (.error e), d) => (.failed e, d)
  | (some .crash, d) => (.crashed, d)
  | (_, d) => pass d

/-- The gateway to the deployment's broker, with faults. -/
def gateway : Gateway Rig where
  declare t := guardCall .declare (Gateway.inMemory.declare t)
  startConsumer spec := guardCall .startConsumer (Gateway.inMemory.startConsumer spec)
  publish m callback d :=
    match takeFault .publish d with
    | (none, d) => Gateway.inMemory.publish m callback d
    | (some (.error e), d) => (.failed e, d)
    | (some .crash, d) => (.crashed, d)
    | (some (.confirmFor correlation), d) =>
      Gateway.inMemory.publish m (.relabel correlation callback) d
    | (some .confirmLost, d) => Gateway.inMemory.publish m .ignore d

/-! ## Consumers -/

/-- The calls of a decision on the stage, with a scripted handler beside it. -/
def surroundings : Surroundings (Stage × ScriptedHandler) where
  cache call s :=
    let (reply, d) := askCache call s.1
    (reply, d, s.2)
  handler payload s :=
    let (reply, h) := s.2.play payload
    (reply, s.1, h)

/-- Adds a running consumer, and gives its number. -/
def addConsumer (c : RunningConsumer) (d : Stage) : Nat × Stage :=
  (d.rig.consumers.length, d.mapRig fun r => { r with consumers := r.consumers ++ [c] })

def setConsumer (i : Nat) (c : RunningConsumer) (d : Stage) : Stage :=
  d.mapRig fun r => { r with consumers := r.consumers.set i c }

/-- Ends the workers of a consumer. -/
def stopConsumer (i : Nat) (d : Stage) : Stage :=
  match d.rig.consumers[i]? with
  | none => d
  | some c => setConsumer i { c with stopped := true } (d.endWorkers c.workers)

/-- What a running consumer does with one delivery. -/
def consumerCallback (i : Nat) (c : RunningConsumer) : DeliveryCallback Rig :=
  fun delivery d =>
    match c.behaviour with
    | .callback callback =>
      let (completion, callback, d) := callback.play delivery d
      (completion, setConsumer i { c with behaviour := .callback callback } d)
    | .engine engine handler =>
      match d.engines[engine]? with
      | none => (.completed, d)
      | some e =>
        let channel : Engine.Channel (Stage × ScriptedHandler) := fun tag s (d, h) =>
          let (answer, d) := d.settle delivery.queue tag s
          (answer, d, h)
        let (_, e, d, handler) := e.deliver surroundings channel delivery (d, handler)
        (.completed,
          setConsumer i { c with behaviour := .engine engine handler }
            { d with engines := d.engines.set engine e })

/-- One delivery to some worker of a consumer. -/
def consumerTurn? (i : Nat) (c : RunningConsumer) (d : Stage) : Option Stage :=
  c.workers.firstM fun w => d.turn? (consumerCallback i c) w

/-- One delivery to some running consumer, if there is one for any. -/
def turn? (d : Stage) : Option Stage :=
  d.rig.consumers.zipIdx.firstM fun (c, i) =>
    if c.stopped then none else consumerTurn? i c d

/-! ## Trying deliveries -/

/-- The calls made to a channel, the oldest first. -/
abbrev ChannelCalls := List (Settlement × DeliveryTag)

/-- A channel that keeps the calls made to it beside the state, and may refuse them all. -/
def recordingChannel {σ : Type} (refuses : Bool) : Engine.Channel (ChannelCalls × σ) :=
  fun tag s (calls, rest) =>
    (if refuses then .error (.unknownDeliveryTag tag) else .ok (), calls ++ [(s, tag)], rest)

/-- The surroundings of the stage, with the calls to a channel kept beside it. -/
def recordingSurroundings : Surroundings (ChannelCalls × Stage × ScriptedHandler) where
  cache call s :=
    let (reply, rest) := surroundings.cache call s.2
    (reply, s.1, rest)
  handler payload s :=
    let (reply, rest) := surroundings.handler payload s.2
    (reply, s.1, rest)

/-- What came of giving an engine the same delivery several times. -/
structure Trial where
  engine : Engine
  actions : List Action
  calls : ChannelCalls
  stage : Stage
  handler : ScriptedHandler

/-- Gives an engine a delivery once more, either to decide about it only or to settle it as well. -/
def Trial.step (settles refuses : Bool) (delivery : Delivery) (t : Trial) : Trial :=
  let s := (t.calls, t.stage, t.handler)
  let (action, engine, calls, stage, handler) :=
    if settles then t.engine.deliver recordingSurroundings (recordingChannel refuses) delivery s
    else t.engine.decide recordingSurroundings delivery s
  ⟨engine, t.actions ++ [action], calls, stage, handler⟩

/-- Gives an engine of the stage a delivery several times. -/
def tryDelivery (engine : Nat) (settles refuses : Bool) (delivery : Delivery) (times : Nat)
    (lines : List HandlerLine) (d : Stage) : Option Trial × Stage :=
  match d.engines[engine]? with
  | none => (none, d)
  | some e =>
    let trial := (List.range times).foldl (fun t _ => t.step settles refuses delivery)
      ⟨e, [], [], d, .of lines⟩
    (some trial, { trial.stage with engines := trial.stage.engines.set engine trial.engine })

/-! ## Deferred actions -/

/-- What may be done after a commit. -/
inductive Deferred where
  | announce (a : Announcement)
  | note (text : String)
  | crash
  /-- Notes whether a row exists. -/
  | look (id : RowId)
  /-- Deletes a row and notes the answer. -/
  | delete (id : RowId)
  | closeStore
  deriving DecidableEq, Repr

def Deferred.perform (a : Deferred) (d : Stage) : Completion × Stage :=
  match a with
  | .announce a => a.perform gateway d
  | .note text => (.completed, d.addNote (.text text))
  | .crash => (.crashed, d)
  | .look id => (.completed, d.addNote (.answer ((d.store.get id).toOption.map (·.isSome))))
  | .delete id =>
    match d.store.delete id with
    | .ok (found, store) => (.completed, addNote { d with store } (.answer (some found)))
    | .error _ => (.completed, d.addNote (.answer none))
  | .closeStore => (.completed, { d with store.available := false })

end Stage

end DurableMessaging.Rehearsal
