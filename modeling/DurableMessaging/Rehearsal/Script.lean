import DurableMessaging.Consumer.Worker

/-!
# Scripted handlers

Handlers and delivery callbacks that play a list of outcomes, the last one for as long as they are
asked, and keep what they were given.
-/

namespace DurableMessaging.Rehearsal

open Json (Value)

/-- The next line of a script and the script that is left; the last line stays. -/
def playLine {α : Type} (otherwise : α) : List α → α × List α
  | [] => (otherwise, [])
  | [last] => (last, [last])
  | line :: lines => (line, lines)

/-! ## Handlers -/

inductive HandlerLine where
  /-- The message is processed. -/
  | processed
  /-- The message may be tried again. -/
  | fail
  | error (e : HandlerError)
  | crash
  deriving DecidableEq, Repr

def HandlerLine.reply : HandlerLine → Reply HandlerError Bool
  | .processed => .returned true
  | .fail => .returned false
  | .error e => .failed e
  | .crash => .crashed

structure ScriptedHandler where
  lines : List HandlerLine
  /-- The payloads it was given, the oldest first. -/
  seen : List Value

def ScriptedHandler.of (lines : List HandlerLine) : ScriptedHandler := ⟨lines, []⟩

def ScriptedHandler.play (h : ScriptedHandler) (payload : Value) :
    Reply HandlerError Bool × ScriptedHandler :=
  let (line, lines) := playLine .processed h.lines
  (line.reply, ⟨lines, h.seen ++ [payload]⟩)

/-! ## Delivery callbacks -/

inductive CallbackLine where
  | ack
  | ackTwice
  | requeue
  | reject
  | rejectThenAck
  /-- Acks a tag that was never given out, then the right one. -/
  | wrongTag
  /-- Leaves the delivery unsettled. -/
  | ignore
  | crash
  | ackThenCrash
  deriving DecidableEq, Repr

/-- How far off a wrong tag is. -/
def wrongTagOffset : DeliveryTag := 1000

/-- The settlements that a line asks for, in order. -/
def CallbackLine.calls (tag : DeliveryTag) : CallbackLine → List (DeliveryTag × Settlement)
  | .ack => [(tag, .ack)]
  | .ackTwice => [(tag, .ack), (tag, .ack)]
  | .requeue => [(tag, .requeue)]
  | .reject => [(tag, .reject)]
  | .rejectThenAck => [(tag, .reject), (tag, .ack)]
  | .wrongTag => [(tag + wrongTagOffset, .ack), (tag, .ack)]
  | .ignore => []
  | .crash => []
  | .ackThenCrash => [(tag, .ack)]

def CallbackLine.completion : CallbackLine → Completion
  | .crash => .crashed
  | .ackThenCrash => .crashed
  | _ => .completed

/-- A delivery and the answers to the settlements of it. -/
structure CallbackRecord where
  delivery : Delivery
  answers : List (Except BrokerError Unit)

structure ScriptedCallback where
  lines : List CallbackLine
  /-- What it did, the oldest first. -/
  records : List CallbackRecord

def ScriptedCallback.of (lines : List CallbackLine) : ScriptedCallback := ⟨lines, []⟩

/-- Makes settlements of deliveries of a queue, and keeps the answers. -/
def settleAll {ρ : Type} (queue : String) :
    List (DeliveryTag × Settlement) → Deployment ρ → List (Except BrokerError Unit) × Deployment ρ
  | [], d => ([], d)
  | (tag, s) :: rest, d =>
    let (answer, d) := d.settle queue tag s
    let (answers, d) := settleAll queue rest d
    (answer :: answers, d)

def ScriptedCallback.play {ρ : Type} (c : ScriptedCallback) (delivery : Delivery)
    (d : Deployment ρ) : Completion × ScriptedCallback × Deployment ρ :=
  let (line, lines) := playLine .ack c.lines
  let (answers, d) := settleAll delivery.queue (line.calls delivery.tag) d
  (line.completion, ⟨lines, c.records ++ [⟨delivery, answers⟩]⟩, d)

end DurableMessaging.Rehearsal
