import DurableMessaging.Broker.Message
import DurableMessaging.Cache.Basic
import DurableMessaging.Cache.Key
import DurableMessaging.Json.Value

/-!
# Deciding about a delivery

A message is processed once: a record in the cache tells that it was. A handler that fails is
tried again until the message's retry counter reaches its bound. Whatever goes wrong on the way
rejects the message.

A decision is a program that stops at each call to the cache and at the call to the handler and goes
on from any answer, so it can be run against any cache, and several at a time.
-/

namespace DurableMessaging

open Json (Value)

/-- What was decided, and why a delivery was accepted. -/
inductive Verdict where
  /-- The message has been processed before; the handler was not called. -/
  | duplicate
  | processed
  | retry
  | reject
  deriving DecidableEq, Repr

def Verdict.action : Verdict → Action
  | .duplicate => .accept
  | .processed => .accept
  | .retry => .retry
  | .reject => .reject

inductive Decision where
  | done (verdict : Verdict)
  | ask (call : CacheCall) (next : Reply CacheError call.Answer → Decision)
  /-- The handler tells whether the message is processed. -/
  | handle (payload : Value) (next : Reply HandlerError Bool → Decision)

structure DecisionRule where
  /-- Failures tolerated before a message is rejected. -/
  maxRetries : UInt32
  /-- How long a processed message is remembered. -/
  dedupTtl : Duration
  /-- How long a retry counter lives; for good if there is none. -/
  retryTtl : Option Duration
  deriving DecidableEq, Repr

namespace DecisionRule

/-- Adds one to a retry counter. -/
def incrementRetries (key : String) : Decision :=
  .ask (.increment key) fun
    | .returned _ => .done .retry
    | _ => .done .reject

/-- Starts a retry counter, unless another worker has just done so. -/
def startRetries (rule : DecisionRule) (key : String) : Decision :=
  .ask (.setIfAbsent key "1" rule.retryTtl) fun
    | .returned true => .done .retry
    | .returned false => incrementRetries key
    | _ => .done .reject

/-- Retries unless the counter has reached its bound. -/
def afterFailure (rule : DecisionRule) (queue messageId : String) : Decision :=
  let key := CacheKey.retry queue messageId
  .ask (.get key) fun
    | .returned none => if rule.maxRetries = 0 then .done .reject else rule.startRetries key
    | .returned (some text) =>
      match Text.counter? text with
      | none => .done .reject
      | some count =>
        if (rule.maxRetries.toNat : Int) ≤ count then .done .reject else incrementRetries key
    | _ => .done .reject

/-- Remembers a processed message. It is accepted even if that fails. -/
def afterSuccess (rule : DecisionRule) (queue messageId : String) : Decision :=
  .ask (.set (CacheKey.dedup queue messageId) messageId (some rule.dedupTtl)) fun
    | .crashed => .done .reject
    | _ => .done .processed

def process (rule : DecisionRule) (queue messageId : String) (payload : Value) : Decision :=
  .handle payload fun
    | .returned true => rule.afterSuccess queue messageId
    | .returned false => rule.afterFailure queue messageId
    | _ => .done .reject

/-- The message id of a delivery, unless it is blank. -/
def messageId? (d : Delivery) : Option String := d.messageId.filter fun id => !Text.isBlankText id

/-- The decision about a delivery. -/
def decide (rule : DecisionRule) (d : Delivery) : Decision :=
  match messageId? d with
  | none => .done .reject
  | some messageId =>
    match Value.ofPayload? d.payload with
    | none => .done .reject
    | some payload =>
      .ask (.exists (CacheKey.dedup d.queue messageId)) fun
        | .returned true => .done .duplicate
        | .returned false => rule.process d.queue messageId payload
        | _ => .done .reject

end DecisionRule

/-- Answers the calls of a decision in a state of any kind. -/
structure Surroundings (σ : Type) where
  cache : (call : CacheCall) → σ → Reply CacheError call.Answer × σ
  handler : Value → σ → Reply HandlerError Bool × σ

/-- Runs a decision to its verdict. -/
def Decision.run {σ : Type} (around : Surroundings σ) : Decision → σ → Verdict × σ
  | .done verdict, s => (verdict, s)
  | .ask call next, s =>
    let (reply, s) := around.cache call s
    (next reply).run around s
  | .handle payload next, s =>
    let (reply, s) := around.handler payload s
    (next reply).run around s

end DurableMessaging
