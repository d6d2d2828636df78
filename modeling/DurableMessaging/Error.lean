import DurableMessaging.Text.Quoted

/-!
# Causes of failure

Why the store, the cache, the broker, a handler or a sender could not do what it was asked, and how
each cause is told.
-/

namespace DurableMessaging

inductive StoreError where
  | unavailable (reason : String)
  | duplicateId (id : UInt64)
  | commitFailed (reason : String)
  | lockPoisoned (during : String)
  deriving DecidableEq, Repr

def StoreError.message : StoreError → String
  | .unavailable reason => "outbox store unavailable: " ++ reason
  | .duplicateId id => "outbox row " ++ id.toNat.repr ++ " already exists"
  | .commitFailed reason => "commit failed: " ++ reason
  | .lockPoisoned during => "outbox store lock poisoned during " ++ during

/-- Why a message was not accepted: only the store can refuse one. -/
structure SendError where
  cause : StoreError
  deriving DecidableEq, Repr

def SendError.message (e : SendError) : String :=
  "outbox persistence failed: " ++ e.cause.message

inductive CacheError where
  | unavailable (reason : String)
  | notAnInteger (key : String)
  | codec (reason : String)
  | lockPoisoned (during : String)
  deriving DecidableEq, Repr

def CacheError.message : CacheError → String
  | .unavailable reason => "cache unavailable: " ++ reason
  | .notAnInteger key => "value at " ++ Text.quoted key ++ " is not an integer"
  | .codec reason => "codec error: " ++ reason
  | .lockPoisoned during => "cache lock poisoned during " ++ during

inductive BrokerError where
  | unavailable (reason : String)
  | unknownExchange (name : String)
  | unknownQueue (name : String)
  | topologyConflict (detail : String)
  | unknownDeliveryTag (tag : UInt64)
  | invalidCorrelation (text : String)
  | invalidSpec (detail : String)
  | lockPoisoned (during : String)
  deriving DecidableEq, Repr

def BrokerError.message : BrokerError → String
  | .unavailable reason => "broker unavailable: " ++ reason
  | .unknownExchange name => "unknown exchange: " ++ name
  | .unknownQueue name => "unknown queue: " ++ name
  | .topologyConflict detail => "topology conflict: " ++ detail
  | .unknownDeliveryTag tag => "unknown delivery tag " ++ tag.toNat.repr
  | .invalidCorrelation text => "invalid correlation token: " ++ Text.quoted text
  | .invalidSpec detail => "invalid consumer spec: " ++ detail
  | .lockPoisoned during => "broker lock poisoned during " ++ during

/-- Whether the broker could not be reached at all. -/
def BrokerError.isUnavailable : BrokerError → Bool
  | .unavailable _ => true
  | _ => false

inductive HandlerError where
  | decodeFailed (reason : String)
  | rejected (reason : String)
  | other (reason : String)
  deriving DecidableEq, Repr

def HandlerError.message : HandlerError → String
  | .decodeFailed reason => "decode failed: " ++ reason
  | .rejected reason => "rejected: " ++ reason
  | .other reason => "handler error: " ++ reason

/-- How a call to a collaborator ends. -/
inductive Reply (ε α : Type) where
  | returned (value : α)
  | failed (error : ε)
  | crashed
  deriving DecidableEq, Repr

def Reply.ofExcept {ε α : Type} : Except ε α → Reply ε α
  | .ok a => .returned a
  | .error e => .failed e

/-- How an action without a result ends. -/
inductive Completion where
  | completed
  | crashed
  deriving DecidableEq, Repr

end DurableMessaging
