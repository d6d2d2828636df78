import DurableMessaging.Consumer.Worker
import DurableMessaging.Json.Record
import DurableMessaging.Sender.Basic

/-!
# Trigger endpoints

Two endpoints for trying a deployment out: one sends a demo order, one starts a consumer for such
orders.
-/

namespace DurableMessaging.Trigger

open Json (Tree)

def demoExchange : String := "crm"

def demoRoutingKey : String := "crm.order.create"

def demoQueue : String := "crm.order"

def demoTarget : ConsumeTarget := .of demoExchange demoRoutingKey demoQueue

/-! ## Requests -/

inductive Endpoint where
  | send
  | consume
  deriving DecidableEq, Repr

/-- Where a request leads. -/
inductive Route where
  | endpoint (e : Endpoint)
  | wrongMethod
  | unknown
  deriving DecidableEq, Repr

/-- What follows a scheme and its colon and slashes, if a target starts with them. -/
def afterScheme? : List Char → Option (List Char)
  | ':' :: '/' :: '/' :: rest => some rest
  | c :: cs =>
    if c.isAlphanum || c ∈ ['+', '-', '.', '~'] then afterScheme? cs else none
  | [] => none

/-- What a target says before its query and fragment. -/
def beforeQuery (target : List Char) : List Char :=
  target.takeWhile fun c => c ≠ '?' ∧ c ≠ '#'

/-- The path of a request target. A target is a path, or a URL, whose path follows its host and is
the root if nothing does, or a host alone, which has no path. -/
def path (target : String) : String :=
  match target.toList with
  | '/' :: rest => String.ofList (beforeQuery ('/' :: rest))
  | ['*'] => "*"
  | cs =>
    match afterScheme? cs with
    | none => ""
    | some rest =>
      match (beforeQuery rest).dropWhile (· ≠ '/') with
      | [] => "/"
      | p => String.ofList p

def endpoint? : String → Option Endpoint
  | "/example/send" => some .send
  | "/example/consume" => some .consume
  | _ => none

/-- Endpoints are only posted to. -/
def route (method target : String) : Route :=
  match endpoint? (path target) with
  | none => .unknown
  | some e => if method = "POST" then .endpoint e else .wrongMethod

/-! ## Replies -/

structure Response where
  status : Nat
  /-- Result and message, or nothing. -/
  body : Option (String × String)
  deriving DecidableEq, Repr

namespace Response

def success (message : String) : Response := ⟨200, some ("0", message)⟩

def failure (status : Nat) (message : String) : Response := ⟨status, some ("1", message)⟩

def ofStatus (status : Nat) : Response := ⟨status, none⟩

def toTree (r : Response) : Tree :=
  match r.body with
  | none => .null
  | some (result, message) => .ofFields [("result", .ofText result), ("msg", .ofText message)]

end Response

/-- The reply to a send of an order. -/
def sendResponse (order : String) : Reply Empty Bool → Response
  | .returned true => .success order
  | .returned false => .failure 500 "message not accepted"
  | .crashed => .failure 500 "send task failed"

/-- The reply to the start of a consumer. -/
def consumeResponse : Reply BrokerError (List WorkerId) → Response
  | .returned workers => .success ("consumer started with " ++ workers.length.repr ++ " workers")
  | .failed e => .failure 503 e.message
  | .crashed => .failure 500 "consume task failed"

/-! ## Demo orders -/

def alphanumerics : List Char :=
  "ABCDEFGHIJKLMNOPQRSTUVWXYZabcdefghijklmnopqrstuvwxyz0123456789".toList

/-- The next state of a generator of pseudo-random numbers. -/
def nextSeed (seed : Nat) : Nat := (seed * 6364136223846793005 + 1442695040888963407) % UInt64.size

/-- So many letters and digits, drawn from a seed. -/
def randomChars (seed : Nat) : Nat → List Char
  | 0 => []
  | n + 1 =>
    let seed := nextSeed seed
    (alphanumerics[(seed >>> 33) % alphanumerics.length]?).getD 'A' :: randomChars seed n

def randomText (seed length : Nat) : String := String.ofList (randomChars seed length)

/-- The text of an order: its time in milliseconds and a random number. -/
def orderText (millis seed : Nat) : String :=
  (Tree.ofFields [("id", .ofNat millis), ("orderNum", .ofText (randomText seed 12))]).text

/-! ## Endpoints -/

variable {ρ : Type}

/-- Sends a demo order to a target. -/
def send (sender : Sender) (g : Gateway ρ) (target : ConsumeTarget) (seed : Nat)
    (d : Deployment ρ) : Response × Deployment ρ :=
  let order := orderText (d.now / Duration.millisecond) seed
  let (accepted, d) := sender.send g ⟨target.exchange, target.routingKey, order, none, none, none⟩ d
  (sendResponse order (.returned accepted), d)

/-- Starts a consumer on a target, with as many workers as the engine asks for. -/
def consume (engine : Engine) (g : Gateway ρ) (target : ConsumeTarget) (processors : Nat)
    (d : Deployment ρ) : Reply BrokerError (List WorkerId) × Deployment ρ :=
  engine.consume g target (engine.concurrency.getD processors) d

end DurableMessaging.Trigger
