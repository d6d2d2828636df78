import DurableMessaging.Json.Record
import DurableMessaging.Row.Basic

/-!
# Rows as JSON

The JSON form of rows and of the names in them. `Row.ofTree?` reads what `Row.toTree?` writes; only
the queue and the application type may be left out.
-/

namespace DurableMessaging

open Json (Tree)

def ExchangeType.ofTree? (t : Tree) : Option ExchangeType := t.choice?.bind ofName?

def RowStatus.ofTree? (t : Tree) : Option RowStatus := t.choice?.bind ofName?

def AckPolicy.ofTree? (t : Tree) : Option AckPolicy := t.choice?.bind ofName?

namespace Timestamp

def fieldNames : List String := ["secs_since_epoch", "nanos_since_epoch"]

/-- A timestamp as seconds and nanoseconds since the epoch. Nanoseconds of a second or more carry,
and the seconds must then fit a signed 64-bit word. -/
def ofTree? (t : Tree) : Option Timestamp :=
  match t.fields? ⟨false, false⟩ fieldNames with
  | some [some secs, some nanos] => do
    let s ← secs.word?
    let n ← nanos.halfWord?
    let total := Duration.ofSeconds s.toNat + n.toNat
    if total < Instant.limit then some (total : Int) else none
  | _ => none

/-- The written form; a timestamp before the epoch has none. -/
def toTree? (at_ : Timestamp) : Option Tree :=
  if 0 ≤ at_ then
    some (.ofFields
      [("secs_since_epoch", .ofNat (at_.toNat / Duration.second)),
       ("nanos_since_epoch", .ofNat (at_.toNat % Duration.second))])
  else none

end Timestamp

namespace Row

def fieldNames : List String :=
  ["id", "message_id", "payload", "created_at", "exchange", "routing_key", "queue_name",
    "exchange_type", "app_type", "status"]

/-- An optional text that may be missing altogether. -/
def optionalText? : Option Tree → Option (Option String) :=
  Json.fieldOr none (Tree.optional? Tree.text?)

def ofTree? (t : Tree) : Option Row :=
  match t.fields? ⟨true, false⟩ fieldNames with
  | some [some id, some messageId, some payload, some createdAt, some exchange, some routingKey,
      queue, some exchangeType, appType, some status] => do
    some
      { id := ← id.word?
        messageId := ← messageId.text?
        payload := ← payload.text?
        createdAt := ← Timestamp.ofTree? createdAt
        exchange := ← exchange.text?
        routingKey := ← routingKey.text?
        queue := ← optionalText? queue
        exchangeType := ← ExchangeType.ofTree? exchangeType
        appType := ← optionalText? appType
        status := ← RowStatus.ofTree? status }
  | _ => none

def toTree? (row : Row) : Option Tree := do
  let createdAt ← row.createdAt.toTree?
  some (.ofFields
    [("id", .ofNat row.id.toNat),
     ("message_id", .ofText row.messageId),
     ("payload", .ofText row.payload),
     ("created_at", createdAt),
     ("exchange", .ofText row.exchange),
     ("routing_key", .ofText row.routingKey),
     ("queue_name", .ofOptional .ofText row.queue),
     ("exchange_type", .ofText row.exchangeType.name),
     ("app_type", .ofOptional .ofText row.appType),
     ("status", .ofText row.status.name)])

/-- The row that a JSON text describes. -/
def read? (text : String) : Option Row := (Tree.read? none text).bind ofTree?

/-- The JSON text of a row; a row created before the epoch has none. -/
def text? (row : Row) : Option String := row.toTree?.map Tree.text

end Row

end DurableMessaging
