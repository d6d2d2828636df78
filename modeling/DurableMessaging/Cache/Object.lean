import DurableMessaging.Cache.Basic
import DurableMessaging.Cache.Key
import DurableMessaging.Json.Tree
import DurableMessaging.Text.Base64

/-!
# Typed objects in a cache

Values of any type with a codec, stored as text under keys that tell the types apart.
-/

namespace DurableMessaging

/-- How values of a type are written as bytes, and the type's name. -/
structure ObjectCodec (α : Type) where
  typeName : String
  encode : α → List UInt8
  decode : List UInt8 → Option α

namespace ObjectCodec

variable {α : Type}

def storageKey (c : ObjectCodec α) (key : String) : String := CacheKey.object c.typeName key

/-- The text that a value is stored as. -/
def text (c : ObjectCodec α) (value : α) : String :=
  String.ofList (Text.Base64.encode (c.encode value))

def ofText? (c : ObjectCodec α) (text : String) : Option α :=
  (Text.Base64.decode text.toList).bind c.decode

def putCall (c : ObjectCodec α) (key : String) (value : α) (ttl : Option Duration) : CacheCall :=
  .set (c.storageKey key) (c.text value) ttl

def getCall (c : ObjectCodec α) (key : String) : CacheCall := .get (c.storageKey key)

def removeCall (c : ObjectCodec α) (key : String) : CacheCall := .delete (c.storageKey key)

/-- The value in a text that was found, if one was. -/
def readFound (c : ObjectCodec α) : Option String → Except CacheError (Option α)
  | none => .ok none
  | some text =>
    match c.ofText? text with
    | some value => .ok (some value)
    | none => .error (.codec "not a stored object")

/-- The value in the answer to `getCall`. -/
def readReply (c : ObjectCodec α) : Reply CacheError (Option String) → Reply CacheError (Option α)
  | .returned found => .ofExcept (c.readFound found)
  | .failed e => .failed e
  | .crashed => .crashed

/-- Stores values of a type as their JSON text. -/
def ofTree (typeName : String) : ObjectCodec Json.Tree where
  typeName := typeName
  encode t := t.text.toUTF8.toList
  decode b := (String.fromUTF8? ⟨b.toArray⟩).bind (Json.Tree.read? none)

end ObjectCodec

end DurableMessaging
