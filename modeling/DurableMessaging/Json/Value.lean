import DurableMessaging.Json.Numeral
import DurableMessaging.Json.Tree

/-!
# JSON values

What a message handler is given: numbers have their value, every string is a text, and the members
of an object are sorted by key, the last of equal keys kept. A text may embed another: an object
that opens with a certain key stands for the value of the text under it.
-/

namespace DurableMessaging.Json

inductive Value where
  | null
  | truth (value : Bool)
  | number (n : Numeral)
  | string (s : String)
  | array (items : List Value)
  | object (members : List (String × Value))
  deriving Repr

/-- Adds a member to members sorted by key, replacing one of the same key. -/
def putMember (key : String) (v : Value) : List (String × Value) → List (String × Value)
  | [] => [(key, v)]
  | (k, w) :: rest =>
    if key < k then (key, v) :: (k, w) :: rest
    else if key = k then (key, v) :: rest
    else (k, w) :: putMember key v rest

/-- The key that marks an embedded text. -/
def embeddingKey : String := "$serde_json::private::RawValue"

/-- Whether the members of an object mark an embedded text. Only the first key counts. -/
def startsEmbedding : List (Option String × Tree) → Bool
  | (some key, _) :: _ => key == embeddingKey
  | _ => false

/-- The text that members embed. It has to be a string and the only member. -/
def embeddedText? : List (Option String × Tree) → Option String
  | [(_, .string text)] => text
  | _ => none

mutual

/-- The value of a tree, with `embedded` reading the texts in it. It has none if a number is out of
range or a string stands for no text. -/
def Value.ofTree? (embedded : String → Option Value) : Tree → Option Value
  | .null => some .null
  | .truth b => some (.truth b)
  | .number n => n.numeral?.map .number
  | .string s => s.map .string
  | .array items => (valuesOfTrees? embedded items).map .array
  | .object members =>
    if startsEmbedding members then (embeddedText? members).bind embedded
    else (membersOfTrees? embedded [] members).map .object

def valuesOfTrees? (embedded : String → Option Value) : List Tree → Option (List Value)
  | [] => some []
  | t :: ts => do
    let v ← Value.ofTree? embedded t
    let vs ← valuesOfTrees? embedded ts
    some (v :: vs)

def membersOfTrees? (embedded : String → Option Value) (read : List (String × Value)) :
    List (Option String × Tree) → Option (List (String × Value))
  | [] => some read
  | (key, t) :: rest => do
    let k ← key
    let v ← Value.ofTree? embedded t
    membersOfTrees? embedded (putMember k v read) rest

end

mutual

/-- How many containers stand inside one another. -/
def Value.depth : Value → Nat
  | .array items => listDepth items + 1
  | .object members => memberDepth members + 1
  | _ => 0

def listDepth : List Value → Nat
  | [] => 0
  | v :: vs => max v.depth (listDepth vs)

def memberDepth : List (String × Value) → Nat
  | [] => 0
  | (_, v) :: rest => max v.depth (memberDepth rest)

end

/-- Containers that may stand inside one another in a text, those of embedded texts not counted. -/
def deepestNesting : Nat := 127

/-- The value of a text in which embedded texts stand fewer than `levels` deep. -/
def Value.ofText? : (levels : Nat) → String → Option Value
  | 0, _ => none
  | levels + 1, text =>
    (Tree.read? (some deepestNesting) text).bind (Value.ofTree? (Value.ofText? levels))

/-- The value of a text. An embedded text is shorter than the text around it, so none is too deep. -/
def Value.read? (text : String) : Option Value := Value.ofText? (text.length + 1) text

/-- The value of a payload, which must be UTF-8. -/
def Value.ofPayload? (payload : ByteArray) : Option Value :=
  (String.fromUTF8? payload).bind Value.read?

end DurableMessaging.Json
