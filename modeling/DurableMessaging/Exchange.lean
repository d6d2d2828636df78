/-!
# Exchanges and routing keys

The four exchange types and which binding patterns let a routing key through. In a topic pattern a
star stands for one word and a hash for any number of words.
-/

namespace DurableMessaging

inductive ExchangeType where
  | direct
  | fanout
  | topic
  | headers
  deriving DecidableEq, Repr, Inhabited

namespace ExchangeType

def name : ExchangeType → String
  | .direct => "direct"
  | .fanout => "fanout"
  | .topic => "topic"
  | .headers => "headers"

def ofName? : String → Option ExchangeType
  | "direct" => some .direct
  | "fanout" => some .fanout
  | "topic" => some .topic
  | "headers" => some .headers
  | _ => none

/-- The type used where none is named. -/
def usual : ExchangeType := .topic

theorem ofName?_name (t : ExchangeType) : ofName? t.name = some t := by
  cases t <;> rfl

end ExchangeType

namespace Topic

/-- The words of a pattern or key: what stands between its dots. -/
def words : List Char → List (List Char)
  | [] => [[]]
  | c :: cs =>
    if c = '.' then [] :: words cs
    else
      match words cs with
      | [] => [[c]]
      | w :: ws => (c :: w) :: ws

/-- Whether the words of a key satisfy those of a pattern. -/
def wordsMatch : (pattern key : List (List Char)) → Bool
  | [], key => key.isEmpty
  | ['#'] :: pattern, [] => wordsMatch pattern []
  | ['#'] :: pattern, k :: key => wordsMatch pattern (k :: key) || wordsMatch (['#'] :: pattern) key
  | _ :: _, [] => false
  | p :: pattern, k :: key => (p == ['*'] || p == k) && wordsMatch pattern key
termination_by pattern key => pattern.length + key.length

/-- Whether a routing key satisfies a topic pattern. -/
def keyMatches (pattern key : String) : Bool :=
  wordsMatch (words pattern.toList) (words key.toList)

end Topic

/-- Whether a message with a routing key reaches a queue bound with `pattern`. -/
def ExchangeType.routes (t : ExchangeType) (pattern key : String) : Bool :=
  match t with
  | .fanout => true
  | .topic => Topic.keyMatches pattern key
  | .direct => pattern == key
  | .headers => pattern == key

/-- An exchange and, optionally, a queue bound to it with a routing key. -/
structure Topology where
  exchange : String
  exchangeType : ExchangeType
  queue : Option String
  routingKey : String
  deriving DecidableEq, Repr

/-- The exchange alone. -/
def Topology.ofExchange (exchange : String) (exchangeType : ExchangeType) : Topology :=
  ⟨exchange, exchangeType, none, ""⟩

end DurableMessaging
