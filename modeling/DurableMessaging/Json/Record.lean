import DurableMessaging.Json.Numeral
import DurableMessaging.Json.Tree

/-!
# Records in JSON

Reading trees at a type. A record is an object with named fields, or an array of its fields in
order. A named alternative is its name, or an object of that name with a null.
-/

namespace DurableMessaging.Json

/-- How a record treats what it does not expect. -/
structure RecordRule where
  /-- An object may hold members of other names, which are skipped. -/
  skipsOthers : Bool
  /-- An array may end before the last field. -/
  allowsShort : Bool

namespace Tree

/-- The trees of the named fields, from the members of an object. -/
def memberFields (rule : RecordRule) (names : List String) :
    (found : List (String × Tree)) → List (Option String × Tree) → Option (List (Option Tree))
  | found, [] => some (names.map (List.lookup · found))
  | found, (key, t) :: rest =>
    match key with
    | none => none
    | some k =>
      if names.contains k then
        if (List.lookup k found).isSome then none else memberFields rule names ((k, t) :: found) rest
      else if rule.skipsOthers then memberFields rule names found rest
      else none

/-- The trees of the named fields of a record, in the order of the names. -/
def fields? (rule : RecordRule) (names : List String) : Tree → Option (List (Option Tree))
  | .object members => memberFields rule names [] members
  | .array items =>
    if items.length = names.length ∨ (rule.allowsShort ∧ items.length < names.length) then
      some (items.map some ++ List.replicate (names.length - items.length) none)
    else none
  | _ => none

/-- A natural number of at most `limit`, written without point, exponent or minus. -/
def nat? (limit : Nat) : Tree → Option Nat
  | .number n =>
    let value := Nat.ofDigitChars 10 n.whole 0
    if n.isWhole ∧ ¬n.negative ∧ value ≤ limit then some value else none
  | _ => none

def word? (t : Tree) : Option UInt64 := (t.nat? (UInt64.size - 1)).map UInt64.ofNat

def halfWord? (t : Tree) : Option UInt32 := (t.nat? (UInt32.size - 1)).map UInt32.ofNat

def text? : Tree → Option String
  | .string s => s
  | _ => none

/-- Null for an absent value. -/
def optional? {α : Type} (read : Tree → Option α) : Tree → Option (Option α)
  | .null => some none
  | t => (read t).map some

/-- The name of an alternative. -/
def choice? : Tree → Option String
  | .string s => s
  | .object [(key, .null)] => key
  | _ => none

def ofText (s : String) : Tree := .string (some s)

def ofNat (n : Nat) : Tree := .number (.ofNat n)

def ofOptional {α : Type} (write : α → Tree) : Option α → Tree
  | none => .null
  | some a => write a

/-- An object with the given fields. -/
def ofFields (fields : List (String × Tree)) : Tree :=
  .object (fields.map fun (name, t) => (some name, t))

end Tree

/-- A field, or the value that stands for a missing one. -/
def fieldOr {α : Type} (default : α) (read : Tree → Option α) : Option Tree → Option α
  | none => some default
  | some t => read t

end DurableMessaging.Json
