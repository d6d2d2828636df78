import DurableMessaging.Json.Token

/-!
# JSON trees

A JSON text as a tree: members keep their order and may repeat a key, numbers keep their digits.
`Tree.read?` builds the tree token by token with the open containers on a stack, so nesting is
bounded only where a limit is given. `Tree.text` writes a tree without blanks.
-/

namespace DurableMessaging.Json

inductive Tree where
  | null
  | truth (value : Bool)
  | number (text : NumberText)
  | string (text : Option String)
  | array (items : List Tree)
  | object (members : List (Option String × Tree))
  deriving Repr

/-! ## Reading -/

/-- A container still open, its contents so far the latest first. -/
inductive Frame where
  | array (items : List Tree)
  | object (members : List (Option String × Tree)) (key : Option String)

/-- What may come next. -/
inductive Expect where
  | value
  | valueOrEnd
  | key
  | keyOrEnd
  | colon
  | commaOrEnd
  | finished (tree : Tree)

structure Reader where
  stack : List Frame
  expect : Expect

namespace Reader

def start : Reader := ⟨[], .value⟩

/-- Puts a complete value where one is expected. -/
def put (tree : Tree) : List Frame → Reader
  | [] => ⟨[], .finished tree⟩
  | .array items :: stack => ⟨.array (tree :: items) :: stack, .commaOrEnd⟩
  | .object members key :: stack => ⟨.object ((key, tree) :: members) key :: stack, .commaOrEnd⟩

/-- Starts a value. A container may not open `limit` levels deep or deeper. -/
def startValue (limit : Option Nat) (stack : List Frame) (t : Token) : Option Reader :=
  let room := limit.all (stack.length < ·)
  match t with
  | .openArray => if room then some ⟨.array [] :: stack, .valueOrEnd⟩ else none
  | .openObject => if room then some ⟨.object [] none :: stack, .keyOrEnd⟩ else none
  | .null => some (put .null stack)
  | .truth b => some (put (.truth b) stack)
  | .number n => some (put (.number n) stack)
  | .string s => some (put (.string s) stack)
  | _ => none

/-- Closes the innermost container, which must be an array. -/
def endArray : List Frame → Option Reader
  | .array items :: stack => some (put (.array items.reverse) stack)
  | _ => none

/-- Closes the innermost container, which must be an object. -/
def endObject : List Frame → Option Reader
  | .object members _ :: stack => some (put (.object members.reverse) stack)
  | _ => none

def setKey (key : Option String) : List Frame → Option Reader
  | .object members _ :: stack => some ⟨.object members key :: stack, .colon⟩
  | _ => none

/-- After a comma an array goes on with a value and an object with a key. -/
def afterComma : List Frame → Option Reader
  | .array items :: stack => some ⟨.array items :: stack, .value⟩
  | .object members key :: stack => some ⟨.object members key :: stack, .key⟩
  | [] => none

def feed (limit : Option Nat) (r : Reader) (t : Token) : Option Reader :=
  match r.expect, t with
  | .value, t => startValue limit r.stack t
  | .valueOrEnd, .closeArray => endArray r.stack
  | .valueOrEnd, t => startValue limit r.stack t
  | .key, .string key => setKey key r.stack
  | .keyOrEnd, .string key => setKey key r.stack
  | .keyOrEnd, .closeObject => endObject r.stack
  | .colon, .colon => some ⟨r.stack, .value⟩
  | .commaOrEnd, .comma => afterComma r.stack
  | .commaOrEnd, .closeArray => endArray r.stack
  | .commaOrEnd, .closeObject => endObject r.stack
  | _, _ => none

def result? (r : Reader) : Option Tree :=
  match r.expect with
  | .finished tree => some tree
  | _ => none

/-- Reads on to the end of the text. -/
def run (limit : Option Nat) (r : Reader) (cs : List Char) : Option Tree :=
  match _h : cs.dropWhile isSpace with
  | [] => r.result?
  | c :: cs' =>
    match _ht : scanToken (c :: cs') with
    | none => none
    | some (t, rest) =>
      match r.feed limit t with
      | none => none
      | some r' => run limit r' rest
termination_by cs.length
decreasing_by
  have le : (cs.dropWhile isSpace).length ≤ cs.length := (List.dropWhile_sublist _).length_le
  have lt := scanToken_shorter _ht
  rw [_h] at le
  omega

end Reader

/-- The tree of a text. A number of levels may be given that must not be passed. -/
def Tree.read? (limit : Option Nat) (text : String) : Option Tree :=
  Reader.start.run limit text.toList

/-! ## Writing -/

def lowerHexDigit (n : Nat) : Char :=
  if n < 10 then Char.ofNat ('0'.toNat + n) else Char.ofNat ('a'.toNat + (n - 10))

/-- A character as it stands in a written string: only quotes, backslashes and controls are
escaped. -/
def escapeChar (c : Char) : List Char :=
  match c with
  | '"' => ['\\', '"']
  | '\\' => ['\\', '\\']
  | '\x08' => ['\\', 'b']
  | '\x0c' => ['\\', 'f']
  | '\n' => ['\\', 'n']
  | '\r' => ['\\', 'r']
  | '\t' => ['\\', 't']
  | c =>
    if c.toNat < 0x20 then
      ['\\', 'u', '0', '0', lowerHexDigit (c.toNat / 16), lowerHexDigit (c.toNat % 16)]
    else [c]

/-- A string without a text is written as an unpaired half. -/
def stringChars : Option String → List Char
  | some s => '"' :: s.toList.flatMap escapeChar ++ ['"']
  | none => ['"', '\\', 'u', 'd', '8', '0', '0', '"']

def NumberText.chars (n : NumberText) : List Char :=
  (if n.negative then ['-'] else []) ++ n.whole
    ++ (if n.fraction.isEmpty then [] else '.' :: n.fraction)
    ++ (match n.exponent with
        | none => []
        | some (negative, digits) => 'e' :: (if negative then ['-'] else []) ++ digits)

/-- A natural number as written. -/
def NumberText.ofNat (n : Nat) : NumberText := ⟨false, Nat.toDigits 10 n, [], none⟩

mutual

def Tree.chars : Tree → List Char
  | .null => ['n', 'u', 'l', 'l']
  | .truth true => ['t', 'r', 'u', 'e']
  | .truth false => ['f', 'a', 'l', 's', 'e']
  | .number n => n.chars
  | .string s => stringChars s
  | .array [] => ['[', ']']
  | .array (item :: items) => '[' :: item.chars ++ itemChars items ++ [']']
  | .object [] => ['\x7b', '\x7d']
  | .object ((key, tree) :: members) =>
    '\x7b' :: stringChars key ++ ':' :: tree.chars ++ memberChars members ++ ['\x7d']

/-- The items after the first, each after a comma. -/
def itemChars : List Tree → List Char
  | [] => []
  | item :: items => ',' :: item.chars ++ itemChars items

/-- The members after the first, each after a comma. -/
def memberChars : List (Option String × Tree) → List Char
  | [] => []
  | (key, tree) :: members => ',' :: stringChars key ++ ':' :: tree.chars ++ memberChars members

end

def Tree.text (tree : Tree) : String := String.ofList tree.chars

end DurableMessaging.Json
