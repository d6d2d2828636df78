import DurableMessaging.Sender.MessageId

/-!
# Aliases of message ids

Drawn message ids written by the order in which they first appear, so that runs can be compared.
-/

namespace DurableMessaging.Rehearsal

/-- The ids that have appeared, the latest first. -/
abbrev Aliases := List String

namespace Aliases

def text (number : Nat) : String := "uuid-" ++ number.repr

/-- The alias of an id, which may be new. -/
def nameOf (known : Aliases) (id : String) : String × Aliases :=
  match known.findIdx? (· == id) with
  | some i => (text (known.length - i), known)
  | none => (text (known.length + 1), id :: known)

/-- Characters in a message id. -/
def idLength : Nat := 36

/-- Puts aliases in place of the drawn ids in a text; `skip` characters belong to an id already
written. -/
def shortenChars (drawn : List String) : (skip : Nat) → Aliases → List Char → List Char × Aliases
  | _, known, [] => ([], known)
  | skip + 1, known, _ :: cs => shortenChars drawn skip known cs
  | 0, known, c :: cs =>
    let front := (c :: cs).take idLength
    if front.length = idLength ∧ String.ofList front ∈ drawn then
      let (name, known) := known.nameOf (String.ofList front)
      let (rest, known) := shortenChars drawn (idLength - 1) known cs
      (name.toList ++ rest, known)
    else
      let (rest, known) := shortenChars drawn 0 known cs
      (c :: rest, known)

/-- Puts aliases in place of the ids drawn so far. -/
def shorten (draws : Nat) (known : Aliases) (s : String) : String × Aliases :=
  if s.length < idLength then (s, known)
  else
    let (cs, known) := shortenChars ((List.range draws).map MessageId.ofDraw) 0 known s.toList
    (String.ofList cs, known)

/-- Puts ids in place of their aliases in braces. -/
def expand (known : Aliases) (s : String) : String :=
  known.reverse.zipIdx.foldl
    (fun s (id, i) => s.replace ("\x7b" ++ text (i + 1) ++ "\x7d") id) s

end Aliases

end DurableMessaging.Rehearsal
