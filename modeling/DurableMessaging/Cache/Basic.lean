import DurableMessaging.Error
import DurableMessaging.Registry
import DurableMessaging.Text.Decimal
import DurableMessaging.Time

/-!
# The cache

Texts under keys, each with an optional deadline from which on it reads as absent. Entries past
their deadline are dropped by a sweep after every so many writes, which no answer shows.

A `CacheCall` names one call and its answer, so that the same callers can be run against this cache
or any other.
-/

namespace DurableMessaging

structure CacheEntry where
  value : String
  /-- The entry stays for good if there is none. -/
  deadline : Option Instant
  deriving DecidableEq, Repr

def CacheEntry.isLive (e : CacheEntry) (now : Instant) : Bool := e.deadline.all (now < ·)

/-- A call to a cache. -/
inductive CacheCall where
  | exists (key : String)
  | get (key : String)
  /-- Replaces value and deadline. -/
  | set (key value : String) (ttl : Option Duration)
  /-- Stores only if the key is absent, and tells whether it did. -/
  | setIfAbsent (key value : String) (ttl : Option Duration)
  /-- Adds one to an integer and keeps its deadline; an absent key becomes one. -/
  | increment (key : String)
  /-- Removes the key, and tells whether it was present. -/
  | delete (key : String)
  deriving DecidableEq, Repr

abbrev CacheCall.Answer : CacheCall → Type
  | .exists _ => Bool
  | .get _ => Option String
  | .set .. => Unit
  | .setIfAbsent .. => Bool
  | .increment _ => Int
  | .delete _ => Bool

def CacheCall.key : CacheCall → String
  | .exists key | .get key | .set key .. | .setIfAbsent key .. | .increment key | .delete key => key

structure Cache where
  entries : Registry CacheEntry
  available : Bool
  /-- Writes so far. -/
  writes : UInt64
  /-- Writes from one sweep to the next, at least one. -/
  sweepEvery : UInt64

namespace Cache

def standardSweep : UInt64 := 1024

def empty : Cache := ⟨.empty, true, 0, standardSweep⟩

def setSweepEvery (c : Cache) (n : UInt64) : Cache := { c with sweepEvery := max n 1 }

/-- The live entry under a key. -/
def live? (c : Cache) (now : Instant) (key : String) : Option CacheEntry :=
  (c.entries.get? key).filter (·.isLive now)

def ensureAvailable (c : Cache) : Except CacheError Unit :=
  if c.available then .ok () else .error (.unavailable "in-memory cache switched off")

def entry (now : Instant) (value : String) (ttl : Option Duration) : CacheEntry :=
  ⟨value, ttl.bind now.deadline⟩

/-- Drops what is past its deadline. -/
def sweep (c : Cache) (now : Instant) : Cache :=
  { c with entries := c.entries.filter fun _ e => e.isLive now }

/-- Puts an entry, counts the write and sweeps if it is time. -/
def write (c : Cache) (now : Instant) (key : String) (e : CacheEntry) : Cache :=
  let c := { c with entries := c.entries.insert key e, writes := c.writes + 1 }
  if c.writes % c.sweepEvery = 0 then c.sweep now else c

/-- The integer after the one in a text, if both have 64 bits. -/
def successor? (value : String) : Option Int :=
  match Text.counter? value with
  | none => none
  | some n => if n + 1 < (UInt64.size / 2 : Nat) then some (n + 1) else none

/-- Adds one under a key. -/
def increment (c : Cache) (now : Instant) (key : String) : Except CacheError Int × Cache :=
  match c.live? now key with
  | none => (.ok 1, c.write now key ⟨"1", none⟩)
  | some e =>
    match successor? e.value with
    | none => (.error (.notAnInteger key), c)
    | some n => (.ok n, { c with entries := c.entries.insert key { e with value := n.repr } })

/-- What a call does while the cache is available. -/
def answer (c : Cache) (now : Instant) : (call : CacheCall) → Except CacheError call.Answer × Cache
  | .exists key => (.ok (c.live? now key).isSome, c)
  | .get key => (.ok ((c.live? now key).map (·.value)), c)
  | .set key value ttl => (.ok (), c.write now key (entry now value ttl))
  | .setIfAbsent key value ttl =>
    if (c.live? now key).isSome then (.ok false, c)
    else (.ok true, c.write now key (entry now value ttl))
  | .increment key => c.increment now key
  | .delete key => (.ok (c.live? now key).isSome, { c with entries := c.entries.erase key })

/-- Answers one call. -/
def perform (c : Cache) (now : Instant) (call : CacheCall) :
    Except CacheError call.Answer × Cache :=
  match c.ensureAvailable with
  | .error e => (.error e, c)
  | .ok () => c.answer now call

/-! ## Inspection -/

/-- The time that a live key has left; none if it has no deadline. -/
def timeLeft (c : Cache) (now : Instant) (key : String) : Option Duration :=
  ((c.live? now key).bind (·.deadline)).map (· - now)

/-- How many keys are live. -/
def size (c : Cache) (now : Instant) : Nat := (c.sweep now).entries.size

/-- Drops what is past its deadline, and tells how many entries that was. -/
def purge (c : Cache) (now : Instant) : Nat × Cache :=
  (c.entries.size - (c.sweep now).entries.size, c.sweep now)

end Cache

end DurableMessaging
