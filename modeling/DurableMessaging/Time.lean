/-!
# Time

Instants and durations are counted in nanoseconds. An instant's seconds fit a signed 64-bit word.
-/

namespace DurableMessaging

/-- Nanoseconds on the clock of a deployment. -/
abbrev Instant := Nat

/-- Nanoseconds between two instants. -/
abbrev Duration := Nat

/-- Nanoseconds since the epoch, negative before it. -/
abbrev Timestamp := Int

namespace Duration

def second : Duration := 1_000_000_000

def millisecond : Duration := 1_000_000

def ofSeconds (n : Nat) : Duration := n * second

def ofMillis (n : Nat) : Duration := n * millisecond

/-- Whole seconds, a part of one counted as one. -/
def secondsUp (d : Duration) : Nat := (d + (second - 1)) / second

end Duration

/-- The first instant that is too far away to be represented. -/
def Instant.limit : Nat := UInt64.size / 2 * Duration.second

/-- When a time to live ends. It never does if the end cannot be represented. -/
def Instant.deadline (now : Instant) (ttl : Duration) : Option Instant :=
  if now + ttl < Instant.limit then some (now + ttl) else none

/-- The time passed since a timestamp; none has passed since one in the future. -/
def Timestamp.age (created : Timestamp) (now : Instant) : Duration := ((now : Int) - created).toNat

end DurableMessaging
