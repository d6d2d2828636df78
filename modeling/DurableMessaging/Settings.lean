import DurableMessaging.Row.Document

/-!
# Settings

The tuning of senders, the resend pass and consumers, read from a JSON document in which every
field has a default, and checked before use.
-/

namespace DurableMessaging

open Json (Tree)

structure SenderSettings where
  ackPolicy : AckPolicy
  /-- Used by sends that name no exchange type. -/
  exchangeType : ExchangeType
  deriving DecidableEq, Repr

structure ResendSettings where
  /-- Milliseconds between two passes. -/
  intervalMillis : UInt64
  /-- Rows fetched at once. -/
  batchSize : UInt64
  /-- Rows younger than this many milliseconds are left alone. -/
  minAgeMillis : UInt64
  deriving DecidableEq, Repr

structure ConsumerSettings where
  /-- Workers of a queue; as many as the machine has processors if none is given. -/
  concurrency : Option UInt64
  /-- Unsettled deliveries a worker may hold. -/
  prefetch : UInt64
  /-- Failures tolerated before a message is rejected. -/
  maxRetries : UInt32
  dedupTtlSeconds : UInt64
  /-- Retry counters stay for good if none is given. -/
  retryTtlSeconds : Option UInt64
  deriving DecidableEq, Repr

structure Settings where
  sender : SenderSettings
  resend : ResendSettings
  consumer : ConsumerSettings
  deriving DecidableEq, Repr

/-- Why settings cannot be used. -/
inductive SettingsError where
  | unreadable (path reason : String)
  | malformed (reason : String)
  | invalid (reason : String)
  deriving DecidableEq, Repr

def SettingsError.message : SettingsError → String
  | .unreadable path reason => "failed to read config file " ++ path ++ ": " ++ reason
  | .malformed reason => "failed to parse config: " ++ reason
  | .invalid reason => "invalid config: " ++ reason

/-! ## Defaults -/

def SenderSettings.standard : SenderSettings := ⟨.delete, .usual⟩

def ResendSettings.standard : ResendSettings := ⟨1000, 100, 0⟩

def ConsumerSettings.standard : ConsumerSettings := ⟨none, 1, 3, 60, some 86400⟩

def Settings.standard : Settings := ⟨.standard, .standard, .standard⟩

/-! ## Derived values -/

def ResendSettings.interval (s : ResendSettings) : Duration := .ofMillis s.intervalMillis.toNat

def ResendSettings.minAge (s : ResendSettings) : Duration := .ofMillis s.minAgeMillis.toNat

def ConsumerSettings.dedupTtl (s : ConsumerSettings) : Duration := .ofSeconds s.dedupTtlSeconds.toNat

def ConsumerSettings.retryTtl (s : ConsumerSettings) : Option Duration :=
  s.retryTtlSeconds.map fun n => .ofSeconds n.toNat

/-! ## Checks -/

/-- The longest time to live that is accepted: 365 days. -/
def maxTtlSeconds : Nat := 365 * 24 * 60 * 60

def ResendSettings.check (s : ResendSettings) : Except SettingsError Unit :=
  if s.intervalMillis = 0 then .error (.invalid "scanner.interval_ms must be positive")
  else if s.batchSize = 0 then .error (.invalid "scanner.batch_size must be positive")
  else .ok ()

def ConsumerSettings.check (s : ConsumerSettings) : Except SettingsError Unit :=
  if s.concurrency = some 0 then .error (.invalid "consumer.concurrency must be positive")
  else if s.prefetch = 0 then .error (.invalid "consumer.prefetch must be positive")
  else if s.dedupTtlSeconds = 0 then .error (.invalid "consumer.dedup_ttl_secs must be positive")
  else if maxTtlSeconds < s.dedupTtlSeconds.toNat then
    .error (.invalid ("consumer.dedup_ttl_secs must be at most " ++ maxTtlSeconds.repr))
  else if s.retryTtlSeconds.any fun n => n = 0 ∨ maxTtlSeconds < n.toNat then
    .error (.invalid
      ("consumer.retry_counter_ttl_secs must be between 1 and " ++ maxTtlSeconds.repr))
  else .ok ()

def Settings.check (s : Settings) : Except SettingsError Unit := do
  s.resend.check
  s.consumer.check

/-! ## JSON -/

/-- Unknown fields are skipped and missing ones have their defaults. -/
def settingsRule : Json.RecordRule := ⟨true, true⟩

def SenderSettings.ofTree? (t : Tree) : Option SenderSettings :=
  match t.fields? settingsRule ["ack_policy", "exchange_type"] with
  | some [ackPolicy, exchangeType] => do
    some
      { ackPolicy := ← Json.fieldOr standard.ackPolicy AckPolicy.ofTree? ackPolicy
        exchangeType := ← Json.fieldOr standard.exchangeType ExchangeType.ofTree? exchangeType }
  | _ => none

def ResendSettings.ofTree? (t : Tree) : Option ResendSettings :=
  match t.fields? settingsRule ["interval_ms", "batch_size", "min_age_ms"] with
  | some [interval, batch, minAge] => do
    some
      { intervalMillis := ← Json.fieldOr standard.intervalMillis Tree.word? interval
        batchSize := ← Json.fieldOr standard.batchSize Tree.word? batch
        minAgeMillis := ← Json.fieldOr standard.minAgeMillis Tree.word? minAge }
  | _ => none

def ConsumerSettings.ofTree? (t : Tree) : Option ConsumerSettings :=
  match t.fields? settingsRule
    ["concurrency", "prefetch", "max_retries", "dedup_ttl_secs", "retry_counter_ttl_secs"] with
  | some [concurrency, prefetch, maxRetries, dedupTtl, retryTtl] => do
    some
      { concurrency := ← Json.fieldOr standard.concurrency (Tree.optional? Tree.word?) concurrency
        prefetch := ← Json.fieldOr standard.prefetch Tree.word? prefetch
        maxRetries := ← Json.fieldOr standard.maxRetries Tree.halfWord? maxRetries
        dedupTtlSeconds := ← Json.fieldOr standard.dedupTtlSeconds Tree.word? dedupTtl
        retryTtlSeconds :=
          ← Json.fieldOr standard.retryTtlSeconds (Tree.optional? Tree.word?) retryTtl }
  | _ => none

def Settings.ofTree? (t : Tree) : Option Settings :=
  match t.fields? settingsRule ["producer", "scanner", "consumer"] with
  | some [sender, resend, consumer] => do
    some
      { sender := ← Json.fieldOr standard.sender SenderSettings.ofTree? sender
        resend := ← Json.fieldOr standard.resend ResendSettings.ofTree? resend
        consumer := ← Json.fieldOr standard.consumer ConsumerSettings.ofTree? consumer }
  | _ => none

def SenderSettings.toTree (s : SenderSettings) : Tree :=
  .ofFields
    [("ack_policy", .ofText s.ackPolicy.name), ("exchange_type", .ofText s.exchangeType.name)]

def ResendSettings.toTree (s : ResendSettings) : Tree :=
  .ofFields
    [("interval_ms", .ofNat s.intervalMillis.toNat),
     ("batch_size", .ofNat s.batchSize.toNat),
     ("min_age_ms", .ofNat s.minAgeMillis.toNat)]

def ConsumerSettings.toTree (s : ConsumerSettings) : Tree :=
  .ofFields
    [("concurrency", .ofOptional (fun n => .ofNat n.toNat) s.concurrency),
     ("prefetch", .ofNat s.prefetch.toNat),
     ("max_retries", .ofNat s.maxRetries.toNat),
     ("dedup_ttl_secs", .ofNat s.dedupTtlSeconds.toNat),
     ("retry_counter_ttl_secs", .ofOptional (fun n => .ofNat n.toNat) s.retryTtlSeconds)]

def Settings.toTree (s : Settings) : Tree :=
  .ofFields
    [("producer", s.sender.toTree), ("scanner", s.resend.toTree), ("consumer", s.consumer.toTree)]

namespace Settings

/-- The JSON text of settings. -/
def text (s : Settings) : String := s.toTree.text

/-- Settings as a text gives them, unchecked. -/
def read? (text : String) : Option Settings := (Tree.read? none text).bind ofTree?

/-- Settings from a text, checked. -/
def load (text : String) : Except SettingsError Settings := do
  match read? text with
  | none => throw (.malformed "not a settings document")
  | some s =>
    s.check
    return s

end Settings

end DurableMessaging
