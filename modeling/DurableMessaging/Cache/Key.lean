/-!
# Cache keys

The keys of dedup records, retry counters and typed objects.
-/

namespace DurableMessaging.CacheKey

/-- Marks a message of a queue as processed. -/
def dedup (queue messageId : String) : String := queue ++ "_" ++ messageId

/-- Counts the failures of a message of a queue. -/
def retry (queue messageId : String) : String := "retry_" ++ queue ++ "_" ++ messageId

/-- Holds an object of a type. The name of the type follows its length in bytes, so that where it
ends does not depend on what is in it. -/
def object (typeName key : String) : String :=
  "obj:" ++ typeName.utf8ByteSize.repr ++ ":" ++ typeName ++ ":" ++ key

end DurableMessaging.CacheKey
