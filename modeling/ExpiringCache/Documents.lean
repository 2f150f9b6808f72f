import ExpiringCache.Cache.Basic
import ExpiringCache.Json.Record

/-! The documents of a cache: its configuration, and the status that a health check reports.
Each is a record with one field, written without blanks and read back by the field's reader. -/

namespace ExpiringCache

universe u

/-! ### The configuration -/

/-- The configuration of a cache. The time that entries live is given in milliseconds and
kept signed, so that a negative one is refused instead of wrapping around. -/
structure Config where
  expireAfterMs : Int
deriving DecidableEq, Repr

namespace Config

def defaultExpireAfterMs : Int := 1000

instance : Inhabited Config := ⟨⟨defaultExpireAfterMs⟩⟩

/-- The time that entries live, if it is not negative. -/
def expireAfter (c : Config) : Except Rejection Nat :=
  if c.expireAfterMs < 0 then .error (.negativeExpiry c.expireAfterMs)
  else .ok (c.expireAfterMs.toNat * Time.millisecond)

/-- The configuration as a document without blanks. -/
def json (c : Config) : String :=
  "\x7b\"expire_after_ms\":" ++ toString c.expireAfterMs ++ "\x7d"

/-- The configuration as it shows itself for debugging. -/
def debugText (c : Config) : String :=
  "CacheConfig \x7b expire_after_ms: " ++ toString c.expireAfterMs ++ " \x7d"

end Config

/-- A cache started at `now` with a configured lifetime. -/
def Cache.ofConfig {α : Type u} (c : Config) (now : Int) : Except Rejection (Cache α) :=
  c.expireAfter.map (Cache.start · now)

/-- The field of a configuration. -/
def Config.field : Json.Field Int where
  record := "CacheConfig"
  key := "expire_after_ms"
  read := Json.readInteger
  length_read_le := Json.length_readInteger_le

def Config.parse (text : String) : Except Json.Refusal Config :=
  (Json.parse Config.field text).map Config.mk

/-! ### The status -/

/-- The status that a health check reports. -/
structure HealthStatus where
  status : String
deriving DecidableEq, Repr

namespace HealthStatus

def okText : String := "ok"

def unavailableText : String := "unavailable"

def ofBool (healthy : Bool) : HealthStatus := ⟨if healthy then okText else unavailableText⟩

/-- The status as a document without blanks. -/
def json (h : HealthStatus) : String := "\x7b\"status\":" ++ Json.quote h.status ++ "\x7d"

end HealthStatus

/-- The field of a health status. -/
def HealthStatus.field : Json.Field String where
  record := "Healthz"
  key := "status"
  read := Json.readString
  length_read_le := Json.length_readString_le

def HealthStatus.parse (text : String) : Except Json.Refusal HealthStatus :=
  (Json.parse HealthStatus.field text).map HealthStatus.mk

end ExpiringCache
