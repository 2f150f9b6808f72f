import ExpiringCache.Text.Duration

/-! What a cache says: the events that it reports while it works, each with its level and its
wording, and the ways in which it refuses what it is asked for. -/

namespace ExpiringCache

inductive Level where
  | trace
  | debug
  | info
  | error
deriving DecidableEq, Repr

/-- The name of a level as it is written in a log. -/
def Level.label : Level → String
  | .trace => "TRACE"
  | .debug => "DEBUG"
  | .info => "INFO"
  | .error => "ERROR"

inductive Event where
  | sweeperStarted (interval : Nat)
  | sweeperStopped
  | purgeDropped (key : String)
  | sweptExpired (count : Nat)
  | keyPurged (key : String)
  | shutdownRequested
  | queueClosed
  | checkFailed (reason : String)
deriving DecidableEq, Repr

def Event.level : Event → Level
  | .sweeperStarted _ | .sweeperStopped | .shutdownRequested => .info
  | .sweptExpired _ | .keyPurged _ | .queueClosed => .debug
  | .purgeDropped _ => .trace
  | .checkFailed _ => .error

def Event.message : Event → String
  | .sweeperStarted interval => "starting sweeper, interval: " ++ Text.durationText interval
  | .sweeperStopped => "sweeper stopped"
  | .purgeDropped key => "sweeper stopped, purge of " ++ key ++ " not scheduled"
  | .sweptExpired count => "sweep purged " ++ toString count ++ " expired entries"
  | .keyPurged key => "purged expired key: " ++ key
  | .shutdownRequested => "sweeper shutdown requested"
  | .queueClosed => "sweeper request channel closed"
  | .checkFailed reason => "health probe failed: " ++ reason

inductive Rejection where
  | negativeExpiry (ms : Int)
  | alreadyStopped
deriving DecidableEq, Repr

namespace Rejection

/-- The name by which callers tell the errors apart. -/
def label : Rejection → String
  | negativeExpiry _ => "InvalidDuration"
  | alreadyStopped => "AlreadyStopped"

/-- The label with what it applies to. -/
def debugText : Rejection → String
  | negativeExpiry ms => "InvalidDuration(" ++ toString ms ++ ")"
  | alreadyStopped => "AlreadyStopped"

def message : Rejection → String
  | negativeExpiry ms =>
    "expire_after duration cannot be negative, got " ++ toString ms ++ "ms"
  | alreadyStopped => "the background sweeper has already been stopped"

end Rejection

end ExpiringCache
