import ExpiringCache.Documents

/-! A health check remembers the outcome of its probe for the lifetime of a cache entry
and runs the probe again only after that. Success and failure are both remembered, a
panic is not. -/

namespace ExpiringCache

/-- The probe is a script of runs; `runs` counts those made so far. -/
structure HealthMonitor where
  memo : Cache Bool
  probe : Script (Loader Unit)
  runs : Nat
  journal : List Event
deriving DecidableEq

inductive MonitorStep where
  | check
  | status
  | json
  | advance (d : Nat)
  | stop
deriving DecidableEq, Repr

inductive MonitorReply where
  | healthy (b : Bool)
  | status (h : HealthStatus)
  | json (text : String)
  | panicked (reason : String)
  | advanced
  | stopped
  | refused (e : Rejection)
deriving DecidableEq, Repr

namespace HealthMonitor

/-- The key that the outcome is remembered under. -/
def memoKey : String := "healthz"

def start (ttl : Nat) (probe : Script (Loader Unit)) (now : Int) : HealthMonitor where
  memo := .start ttl now
  probe := probe
  runs := 0
  journal := []

def ofConfig (c : Config) (probe : Script (Loader Unit)) (now : Int) :
    Except Rejection HealthMonitor :=
  c.expireAfter.map (start · probe now)

/-- What a run of the probe says about the health: a failure is an answer too. -/
def verdict : Outcome Unit → Outcome Bool
  | .value () => .value true
  | .failure _ => .value false
  | .panic reason => .panic reason

/-- What a run of the probe reports. -/
def report : Outcome Unit → List Event
  | .failure reason => [.checkFailed reason]
  | _ => []

/-- Whether the probe succeeded, remembered or run now; else the panic it ended by. -/
def check (h : HealthMonitor) : Except String Bool × HealthMonitor :=
  let attempt := h.probe.nth h.runs
  let (loaded, memo) := h.memo.load memoKey ⟨attempt.cost, verdict attempt.outcome⟩
  let h :=
    if loaded.ran then
      { h with memo, runs := h.runs + 1, journal := h.journal ++ report attempt.outcome }
    else { h with memo }
  match loaded.outcome with
  | .value b => (.ok b, h)
  | .failure reason | .panic reason => (.error reason, h)

/-- One check, its result put in the form that was asked for. -/
def checkAs (h : HealthMonitor) (form : Bool → MonitorReply) : MonitorReply × HealthMonitor :=
  match h.check with
  | (.ok b, h) => (form b, h)
  | (.error reason, h) => (.panicked reason, h)

/-- One step, before the sweeper gets its turn. -/
def perform (h : HealthMonitor) : MonitorStep → MonitorReply × HealthMonitor
  | .check => h.checkAs .healthy
  | .status => h.checkAs fun b => .status (.ofBool b)
  | .json => h.checkAs fun b => .json (HealthStatus.ofBool b).json
  | .advance d => (.advanced, { h with memo := h.memo.advance d })
  | .stop =>
    match h.memo.stop with
    | .ok memo => (.stopped, { h with memo })
    | .error e => (.refused e, h)

def step (h : HealthMonitor) (s : MonitorStep) : MonitorReply × HealthMonitor :=
  let (r, h) := h.perform s
  (r, { h with memo := h.memo.settle })

/-- The replies of a sequence of steps, each with the number of runs of the probe after
it, and the health check they leave. -/
def run (h : HealthMonitor) : List MonitorStep → List (MonitorReply × Nat) × HealthMonitor
  | [] => ([], h)
  | s :: ss =>
    let (r, h) := h.step s
    let (rs, last) := h.run ss
    ((r, h.runs) :: rs, last)

end HealthMonitor

end ExpiringCache
