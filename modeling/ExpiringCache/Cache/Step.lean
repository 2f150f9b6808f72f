import ExpiringCache.Cache.Race

/-! The steps of a run of a cache, with what each answers. After every step the sweeper
runs until it has nothing left to do at the clock. -/

namespace ExpiringCache

universe u

variable {α : Type u}

/-- A call that any thread can make. -/
inductive Call (α : Type u) where
  | set (key : String) (v : α)
  | get (key : String)
  | clear
  | size
deriving DecidableEq, Repr

inductive Answer (α : Type u) where
  | done
  | found (v : Option α)
  | count (n : Nat)
deriving DecidableEq, Repr

/-- A load may come with a call that another thread makes while the loader holds the
lock. -/
inductive Step (α : Type u) where
  | call (x : Call α)
  | load (key : String) (l : Loader α) (during : Option (Call α))
  | race (key : String) (callers : Nat) (script : Script (Loader α))
  | advance (d : Nat)
  | isEmpty
  | stop
deriving DecidableEq, Repr

inductive Reply (α : Type u) where
  | answered (a : Answer α)
  | loaded (l : Loaded α) (during : Option (Answer α))
  | raced (r : Raced α)
  | advanced
  | empty (b : Bool)
  | stopped
  | refused (e : Rejection)
deriving DecidableEq, Repr

namespace Cache

def call (c : Cache α) : Call α → Answer α × Cache α
  | .set key v => (.done, c.set key v)
  | .get key => let (v, c) := c.lookup key; (.found v, c)
  | .clear => (.done, c.clear)
  | .size => (.count c.size, c)

/-- A call by another thread, which keeps a journal of its own. -/
def callElsewhere (c : Cache α) (x : Call α) : Answer α × Cache α :=
  let (a, after) := c.call x
  (a, { after with journal := c.journal })

/-- A load during which another thread makes a call, just before the loader is done. The call
waits for the lock, so it takes effect once the load is over, at the same clock; it is not
made if the loader does not run. -/
def loadDuring (c : Cache α) (key : String) (l : Loader α) :
    Option (Call α) → (Loaded α × Option (Answer α)) × Cache α
  | none => let (r, c) := c.load key l; ((r, none), c)
  | some x =>
    let (r, after) := c.load key l
    if r.ran then let (a, last) := after.callElsewhere x; ((r, some a), last)
    else ((r, none), after)

/-- One step, before the sweeper gets its turn. -/
def perform (c : Cache α) : Step α → Reply α × Cache α
  | .call x => let (a, c) := c.call x; (.answered a, c)
  | .load key l during => let ((r, a), c) := c.loadDuring key l during; (.loaded r a, c)
  | .race key n script => let (r, c) := c.race key n script; (.raced r, c)
  | .advance d => (.advanced, c.advance d)
  | .isEmpty => (.empty c.isEmpty, c)
  | .stop =>
    match c.stop with
    | .ok c => (.stopped, c)
    | .error e => (.refused e, c)

/-- One step, the sweeper run until it has nothing left to do. -/
def step (c : Cache α) (s : Step α) : Reply α × Cache α :=
  let (r, c) := c.perform s
  (r, c.settle)

/-- The replies of a run with the sizes after the steps, and the cache it leaves. -/
def run (c : Cache α) : List (Step α) → List (Reply α × Nat) × Cache α
  | [] => ([], c)
  | s :: ss =>
    let (r, c) := c.step s
    let (rs, last) := c.run ss
    ((r, c.size) :: rs, last)

end Cache

end ExpiringCache
