import ExpiringCache.Sweeper

/-! A cache whose entries live for a fixed time. A value that is looked up is returned
while its entry lives; an expired entry counts as absent and its removal is asked of the
sweeper. Loading is a lookup that fills the gap: on a miss the caller takes the lock,
looks again, and runs its loader if the key is still absent. The lookup without the lock
(`lookup`), the section under it (`lockedLoad`) and the sweeper's turn (`settle`) are
separate steps here, since other callers may come between them. -/

namespace ExpiringCache

universe u

variable {α : Type u}

/-- How a loader ends: with a value, with an error, or by a panic. -/
inductive Outcome (α : Type u) where
  | value (v : α)
  | failure (reason : String)
  | panic (reason : String)
deriving DecidableEq, Repr

/-- The outcome of a loader and the time it takes to get there. -/
structure Loader (α : Type u) where
  cost : Nat
  outcome : Outcome α
deriving DecidableEq, Repr

/-- Things taken in turn, the last of them over and over. -/
structure Script (β : Type u) where
  first : β
  rest : List β
deriving DecidableEq, Repr

namespace Script

variable {β : Type u}

/-- The script of a list, with a default for the empty one. -/
def ofListD (d : β) : List β → Script β
  | [] => ⟨d, []⟩
  | b :: bs => ⟨b, bs⟩

/-- What is taken the `i`-th time, counted from zero. -/
def nth (s : Script β) (i : Nat) : β := (s.first :: s.rest).getD i (s.rest.getLastD s.first)

end Script

/-- What a load hands to its caller, and whether the loader ran for it. -/
structure Loaded (α : Type u) where
  outcome : Outcome α
  ran : Bool
deriving DecidableEq, Repr

/-- The journal holds what the callers reported, oldest first. -/
structure Cache (α : Type u) where
  ttl : Nat
  clock : Int
  store : Store α
  sweeper : Sweeper
  journal : List Event
deriving DecidableEq

namespace Cache

/-- An empty cache, its sweeper started at `now`. -/
def start (ttl : Nat) (now : Int) : Cache α where
  ttl := ttl
  clock := now
  store := .empty
  sweeper := .start (Sweeper.intervalFor ttl) now
  journal := [.sweeperStarted (Sweeper.intervalFor ttl)]

/-- The number of entries, those expired but not yet removed included. -/
def size (c : Cache α) : Nat := c.store.size

def isEmpty (c : Cache α) : Bool := c.store.isEmpty

/-- Asks the sweeper for a purge. -/
def schedule (c : Cache α) (p : Purge) : Cache α :=
  let (sweeper, events) := c.sweeper.schedule p
  { c with sweeper, journal := c.journal ++ events }

/-- Looks a key up without the lock. An expired entry is a miss, and a purge of it is
asked for. -/
def lookup (c : Cache α) (key : String) : Option α × Cache α :=
  match c.store.look key c.clock with
  | .live v => (some v, c)
  | .expired e => (none, c.schedule ⟨key, e⟩)
  | .absent => (none, c)

/-- Puts an entry in with an expiry that was settled beforehand. -/
def write (c : Cache α) (key : String) (v : α) (expiresAt : Int) : Cache α :=
  { c with store := c.store.insert key ⟨v, expiresAt⟩ }

/-- The expiry of an entry made now. -/
def expiry (c : Cache α) : Int := Time.deadline c.clock c.ttl

def set (c : Cache α) (key : String) (v : α) : Cache α := c.write key v c.expiry

def clear (c : Cache α) : Cache α := { c with store := .empty }

def advance (c : Cache α) (d : Nat) : Cache α := { c with clock := c.clock + d }

/-- The section of a load that runs under the lock: looks again, and on a miss runs the
loader and stores the value it returns. The value lives from the end of the loader. -/
def lockedLoad (c : Cache α) (key : String) (l : Loader α) : Loaded α × Cache α :=
  match c.store.look key c.clock with
  | .live v => (⟨.value v, false⟩, c)
  | _ =>
    let c := c.advance l.cost
    match l.outcome with
    | .value v => (⟨.value v, true⟩, c.set key v)
    | outcome => (⟨outcome, true⟩, c)

/-- Returns the value of a key, and runs the loader for it if there is none. -/
def load (c : Cache α) (key : String) (l : Loader α) : Loaded α × Cache α :=
  match c.lookup key with
  | (some v, c) => (⟨.value v, false⟩, c)
  | (none, c) => c.lockedLoad key l

/-- The sweeper's turn: it runs until it has nothing left to do. -/
def settle (c : Cache α) : Cache α :=
  let (sweeper, store) := c.sweeper.settle c.store c.clock
  { c with sweeper, store }

/-- Stops the sweeper. Lookups, loads and writes go on working. -/
def stop (c : Cache α) : Except Rejection (Cache α) := do
  let (sweeper, store) ← c.sweeper.stop c.store c.clock
  return { c with sweeper, store, journal := c.journal ++ [.sweeperStopped] }

end Cache

end ExpiringCache
