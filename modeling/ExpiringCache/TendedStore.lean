import ExpiringCache.Sweeper

/-! A store used directly, on a clock and perhaps with a sweeper that tends it. The
sweeper gets its turn when the clock has moved and when a purge is asked of it. -/

namespace ExpiringCache

universe u

variable {α : Type u}

structure TendedStore (α : Type u) where
  clock : Int
  store : Store α
  sweeper : Option Sweeper
  journal : List Event
deriving DecidableEq

/-- A poisoned write is one whose writer dies with the lock in its hands. An instant to
look at that is left out is the current one. -/
inductive StoreStep (α : Type u) where
  | insert (key : String) (v : α) (expiresAt : Int)
  | insertAfter (key : String) (v : α) (after : Nat)
  | poison (key : String) (v : α) (expiresAt : Int)
  | look (key : String) (at? : Option Int)
  | purge (p : Purge)
  | mark (at? : Option Int)
  | isEmpty
  | clear
  | dump
  | advance (d : Nat)
  | schedule (p : Purge)
  | running
  | interval
  | debug
  | stop
deriving DecidableEq, Repr

inductive StoreReply (α : Type u) where
  | done
  | instant (t : Int)
  | duration (d : Nat)
  | truth (b : Bool)
  | looked (f : Finding α)
  | marked (ps : List Purge)
  | dumped (bs : List (String × Entry α))
  | text (s : String)
  | stopped
  | refused (e : Rejection)
deriving DecidableEq, Repr

namespace TendedStore

/-- An empty store, with a sweeper if an interval is given. -/
def start (interval : Option Nat) (now : Int) : TendedStore α where
  clock := now
  store := .empty
  sweeper := interval.map fun i => .start i now
  journal := interval.toList.map .sweeperStarted

/-- The sweeper's turn. -/
def settle (t : TendedStore α) : TendedStore α :=
  match t.sweeper with
  | none => t
  | some w =>
    let (w, store) := w.settle t.store t.clock
    { t with sweeper := some w, store }

def insert (t : TendedStore α) (key : String) (v : α) (expiresAt : Int) : TendedStore α :=
  { t with store := t.store.insert key ⟨v, expiresAt⟩ }

/-- One step of a store that a sweeper tends. -/
def tend (t : TendedStore α) (w : Sweeper) : StoreStep α → Option (StoreReply α × TendedStore α)
  | .schedule p =>
    let (w, events) := w.schedule p
    some (.done, { t with sweeper := some w, journal := t.journal ++ events }.settle)
  | .running => some (.truth w.running, t)
  | .interval => some (.duration w.interval, t)
  | .debug => some (.text w.debugText, t)
  | .stop =>
    match w.stop t.store t.clock with
    | .ok (w, store) =>
      some (.stopped,
        { t with sweeper := some w, store, journal := t.journal ++ [.sweeperStopped] })
    | .error e => some (.refused e, t)
  | _ => none

/-- One step; those that concern a sweeper have no answer where there is none. -/
def step (t : TendedStore α) : StoreStep α → Option (StoreReply α × TendedStore α)
  | .insert key v e => some (.done, t.insert key v e)
  | .insertAfter key v after =>
    let e := Time.deadline t.clock after
    some (.instant e, t.insert key v e)
  | .poison key v e => some (.truth true, t.insert key v e)
  | .look key at? => some (.looked (t.store.look key (at?.getD t.clock)), t)
  | .purge p =>
    some (.truth (t.store.target? p).isSome, { t with store := t.store.purge p })
  | .mark at? => some (.marked (t.store.mark (at?.getD t.clock)), t)
  | .isEmpty => some (.truth t.store.isEmpty, t)
  | .clear => some (.done, { t with store := .empty })
  | .dump => some (.dumped t.store.bindings, t)
  | .advance d => some (.done, { t with clock := t.clock + d }.settle)
  | s => t.sweeper.bind (t.tend · s)

/-- The replies of a run with the sizes after the steps, and the store it leaves. -/
def run (t : TendedStore α) :
    List (StoreStep α) → Option (List (StoreReply α × Nat) × TendedStore α)
  | [] => some ([], t)
  | s :: ss => do
    let (r, t) ← t.step s
    let (rs, last) ← t.run ss
    return ((r, t.store.size) :: rs, last)

end TendedStore

end ExpiringCache
