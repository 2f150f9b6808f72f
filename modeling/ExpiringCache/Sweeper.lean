import ExpiringCache.Event
import ExpiringCache.Store.Lemmas

/-! The sweeper that belongs to a cache, seen at the moments when it has nothing left to
do. It keeps the instant of its next sweep and a queue of purges. Settling at an instant
sweeps once if a sweep is due, counts the interval to the next one from the sweep itself,
and carries out the queue (`settle`). Once stopped it removes nothing more and takes no
requests. -/

namespace ExpiringCache

universe u

variable {α : Type u}

structure Sweeper where
  interval : Nat
  nextSweep : Int
  queue : List Purge
  running : Bool
deriving DecidableEq, Repr

namespace Sweeper

/-- The interval for a half lifetime that comes to nothing. -/
def shortestInterval : Nat := Time.second

/-- The longest time between two sweeps, however long entries live. -/
def longestInterval : Nat := 60 * 60 * Time.second

/-- Half of the lifetime of an entry, within bounds. -/
def intervalFor (ttl : Nat) : Nat :=
  if ttl / 2 = 0 then shortestInterval else min (ttl / 2) longestInterval

theorem intervalFor_pos (ttl : Nat) : 0 < intervalFor ttl := by
  unfold intervalFor shortestInterval longestInterval Time.second
  split <;> omega

theorem intervalFor_le (ttl : Nat) : intervalFor ttl ≤ longestInterval := by
  unfold intervalFor shortestInterval longestInterval Time.second
  split <;> omega

theorem intervalFor_le_half {ttl : Nat} (h : 2 ≤ ttl) : intervalFor ttl ≤ ttl / 2 := by
  unfold intervalFor
  split <;> omega

/-- A sweeper started at `now`, its first sweep one interval away. -/
def start (interval : Nat) (now : Int) : Sweeper where
  interval := interval
  nextSweep := Time.deadline now interval
  queue := []
  running := true

/-- Queues a purge; a stopped sweeper drops it and says so. -/
def schedule (w : Sweeper) (p : Purge) : Sweeper × List Event :=
  if w.running then ({ w with queue := w.queue ++ [p] }, []) else (w, [.purgeDropped p.key])

/-- Runs until there is nothing left to do at `now`. -/
def settle (w : Sweeper) (s : Store α) (now : Int) : Sweeper × Store α :=
  if w.running then
    if w.nextSweep ≤ now then
      ({ w with nextSweep := Time.deadline now w.interval, queue := [] },
        ((s.sweep now).2.purgeEach w.queue).2)
    else ({ w with queue := [] }, (s.purgeEach w.queue).2)
  else (w, s)

theorem settle_of_stopped {w : Sweeper} (h : w.running = false) (s : Store α) (now : Int) :
    w.settle s now = (w, s) := by simp [settle, h]

/-- A sweeper that settles empties its queue, and it counts the interval to the next sweep from
the sweep that it makes. -/
theorem fst_settle {w : Sweeper} (h : w.running = true) (s : Store α) (now : Int) :
    (w.settle s now).1 =
      { w with
        nextSweep := if w.nextSweep ≤ now then Time.deadline now w.interval else w.nextSweep
        queue := [] } := by
  by_cases hdue : w.nextSweep ≤ now <;> simp [settle, h, hdue]

/-- A sweeper that settles leaves the entries that it has no purge for and, if a sweep is
due, that have not expired. -/
theorem find?_settle {w : Sweeper} (h : w.running = true) (s : Store α) (now : Int)
    (k : String) : (w.settle s now).2.find? k = (s.find? k).filter fun e =>
      ⟨k, e.expiresAt⟩ ∉ w.queue ∧ (w.nextSweep ≤ now → now ≤ e.expiresAt) := by
  rw [settle, if_pos h]
  split
  · rename_i hdue
    rw [Store.find?_purgeEach, Store.sweep_eq, Store.find?_filter]
    cases s.find? k with
    | none => rfl
    | some e =>
      by_cases he : e.expiresAt < now
      · simp [Entry.isExpired, he, hdue, Int.not_le.2 he, Option.filter]
      · simp [Entry.isExpired, he, hdue, Int.not_lt.1 he, Option.filter]
  · rename_i hdue
    rw [Store.find?_purgeEach]
    cases s.find? k <;> simp [Option.filter, hdue]

/-- Lets the sweeper finish what it has to do at `now` and halts it. -/
def stop (w : Sweeper) (s : Store α) (now : Int) : Except Rejection (Sweeper × Store α) :=
  if w.running then
    let settled := w.settle s now
    .ok ({ settled.1 with running := false }, settled.2)
  else .error .alreadyStopped

/-- A sweeper as it shows itself for debugging. -/
def debugText (w : Sweeper) : String :=
  "Sweeper \x7b interval: " ++ Text.durationText w.interval ++ ", running: " ++
    toString w.running ++ " \x7d"

end Sweeper

end ExpiringCache
