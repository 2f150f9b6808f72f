import ExpiringCache.Event
import ExpiringCache.Store.Lemmas

/-! The loop that a sweeper runs in the background. Each round sweeps if a sweep is due and
otherwise takes one command from the queue, so a long queue cannot hold a sweep back. A
removal may take time; the instant of a sweep and the list of what it removes are fixed
before it starts. The loop ends at a shutdown, or once the queue is empty and nobody can
add to it. It goes round for ever only if a sweep finds nothing to remove and the next
one is due at once, and then `run` has no result. -/

namespace ExpiringCache

universe u

variable {α : Type u}

inductive Request where
  | purge (p : Purge)
  | shutdown
deriving DecidableEq, Repr

/-- The state between two rounds. -/
structure Worker (α : Type u) where
  interval : Nat
  store : Store α
  clock : Int
  nextSweep : Int
  queue : List Request
deriving DecidableEq

/-- What one round did: the instant of a sweep with the bindings it removed, a purge with
the entry it removed, or the end of the loop. -/
inductive Round (α : Type u) where
  | swept (instant : Int) (removed : List (String × Entry α))
  | purged (p : Purge) (removed : Option (Entry α))
  | shutdown
  | closed
deriving DecidableEq, Repr

/-- What a round reports; a sweep or a purge that removed nothing goes unmentioned. -/
def Round.events : Round α → List Event
  | .swept _ [] => []
  | .swept _ removed => [.sweptExpired removed.length]
  | .purged _ none => []
  | .purged p (some _) => [.keyPurged p.key]
  | .shutdown => [.shutdownRequested]
  | .closed => [.queueClosed]

namespace Worker

/-- A worker that starts at `now`, its first sweep one interval away. -/
def start (interval : Nat) (store : Store α) (now : Int) (queue : List Request) :
    Worker α where
  interval := interval
  store := store
  clock := now
  nextSweep := Time.deadline now interval
  queue := queue

/-- A sweep is due. -/
def isDue (w : Worker α) : Bool := w.nextSweep ≤ w.clock

/-- The time that removing these bindings takes, when removing an entry takes the time
that `cost` gives for its value. -/
def removalTime (cost : α → Nat) (removed : List (String × Entry α)) : Nat :=
  removed.foldr (fun b time => cost b.2.value + time) 0

/-- The round that sweeps. -/
def sweep (cost : α → Nat) (w : Worker α) : Round α × Worker α :=
  let (removed, store) := w.store.sweep w.clock
  (.swept w.clock removed,
    { w with
      store
      clock := w.clock + removalTime cost removed
      nextSweep := Time.deadline w.clock w.interval })

/-- The round that carries out a purge, the commands after it left in the queue. -/
def purge (cost : α → Nat) (w : Worker α) (p : Purge) (rest : List Request) :
    Round α × Worker α :=
  let removed := w.store.target? p
  (.purged p removed,
    { w with
      store := w.store.purge p
      clock := w.clock + (removed.map fun e => cost e.value).getD 0
      queue := rest })

/-- A sweep is due, finds nothing to remove, and leaves the next one due at once. -/
def spins (cost : α → Nat) (w : Worker α) : Bool :=
  w.isDue && (w.store.sweep w.clock).1.isEmpty && (w.sweep cost).2.isDue

/-- The commands and entries left, and the sweep that may be due without any of them. -/
def remaining (w : Worker α) : Nat :=
  2 * (w.queue.length + w.store.size) + w.isDue.toNat

theorem remaining_sweep_lt (cost : α → Nat) {w : Worker α} (hdue : w.isDue = true)
    (hspin : w.spins cost = false) : (w.sweep cost).2.remaining < w.remaining := by
  have hsize := w.store.size_purgeEach (w.store.mark w.clock)
  simp only [spins, hdue, Bool.true_and, Bool.and_eq_false_iff] at hspin
  simp only [remaining, hdue, Bool.toNat_true]
  have hq : (w.sweep cost).2.queue = w.queue := rfl
  have hs : (w.sweep cost).2.store = (w.store.purgeEach (w.store.mark w.clock)).2 := rfl
  rw [hq, hs]
  rcases hspin with hremoved | hlater
  · have : 0 < (w.store.purgeEach (w.store.mark w.clock)).1.length :=
      List.length_pos_iff.2 (by simpa [Store.sweep] using hremoved)
    have := Bool.toNat_le (w.sweep cost).2.isDue
    omega
  · rw [hlater, Bool.toNat_false]
    omega

theorem remaining_purge_lt (cost : α → Nat) {w : Worker α} {p : Purge} {rest : List Request}
    (hqueue : w.queue = .purge p :: rest) : (w.purge cost p rest).2.remaining < w.remaining := by
  have hsize := w.store.size_purge p
  have := Bool.toNat_le (w.purge cost p rest).2.isDue
  have hq : (w.purge cost p rest).2.queue = rest := rfl
  have hs : (w.purge cost p rest).2.store = w.store.purge p := rfl
  simp only [remaining, hqueue, hq, hs, List.length_cons]
  omega

/-- The rounds until the loop ends, and the state it ends in. -/
def run (cost : α → Nat) (w : Worker α) : Option (List (Round α) × Worker α) :=
  if w.isDue then
    if w.spins cost then none
    else (run cost (w.sweep cost).2).map fun r => ((w.sweep cost).1 :: r.1, r.2)
  else
    match _ : w.queue with
    | [] => some ([.closed], w)
    | .shutdown :: rest => some ([.shutdown], { w with queue := rest })
    | .purge p :: rest =>
      (run cost (w.purge cost p rest).2).map fun r => ((w.purge cost p rest).1 :: r.1, r.2)
termination_by w.remaining
decreasing_by
  · exact remaining_sweep_lt cost ‹_› (by simpa using ‹¬w.spins cost = true›)
  · exact remaining_purge_lt cost ‹_›

theorem run_of_due {cost : α → Nat} {w : Worker α} (hdue : w.isDue = true)
    (hspin : w.spins cost = false) : w.run cost =
      (run cost (w.sweep cost).2).map fun r => ((w.sweep cost).1 :: r.1, r.2) := by
  rw [run, if_pos hdue, if_neg (by simp [hspin])]

theorem run_of_queue_nil (cost : α → Nat) {w : Worker α} (hdue : w.isDue = false)
    (hqueue : w.queue = []) : w.run cost = some ([.closed], w) := by
  obtain ⟨interval, store, clock, nextSweep, queue⟩ := w
  subst hqueue
  rw [run, if_neg (by simp [hdue])]

theorem run_of_queue_shutdown (cost : α → Nat) {w : Worker α} {rest : List Request}
    (hdue : w.isDue = false) (hqueue : w.queue = .shutdown :: rest) :
    w.run cost = some ([.shutdown], { w with queue := rest }) := by
  obtain ⟨interval, store, clock, nextSweep, queue⟩ := w
  subst hqueue
  rw [run, if_neg (by simp [hdue])]

theorem run_of_queue_purge (cost : α → Nat) {w : Worker α} {p : Purge} {rest : List Request}
    (hdue : w.isDue = false) (hqueue : w.queue = .purge p :: rest) : w.run cost =
      (run cost (w.purge cost p rest).2).map fun r => ((w.purge cost p rest).1 :: r.1, r.2) := by
  obtain ⟨interval, store, clock, nextSweep, queue⟩ := w
  subst hqueue
  rw [run, if_neg (by simp [hdue])]

/-- What the rounds report, in order. -/
def events (rounds : List (Round α)) : List Event := rounds.flatMap Round.events

end Worker

end ExpiringCache
