import ExpiringCache.Proofs.Tokens

/-! The schedule of a run of steps, in which the sweeper has its turn after every step, as
one of the interleavings: the moves that it is made of (`Cache.moves`) lead to the same
cache, journals apart (`mute_run_moves`). A race is lookups and then sections under the
lock. A call held up by a load comes after it. A turn of the sweeper is at most one sweep
and then its queue. -/

namespace ExpiringCache

universe u

variable {α : Type u}

namespace Cache

/-! ### Journals decide nothing -/

/-- The cache with an empty journal. -/
def mute (c : Cache α) : Cache α := { c with journal := [] }

theorem mute_lookup (c : Cache α) (k : String) :
    (c.mute.lookup k).1 = (c.lookup k).1 ∧
      (c.mute.lookup k).2.mute = (c.lookup k).2.mute := by
  have hlook : c.mute.store.look k c.mute.clock = c.store.look k c.clock := rfl
  simp only [lookup, hlook]
  cases c.store.look k c.clock with
  | live v => exact ⟨rfl, rfl⟩
  | absent => exact ⟨rfl, rfl⟩
  | expired e => exact ⟨rfl, rfl⟩

theorem mute_lockedLoad (c : Cache α) (k : String) (l : Loader α) :
    (c.mute.lockedLoad k l).1 = (c.lockedLoad k l).1 ∧
      (c.mute.lockedLoad k l).2.mute = (c.lockedLoad k l).2.mute := by
  have hmute : c.mute.live k = c.live k := rfl
  cases hlive : c.live k with
  | some e =>
    rw [lockedLoad_of_live_eq_some l hlive, lockedLoad_of_live_eq_some l (hmute.trans hlive)]
    exact ⟨rfl, rfl⟩
  | none =>
    rw [lockedLoad_of_live_eq_none l hlive, lockedLoad_of_live_eq_none l (hmute.trans hlive)]
    cases l.outcome <;> exact ⟨rfl, rfl⟩

/-- What does not read journals does the same to caches that differ in nothing else. -/
theorem mute_congr (f : Cache α → Cache α) (hf : ∀ c, (f c.mute).mute = (f c).mute)
    {c d : Cache α} (h : c.mute = d.mute) : (f c).mute = (f d).mute := by
  rw [← hf c, ← hf d, h]

theorem lockedLoad_congr {c d : Cache α} (h : c.mute = d.mute) (k : String) (l : Loader α) :
    (c.lockedLoad k l).1 = (d.lockedLoad k l).1 ∧
      (c.lockedLoad k l).2.mute = (d.lockedLoad k l).2.mute := by
  have hc := c.mute_lockedLoad k l
  have hd := d.mute_lockedLoad k l
  exact ⟨hc.1.symm.trans (h ▸ hd.1), hc.2.symm.trans (h ▸ hd.2)⟩

theorem lookup_congr {c d : Cache α} (h : c.mute = d.mute) (k : String) :
    (c.lookup k).1 = (d.lookup k).1 ∧ (c.lookup k).2.mute = (d.lookup k).2.mute := by
  have hc := c.mute_lookup k
  have hd := d.mute_lookup k
  exact ⟨hc.1.symm.trans (h ▸ hd.1), hc.2.symm.trans (h ▸ hd.2)⟩

theorem act_congr {c d : Cache α} (h : c.mute = d.mute) (a : Act α) :
    (c.act a).2.mute = (d.act a).2.mute := by
  cases a with
  | set k v => exact mute_congr (·.set k v) (fun _ => rfl) h
  | lookup k => exact (lookup_congr h k).2
  | load k l =>
    simp only [act, load_eq_lockedLoad]
    exact (lockedLoad_congr (lookup_congr h k).2 k l).2
  | lockedLoad k l => exact (lockedLoad_congr h k l).2
  | clear => exact mute_congr clear (fun _ => rfl) h
  | advance n => exact mute_congr (·.advance n) (fun _ => rfl) h

/-! ### The acts of a step -/

def actAll (c : Cache α) (as : List (Act α)) : Cache α := as.foldl (fun c a => (c.act a).2) c

theorem actAll_append (c : Cache α) (as bs : List (Act α)) :
    c.actAll (as ++ bs) = (c.actAll as).actAll bs := List.foldl_append

theorem actAll_congr {c d : Cache α} (h : c.mute = d.mute) (as : List (Act α)) :
    (c.actAll as).mute = (d.actAll as).mute := by
  induction as generalizing c d with
  | nil => exact h
  | cons a as ih => exact ih (act_congr h a)

end Cache

def Call.acts : Call α → List (Act α)
  | .set k v => [.set k v]
  | .get k => [.lookup k]
  | .clear => [.clear]
  | .size => []

namespace Cache

/-- The sections under the lock of `n` callers in turn. -/
def lockedActs (c : Cache α) (k : String) (script : Script (Loader α)) (runs : Nat) :
    Nat → List (Act α)
  | 0 => []
  | n + 1 =>
    let first := c.lockedLoad k (script.nth runs)
    .lockedLoad k (script.nth runs) ::
      first.2.lockedActs k script (if first.1.ran then runs + 1 else runs) n

/-- What the callers do in one step. To stop the sweeper is no act of theirs. A call that a
load holds up comes after it. -/
def acts (c : Cache α) : Step α → List (Act α)
  | .call x => x.acts
  | .load k l none => [.load k l]
  | .load k l (some x) => .load k l :: if (c.load k l).1.ran then x.acts else []
  | .race k n script =>
    List.replicate n (.lookup k) ++
      match (c.lookup k).1 with
      | some _ => []
      | none => { c.lookupBy k n with journal := c.journal }.lockedActs k script 0 n
  | .advance d => [.advance d]
  | .isEmpty => []
  | .stop => []

theorem actAll_call (c : Cache α) (x : Call α) : c.actAll x.acts = (c.call x).2 := by
  cases x <;> rfl

theorem actAll_lookups (c : Cache α) (k : String) (n : Nat) :
    c.actAll (List.replicate n (.lookup k)) = c.lookupBy k n := by
  induction n generalizing c with
  | zero => rfl
  | succ n ih => exact ih (c.lookup k).2

theorem actAll_lockedActs (c : Cache α) (k : String) (script : Script (Loader α))
    (runs n : Nat) :
    c.actAll (c.lockedActs k script runs n) = (c.lockedLoads k script runs n).2 := by
  induction n generalizing c runs with
  | zero => rfl
  | succ n ih => exact ih (c.lockedLoad k (script.nth runs)).2 _

theorem mute_callElsewhere (c : Cache α) (x : Call α) :
    (c.callElsewhere x).2.mute = (c.call x).2.mute := rfl

/-- A step that does not stop the sweeper is the acts of its callers, except that callers
on threads of their own keep journals of their own. -/
theorem mute_perform {c : Cache α} {s : Step α} (hs : s ≠ .stop) :
    (c.perform s).2.mute = (c.actAll (c.acts s)).mute := by
  cases s with
  | call x => exact (congrArg mute (actAll_call c x)).symm
  | load k l during =>
    cases during with
    | none => rfl
    | some x =>
      have hload : c.actAll (c.acts (.load k l (some x))) =
          (c.load k l).2.actAll (if (c.load k l).1.ran then x.acts else []) := rfl
      rw [hload]
      simp only [perform, loadDuring]
      split
      · rw [actAll_call]
        exact mute_callElsewhere _ x
      · rfl
  | race k n script =>
    have hrace : c.actAll (c.acts (.race k n script)) =
        (c.lookupBy k n).actAll
          (match (c.lookup k).1 with
          | some _ => []
          | none => { c.lookupBy k n with journal := c.journal }.lockedActs k script 0 n) := by
      rw [acts, actAll_append, actAll_lookups]
    have hwaiting : { c.lookupBy k n with journal := c.journal }.mute = (c.lookupBy k n).mute :=
      rfl
    rw [hrace]
    simp only [perform, race]
    cases (c.lookup k).1 with
    | some v => rfl
    | none =>
      refine Eq.trans ?_ (actAll_congr hwaiting _)
      rw [actAll_lockedActs]
  | advance d => rfl
  | isEmpty => rfl
  | stop => exact absurd rfl hs

theorem stop_eq (c : Cache α) :
    c.stop = if c.sweeper.running then .ok c.settle.halt else .error .alreadyStopped := by
  rw [stop, Sweeper.stop]
  split <;> rfl

/-! ### The moves of a run -/

/-- The sweep that is due, if one is. -/
def sweepMoves (c : Cache α) : List (Move α) :=
  if c.sweeper.nextSweep ≤ c.clock then .mark 0 :: (c.store.mark c.clock).map .purge else []

/-- The sweeper's turn, purge by purge. -/
def settleMoves (c : Cache α) : List (Move α) :=
  if c.sweeper.running then
    c.sweepMoves ++ c.sweeper.queue.flatMap fun p => [.take, .purge p]
  else []

def stepMoves (c : Cache α) : Step α → List (Move α)
  | .stop => if c.sweeper.running then c.settleMoves ++ [.halt] else []
  | s => (c.acts s).map .act ++ (c.perform s).2.settleMoves

theorem stepMoves_of_ne_stop (c : Cache α) {s : Step α} (hs : s ≠ .stop) :
    c.stepMoves s = (c.acts s).map .act ++ (c.perform s).2.settleMoves := by
  cases s with
  | stop => exact absurd rfl hs
  | _ => rfl

/-- The sweeper makes no acts of callers. -/
theorem act?_of_mem_settleMoves {c : Cache α} {m : Move α} (hm : m ∈ c.settleMoves) :
    m.act? = none := by
  rw [settleMoves] at hm
  split at hm
  · rcases List.mem_append.1 hm with hm | hm
    · rw [sweepMoves] at hm
      split at hm
      · rcases List.mem_cons.1 hm with rfl | hm
        · rfl
        · obtain ⟨p, -, rfl⟩ := List.mem_map.1 hm
          rfl
      · cases hm
    · obtain ⟨p, -, hm⟩ := List.mem_flatMap.1 hm
      rcases List.mem_cons.1 hm with rfl | hm
      · rfl
      · cases List.mem_singleton.1 hm
        rfl
  · cases hm

theorem act?_of_mem_stepMoves_stop {c : Cache α} {m : Move α} (hm : m ∈ c.stepMoves .stop) :
    m.act? = none := by
  rw [stepMoves] at hm
  split at hm
  · rcases List.mem_append.1 hm with hm | hm
    · exact act?_of_mem_settleMoves hm
    · cases List.mem_singleton.1 hm
      rfl
  · cases hm

theorem settleMoves_congr {c d : Cache α} (h : c.mute = d.mute) :
    c.settleMoves = d.settleMoves :=
  calc c.settleMoves = c.mute.settleMoves := rfl
    _ = d.mute.settleMoves := by rw [h]
    _ = d.settleMoves := rfl

/-- The moves that a run of steps is made of. -/
def moves (c : Cache α) : List (Step α) → List (Move α)
  | [] => []
  | s :: ss => c.stepMoves s ++ (c.step s).2.moves ss

end Cache

namespace Recorded

theorem run_acts (r : Recorded α) (as : List (Act α)) :
    (r.run (as.map .act)).cache = r.cache.actAll as := by
  induction as generalizing r with
  | nil => rfl
  | cons a as ih => exact ih (r.act a)

theorem run_purges {r : Recorded α} {ps : List Purge}
    (h : ∀ p ∈ ps, ∃ now, .asked p now ∈ r.past) : r.run (ps.map .purge) =
      r.withStore (r.cache.store.purgeEach ps).2 := by
  induction ps generalizing r with
  | nil => rfl
  | cons p ps ih =>
    obtain ⟨now, hp⟩ := h p (.head _)
    rw [List.map_cons, run_cons, move_purge_of_asked hp]
    exact ih fun q hq => h q (.tail _ hq)

theorem run_takes {r : Recorded α}
    (h : ∀ p ∈ r.cache.sweeper.queue, ∃ now, .asked p now ∈ r.past) :
    r.run (r.cache.sweeper.queue.flatMap fun p => [.take, .purge p]) =
      ⟨{ r.cache with
          store := (r.cache.store.purgeEach r.cache.sweeper.queue).2
          sweeper := { r.cache.sweeper with queue := [] } }, r.past⟩ := by
  obtain ⟨⟨ttl, clock, store, ⟨interval, nextSweep, queue, running⟩, journal⟩, past⟩ := r
  simp only at h ⊢
  induction queue generalizing store with
  | nil => rfl
  | cons p ps ih =>
    obtain ⟨now, hp⟩ := h p (.head _)
    rw [List.flatMap_cons, List.cons_append, List.cons_append, List.nil_append, run_cons, run_cons,
      move_purge_of_asked (by exact hp)]
    exact ih (store.purge p) fun q hq => h q (.tail _ hq)

/-- What the sweeper's turn adds to the record. -/
def settleDeeds (r : Recorded α) : List (Deed α) :=
  if r.cache.sweeper.running ∧ r.cache.sweeper.nextSweep ≤ r.cache.clock then r.deeds (.mark 0)
  else []

theorem run_sweep {r : Recorded α} :
    r.run (.mark 0 :: (r.cache.store.mark r.cache.clock).map .purge) =
      (r.move (.mark 0)).withStore (r.cache.store.sweep r.cache.clock).2 := by
  rw [run_cons]
  refine run_purges fun p hp => ⟨r.cache.clock - (0 : Nat), List.mem_append_left _ ?_⟩
  refine List.mem_append_left _ (List.mem_map_of_mem ?_)
  simpa using hp

theorem run_settleMoves {r : Recorded α} (h : r.Faithful) :
    r.run r.cache.settleMoves = ⟨r.cache.settle, r.settleDeeds ++ r.past⟩ := by
  unfold Cache.settleMoves Cache.settle Sweeper.settle settleDeeds
  split
  · rename_i hrunning
    rw [run_append, Cache.sweepMoves]
    split
    · rename_i hdue
      rw [run_sweep, if_pos ⟨hrunning, hdue⟩]
      refine (run_takes fun p hp => ?_).trans ?_
      · exact (h.queued p hp).imp fun _ => List.mem_append_right _
      · simp [move, effect, withStore]
    · rename_i hdue
      rw [run_nil, run_takes h.queued, if_neg fun hsweep => hdue hsweep.2]
      rfl
  · rename_i hstopped
    rw [if_neg fun hsweep => hstopped hsweep.1]
    rfl

end Recorded

namespace Cache

theorem settle_of_stopped {c : Cache α} (h : c.sweeper.running = false) : c.settle = c := by
  rw [settle, Sweeper.settle_of_stopped h]

theorem step_stop (c : Cache α) :
    (c.step .stop).2 = if c.sweeper.running then c.settle.halt else c := by
  cases hrunning : c.sweeper.running with
  | true =>
    have hstop : c.stop = .ok c.settle.halt := by rw [stop_eq, if_pos hrunning]
    simp only [step, perform, hstop, if_true]
    exact settle_of_stopped (c := c.settle.halt) rfl
  | false =>
    have hstop : c.stop = .error .alreadyStopped := by rw [stop_eq, hrunning]; rfl
    simp only [step, perform, hstop]
    exact settle_of_stopped hrunning

end Cache

namespace Recorded

/-- The acts of a step lead where the step leads before the sweeper's turn. -/
theorem mute_run_acts {r : Recorded α} {c : Cache α} (h : r.cache.mute = c.mute) {s : Step α}
    (hs : s ≠ .stop) :
    (r.run ((c.acts s).map .act)).cache.mute = (c.perform s).2.mute := by
  rw [run_acts, Cache.mute_perform hs]
  exact Cache.actAll_congr h _

theorem mute_run_settleMoves {r : Recorded α} (hr : r.Faithful) {c : Cache α}
    (h : r.cache.mute = c.mute) : (r.run c.settleMoves).cache.mute = c.settle.mute := by
  rw [← Cache.settleMoves_congr h, run_settleMoves hr]
  exact Cache.mute_congr Cache.settle (fun _ => rfl) h

theorem mute_run_stepMoves {r : Recorded α} (hr : r.Faithful) {c : Cache α}
    (h : r.cache.mute = c.mute) (s : Step α) :
    (r.run (c.stepMoves s)).cache.mute = (c.step s).2.mute := by
  by_cases hs : s = .stop
  · subst hs
    rw [Cache.step_stop, Cache.stepMoves]
    split
    · rw [run_append]
      exact Cache.mute_congr Cache.halt (fun _ => rfl) (mute_run_settleMoves hr h)
    · exact h
  · rw [Cache.stepMoves_of_ne_stop c hs, run_append]
    exact mute_run_settleMoves (hr.run _) (mute_run_acts h hs)

/-- The moves of a run lead where the run leads. -/
theorem mute_run_moves {r : Recorded α} (hr : r.Faithful) {c : Cache α}
    (h : r.cache.mute = c.mute) (ss : List (Step α)) :
    (r.run (c.moves ss)).cache.mute = (c.run ss).2.mute := by
  induction ss generalizing r c with
  | nil => exact h
  | cons s ss ih =>
    rw [Cache.moves, run_append]
    exact ih (hr.run _) (mute_run_stepMoves hr h s)

end Recorded

end ExpiringCache
