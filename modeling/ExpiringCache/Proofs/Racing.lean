import ExpiringCache.Proofs.Loads

/-! A race and the same loads one after the other. Callers that all miss a key take turns
under the lock: each gets its own failure until a loader returns a value, and that value
goes to its caller and to all after it (`lockedLoads_of_values`). Time stands still between
the loaders, so what was just put in is live for the rest. Loads made one after the other,
the sweeper having its turn after each, are answered the same and leave the same live
entries (`race_eq_loadInTurn`): a turn of the sweeper removes nothing live. -/

namespace ExpiringCache

universe u

variable {α : Type u}

namespace Script

variable (script : Script (Loader α))

/-- How `m` loaders end that are taken in turn, `taken` of them taken before. -/
def outcomes (taken m : Nat) : List (Outcome α) :=
  (List.range' taken m).map fun i => (script.nth i).outcome

/-- The time that `m` loaders take that are taken in turn, `taken` of them taken before. -/
def time (taken : Nat) : Nat → Nat
  | 0 => 0
  | m + 1 => (script.nth taken).cost + time (taken + 1) m

theorem time_concat (taken m : Nat) :
    script.time taken (m + 1) = script.time taken m + (script.nth (taken + m)).cost := by
  induction m generalizing taken with
  | zero => simp [time]
  | succ m ih =>
    have hnext : taken + 1 + m = taken + (m + 1) := by omega
    rw [time, ih, time, hnext, Nat.add_assoc]

/-- None of the first `m` loaders from the one at `taken` on returns a value. -/
def Fails (taken m : Nat) : Prop :=
  ∀ i, taken ≤ i → i < taken + m → ∀ v, (script.nth i).outcome ≠ .value v

/-- The first loader that returns a value is the one at `f`, counted from zero, and it
returns `v`. -/
def FirstValue (f : Nat) (v : α) : Prop := script.Fails 0 f ∧ (script.nth f).outcome = .value v

variable {script}

theorem Fails.head {taken m : Nat} (h : script.Fails taken (m + 1)) (v : α) :
    (script.nth taken).outcome ≠ .value v := h taken (Nat.le_refl _) (by omega) v

theorem Fails.tail {taken m : Nat} (h : script.Fails taken (m + 1)) :
    script.Fails (taken + 1) m := fun i hle hlt => h i (by omega) (by omega)

theorem Fails.mono {taken m n : Nat} (h : script.Fails taken n) (hle : m ≤ n) :
    script.Fails taken m := fun i hi hlt => h i hi (by omega)

end Script

/-- The race with callers ahead of it that got `os`. -/
def Raced.after (r : Raced α) (os : List (Outcome α)) : Raced α :=
  { r with results := os ++ r.results }

theorem Raced.after_after (r : Raced α) (os ps : List (Outcome α)) :
    (r.after ps).after os = r.after (os ++ ps) := by
  simp only [after, List.append_assoc]

namespace Cache

theorem advance_zero (c : Cache α) : c.advance 0 = c := by
  rw [advance, Int.natCast_zero, Int.add_zero]

theorem advance_advance (c : Cache α) (a b : Nat) :
    (c.advance a).advance b = c.advance (a + b) := by
  simp only [advance, Int.natCast_add, Int.add_assoc]

theorem live_advance_eq_none {c : Cache α} {k : String} (h : c.live k = none) (d : Nat) :
    (c.advance d).live k = none := by
  rw [live_advance, h]
  rfl

theorem keep_of_failure {c : Cache α} {k : String} {o : Outcome α} (h : ∀ v, o ≠ .value v) :
    c.keep k o = c := by
  cases o with
  | value v => exact absurd rfl (h v)
  | failure reason => rfl
  | panic reason => rfl

/-! ### Callers under the lock -/

section LockedLoads

variable {c : Cache α} {k : String} {script : Script (Loader α)} {runs : Nat}

/-- All that take the lock while a value is live get it, and nothing happens. -/
theorem lockedLoads_of_live {e : Entry α} (h : c.live k = some e) (n : Nat) :
    c.lockedLoads k script runs n = (⟨runs, List.replicate n (.value e.value)⟩, c) := by
  induction n with
  | zero => rfl
  | succ n ih =>
    rw [lockedLoads, lockedLoad_of_live_eq_some _ h]
    simp only [Bool.false_eq_true, if_false, ih, List.replicate_succ]

/-- The turn of a caller that has to run its loader. -/
theorem lockedLoads_of_absent (h : c.live k = none) (n : Nat) :
    c.lockedLoads k script runs (n + 1) = Prod.map (·.after [(script.nth runs).outcome]) id
      (((c.advance (script.nth runs).cost).keep k (script.nth runs).outcome).lockedLoads k script
        (runs + 1) n) := by
  rw [lockedLoads, lockedLoad_of_live_eq_none _ h]
  rfl

/-- As long as loaders fail, each caller gets its own failure, and only time passes. -/
theorem lockedLoads_of_fails {m : Nat} (h : c.live k = none) (hm : script.Fails runs m) (n : Nat) :
    c.lockedLoads k script runs (m + n) = Prod.map (·.after (script.outcomes runs m)) id
      ((c.advance (script.time runs m)).lockedLoads k script (runs + m) n) := by
  induction m generalizing c runs with
  | zero =>
    have htime : script.time runs 0 = 0 := rfl
    rw [htime, advance_zero, Nat.zero_add]
    rfl
  | succ m ih =>
    rw [Nat.succ_add, lockedLoads_of_absent h, keep_of_failure hm.head,
      ih (live_advance_eq_none h _) hm.tail, advance_advance, Nat.succ_add, Prod.map_map]
    simp only [Function.comp_def, Raced.after_after]
    rfl

/-- The value that a loader returns goes to all that take the lock from then on. -/
theorem lockedLoads_of_value {v : α} (h : c.live k = none)
    (hv : (script.nth runs).outcome = .value v) (n : Nat) :
    c.lockedLoads k script runs (n + 1) = (⟨runs + 1, List.replicate (n + 1) (.value v)⟩,
      (c.advance (script.nth runs).cost).set k v) := by
  have hset : ((c.advance (script.nth runs).cost).set k v).live k =
      some ⟨v, (c.advance (script.nth runs).cost).expiry⟩ := by
    rw [live_set, if_pos rfl]
  rw [lockedLoads_of_absent h, hv, keep, lockedLoads_of_live hset]
  rfl

theorem lockedLoads_of_all_fail {n : Nat} (h : c.live k = none) (hn : script.Fails runs n) :
    c.lockedLoads k script runs n =
      (⟨runs + n, script.outcomes runs n⟩, c.advance (script.time runs n)) := by
  have hrest := lockedLoads_of_fails h hn 0
  rw [Nat.add_zero] at hrest
  rw [hrest, lockedLoads, Prod.map, Raced.after, List.append_nil]
  rfl

/-- More callers than loaders that fail: the rest get the first value. -/
theorem lockedLoads_of_values {f : Nat} {v : α} (h : c.live k = none)
    (hf : script.FirstValue f v) {n : Nat} (hn : f < n) :
    c.lockedLoads k script 0 n =
      (⟨f + 1, script.outcomes 0 f ++ List.replicate (n - f) (.value v)⟩,
        (c.advance (script.time 0 (f + 1))).set k v) := by
  obtain ⟨m, rfl⟩ : ∃ m, n = f + (m + 1) := ⟨n - f - 1, by omega⟩
  have hvalue : (script.nth (0 + f)).outcome = .value v := by rw [Nat.zero_add, hf.2]
  rw [lockedLoads_of_fails h hf.1, lockedLoads_of_value (live_advance_eq_none h _) hvalue,
    advance_advance, ← script.time_concat, Nat.zero_add, Nat.add_sub_cancel_left]
  rfl

end LockedLoads

/-! ### Lookups before the lock -/

@[simp] theorem store_lookupBy (c : Cache α) (k : String) (n : Nat) :
    (c.lookupBy k n).store = c.store := by
  induction n generalizing c with
  | zero => rfl
  | succ n ih => exact (ih _).trans (c.store_lookup k)

@[simp] theorem clock_lookupBy (c : Cache α) (k : String) (n : Nat) :
    (c.lookupBy k n).clock = c.clock := by
  induction n generalizing c with
  | zero => rfl
  | succ n ih => exact (ih _).trans (c.clock_lookup k)

@[simp] theorem ttl_lookupBy (c : Cache α) (k : String) (n : Nat) :
    (c.lookupBy k n).ttl = c.ttl := by
  induction n generalizing c with
  | zero => rfl
  | succ n ih => exact (ih _).trans (c.ttl_lookup k)

/-- The callers of a race once they have all looked and before any of them has the lock. -/
def waiting (c : Cache α) (k : String) (n : Nat) : Cache α :=
  { c.lookupBy k n with journal := c.journal }

theorem live_waiting (c : Cache α) (k : String) (n : Nat) (j : String) :
    (c.waiting k n).live j = c.live j := by
  show ((c.lookupBy k n).store.find? j).filter (fun e => (c.lookupBy k n).clock ≤ e.expiresAt) = _
  rw [store_lookupBy, clock_lookupBy]
  rfl

theorem alike_waiting (c : Cache α) (k : String) (n : Nat) : Alike c (c.waiting k n) :=
  ⟨(c.ttl_lookupBy k n).symm, (c.clock_lookupBy k n).symm, fun j => (c.live_waiting k n j).symm⟩

/-- A race is turns under the lock, after a hit too. -/
theorem race_eq_lockedLoads (c : Cache α) (k : String) (n : Nat) (script : Script (Loader α)) :
    c.race k n script = (c.waiting k n).lockedLoads k script 0 n := by
  cases h : c.live k with
  | none =>
    have hmiss : (c.lookup k).1 = none := lookup_eq_none_iff.2 h
    simp only [race, hmiss]
    rfl
  | some e =>
    rw [lockedLoads_of_live ((c.live_waiting k n k).trans h)]
    simp only [race, lookup_fst_of_live_eq_some h]
    rfl

/-! ### Queues of what has expired -/

theorem QueuePassed.waiting {c : Cache α} (h : c.QueuePassed) (k : String) (n : Nat) :
    (c.waiting k n).QueuePassed := by
  have hlookups : (c.lookupBy k n).QueuePassed := by
    induction n generalizing c with
    | zero => exact h
    | succ n ih => exact ih (h.lookup k)
  exact hlookups

theorem clock_le_lockedLoad (c : Cache α) (k : String) (l : Loader α) :
    c.clock ≤ (c.lockedLoad k l).2.clock := by
  cases h : c.live k with
  | some e => rw [lockedLoad_of_live_eq_some l h]
  | none =>
    rw [lockedLoad_of_live_eq_none l h, clock_keep]
    exact Int.le_add_of_nonneg_right (Int.natCast_nonneg _)

theorem QueuePassed.lockedLoad {c : Cache α} (h : c.QueuePassed) (k : String) (l : Loader α) :
    (c.lockedLoad k l).2.QueuePassed := by
  intro hrunning p hp
  rw [sweeper_lockedLoad] at hrunning hp
  exact Int.lt_of_lt_of_le (h hrunning p hp) (c.clock_le_lockedLoad k l)

theorem QueuePassed.lockedLoads {c : Cache α} (h : c.QueuePassed) (k : String)
    (script : Script (Loader α)) (runs n : Nat) :
    (c.lockedLoads k script runs n).2.QueuePassed := by
  induction n generalizing c runs with
  | zero => exact h
  | succ n ih => exact ih (h.lockedLoad k _) _

/-! ### Loads in turn -/

/-- `n` loads of a key one after the other, each a step of its own, when `runs` loaders have
run before them. Each run of a loader takes the next turn of the script. -/
def loadInTurn (c : Cache α) (k : String) (script : Script (Loader α)) (runs : Nat) :
    Nat → Raced α × Cache α
  | 0 => (⟨runs, []⟩, c)
  | n + 1 =>
    match c.step (.load k (script.nth runs) none) with
    | (.loaded first _, c) =>
      let (others, c) := c.loadInTurn k script (if first.ran then runs + 1 else runs) n
      (⟨others.loads, first.outcome :: others.results⟩, c)
    | (_, c) => (⟨runs, []⟩, c)

theorem loadInTurn_succ (c : Cache α) (k : String) (script : Script (Loader α)) (runs n : Nat) :
    c.loadInTurn k script runs (n + 1) =
      Prod.map (·.after [(c.load k (script.nth runs)).1.outcome]) id
        ((c.load k (script.nth runs)).2.settle.loadInTurn k script
          (if (c.load k (script.nth runs)).1.ran then runs + 1 else runs) n) := rfl

/-- Turns under the lock and loads in turn are answered the same from caches that no caller
can tell apart, and they lead to such caches. -/
theorem Alike.lockedLoads_loadInTurn {c d : Cache α} (h : Alike c d) (hd : d.AtRest)
    (k : String) (script : Script (Loader α)) (runs n : Nat) :
    (c.lockedLoads k script runs n).1 = (d.loadInTurn k script runs n).1 ∧
      Alike (c.lockedLoads k script runs n).2 (d.loadInTurn k script runs n).2 := by
  induction n generalizing c d runs with
  | zero => exact ⟨rfl, h⟩
  | succ n ih =>
    let l := script.nth runs
    have hlooked : Alike c (d.lookup k).2 :=
      h.trans ⟨(d.ttl_lookup k).symm, (d.clock_lookup k).symm, fun j => (d.live_lookup k j).symm⟩
    obtain ⟨hfirst, hafter⟩ := hlooked.lockedLoad k l
    have hpassed := (hd.queuePassed.lookup k).lockedLoad k l
    rw [← load_eq_lockedLoad] at hfirst hafter hpassed
    obtain ⟨hothers, hlast⟩ := ih (hafter.trans hpassed.alike_settle) (d.load k l).2.atRest_settle
      (if (d.load k l).1.ran then runs + 1 else runs)
    rw [loadInTurn_succ]
    simp only [Cache.lockedLoads, l] at hfirst ⊢
    rw [hfirst]
    exact ⟨congrArg (·.after [(d.load k l).1.outcome]) hothers, hlast⟩

theorem ttl_run_start (ttl : Nat) (begun : Int) (ss : List (Step α)) :
    ((start ttl begun).run ss).2.ttl = ttl := by
  have hmute := Recorded.mute_ofSteps ttl begun ss
  have httl : (Recorded.ofSteps ttl begun ss).cache.ttl = ttl := Recorded.ttl_run _ _
  exact (congrArg Cache.ttl hmute).symm.trans httl

/-- In every state that steps lead to, callers that race for a live key all get its value and
no loader runs. Otherwise, if the loader at `f` is the first that returns a value, the first
`f` callers under the lock get their own failures and the others that value, which is put in
if and only if there are others, and expires a lifetime after all loaders are done; if none
returns a value, every caller gets its own failure and nothing is put in. Callers that load
one after the other, the sweeper having its turn after each, get the same answers from as
many loaders and leave the same clock and the same live entries. -/
theorem race_eq_loadInTurn (ttl : Nat) (begun : Int) (ss : List (Step α)) (k : String) (n : Nat)
    (script : Script (Loader α)) :
    let c := ((start ttl begun).run ss).2
    let raced := c.race k n script
    let inTurn := c.loadInTurn k script 0 n
    (∀ v, (c.lookup k).1 = some v →
      raced.1 = ⟨0, List.replicate n (.value v)⟩ ∧ raced.2.clock = c.clock ∧
        raced.2.store = c.store) ∧
    ((c.lookup k).1 = none →
      (∀ f v, script.FirstValue f v →
        raced.1 = ⟨min n (f + 1), script.outcomes 0 (min n f) ++
          List.replicate (n - min n f) (.value v)⟩ ∧
        raced.2.clock = c.clock + script.time 0 (min n (f + 1)) ∧
        raced.2.store = if f < n then c.store.insert k ⟨v, Time.deadline raced.2.clock ttl⟩
          else c.store) ∧
      ((∀ m, script.Fails 0 m) → raced.1 = ⟨n, script.outcomes 0 n⟩ ∧
        raced.2.clock = c.clock + script.time 0 n ∧ raced.2.store = c.store)) ∧
    c.step (.race k n script) = (.raced inTurn.1, raced.2.settle) ∧
      Alike raced.2.settle inTurn.2 := by
  intro c raced inTurn
  have hraced : raced = (c.waiting k n).lockedLoads k script 0 n := c.race_eq_lockedLoads k n script
  have hrest : c.AtRest := atRest_run (atRest_start ttl begun) ss
  have hstore : (c.waiting k n).store = c.store := c.store_lookupBy k n
  have hclock : (c.waiting k n).clock = c.clock := c.clock_lookupBy k n
  have httl : (c.waiting k n).ttl = ttl := (c.ttl_lookupBy k n).trans (ttl_run_start ttl begun ss)
  -- nobody writes anything if no loader of the `n` callers returns a value
  have hfails (hmiss : (c.lookup k).1 = none) (hn : script.Fails 0 n) :
      raced.1 = ⟨n, script.outcomes 0 n⟩ ∧ raced.2.clock = c.clock + script.time 0 n ∧
        raced.2.store = c.store := by
    have habsent := (c.live_waiting k n k).trans (lookup_eq_none_iff.1 hmiss)
    rw [hraced, lockedLoads_of_all_fail habsent hn, Nat.zero_add, ← hclock]
    exact ⟨rfl, rfl, hstore⟩
  refine ⟨fun v hv => ?_, fun hmiss => ⟨fun f v hf => ?_, fun hall => hfails hmiss (hall n)⟩, ?_⟩
  · obtain ⟨e, he, rfl⟩ : ∃ e, c.live k = some e ∧ e.value = v := by
      rwa [lookup_fst, Option.map_eq_some_iff] at hv
    rw [hraced, lockedLoads_of_live ((c.live_waiting k n k).trans he)]
    exact ⟨rfl, hclock, hstore⟩
  · by_cases hn : f < n
    · have habsent := (c.live_waiting k n k).trans (lookup_eq_none_iff.1 hmiss)
      rw [Nat.min_eq_right hn, Nat.min_eq_right (Nat.le_of_lt hn), if_pos hn, hraced,
        lockedLoads_of_values habsent hf hn]
      refine ⟨rfl, ?_, ?_⟩
      · rw [← hclock]
        rfl
      · rw [← hstore, ← httl]
        rfl
    · rw [Nat.min_eq_left (by omega : n ≤ f + 1), Nat.min_eq_left (by omega : n ≤ f), if_neg hn,
        Nat.sub_self, List.replicate_zero, List.append_nil]
      exact hfails hmiss (hf.1.mono (by omega))
  · obtain ⟨hsame, hlast⟩ := (c.alike_waiting k n).symm.lockedLoads_loadInTurn hrest k script 0 n
    rw [← hraced] at hsame hlast
    refine ⟨?_, ?_⟩
    · rw [← show raced.1 = inTurn.1 from hsame]
      rfl
    · have hpassed := (hrest.queuePassed.waiting k n).lockedLoads k script 0 n
      rw [← hraced] at hpassed
      exact hpassed.alike_settle.symm.trans hlast

/-- The value of a key has expired. Of four callers that race for it the first two fail, one
of them by a panic, and the third brings the value for itself and the fourth. The two
failures take so long that a sweep has come due. -/
theorem race_eq_loadInTurn_failures :
    let ss : List (Step Nat) := [.call (.set "k" 1), .advance 6, .advance 5]
    let script : Script (Loader Nat) := ⟨⟨4, .failure "down"⟩, [⟨2, .panic "lost"⟩, ⟨1, .value 5⟩]⟩
    let c := ((start 10 0).run ss).2
    (c.lookup "k").1 = none ∧ script.FirstValue 2 5 ∧
      (c.step (.race "k" 4 script)).1 =
        .raced ⟨3, [.failure "down", .panic "lost", .value 5, .value 5]⟩ ∧
      (c.race "k" 4 script).2.store = c.store.insert "k" ⟨5, 28⟩ ∧
      (c.loadInTurn "k" script 0 4).1 =
        ⟨3, [.failure "down", .panic "lost", .value 5, .value 5]⟩ ∧
      (c.loadInTurn "k" script 0 4).2.live "k" = some ⟨5, 28⟩ := by
  intro ss script c
  obtain ⟨-, hmissed, hstep, halike⟩ := race_eq_loadInTurn 10 0 ss "k" 4 script
  have hmiss : (c.lookup "k").1 = none := by decide
  have hfirst : script.FirstValue 2 5 := by
    refine ⟨fun i _ hi => ?_, rfl⟩
    obtain rfl | rfl : i = 0 ∨ i = 1 := by omega
    · exact fun v h => nomatch h
    · exact fun v h => nomatch h
  obtain ⟨hresult, hclock, hstore⟩ := (hmissed hmiss).1 2 5 hfirst
  have hinTurn : (c.loadInTurn "k" script 0 4).1 =
      ⟨3, [.failure "down", .panic "lost", .value 5, .value 5]⟩ := by decide
  refine ⟨hmiss, hfirst, ?_, ?_, hinTurn, ?_⟩
  · rw [hstep, hinTurn]
  · have hdone : c.clock + script.time 0 (min 4 (2 + 1)) = 18 := by decide
    have hexpiry : Time.deadline 18 10 = 28 := by decide
    rw [hstore, hclock, hdone, hexpiry, if_pos (by decide)]
  · rw [← halike.live]
    decide

end Cache

end ExpiringCache
