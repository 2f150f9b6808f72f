import ExpiringCache.Proofs.Racing

/-! Calls made while a loader holds the lock. Such a call waits for the load and so comes
after it: the load is answered the same, the call is answered the same, and the cache is left
the same as when the call is made once the load is over and the sweeper has had its turn
(`call_during_load`). For a turn of the sweeper just before a set, a clear or a lookup changes
nothing about the answer, nor about what the turn just after it leaves (`settle_call_settle`). -/

namespace ExpiringCache

universe u

variable {α : Type u}

namespace Cache

/-! ### The sweeper's turn before a call -/

/-- A sweep that is due just after the sweeper's turn was due before it. -/
theorem due_of_due_settle {c : Cache α} (h : c.sweeper.running = true)
    (hdue : c.settle.sweeper.nextSweep ≤ c.clock) : c.sweeper.nextSweep ≤ c.clock := by
  rw [sweeper_settle h] at hdue
  simp only at hdue
  split at hdue
  · assumption
  · exact hdue

/-- A second turn of the sweeper at the same clock leaves the sweeper as it is. -/
theorem sweeper_settle_settle (c : Cache α) : c.settle.settle.sweeper = c.settle.sweeper := by
  cases hrunning : c.sweeper.running with
  | false => rw [settle_of_stopped hrunning, settle_of_stopped hrunning]
  | true =>
    have hqueue : c.settle.sweeper.queue = [] := by rw [sweeper_settle hrunning]
    rw [sweeper_settle_of_onTime c.onTime_settle ((running_settle c).trans hrunning), ← hqueue]

/-- The sweeper's turn reads nothing of the store about itself. -/
theorem sweeper_settle_congr {c d : Cache α} (hsweeper : c.sweeper = d.sweeper)
    (hclock : c.clock = d.clock) : c.settle.sweeper = d.settle.sweeper := by
  cases hrunning : d.sweeper.running with
  | false =>
    rw [settle_of_stopped hrunning, settle_of_stopped (hsweeper ▸ hrunning), hsweeper]
  | true =>
    rw [sweeper_settle hrunning, sweeper_settle (hsweeper ▸ hrunning), hsweeper, hclock]

theorem store_clear_settle (c : Cache α) : c.clear.settle.store = .empty :=
  Store.ext_find? fun _ => Option.eq_none_iff_forall_ne_some.2 fun _ he =>
    Option.some_ne_none _ (find?_of_find?_settle he).symm

theorem settle_clear_settle (c : Cache α) : c.settle.clear.settle = c.clear.settle := by
  have hstore : c.settle.clear.settle.store = c.clear.settle.store := by
    rw [store_clear_settle, store_clear_settle]
  refine eq_of_find? rfl rfl (fun k => by rw [hstore]) ?_ rfl
  have hsettled : c.settle.clear.settle.sweeper = c.settle.settle.sweeper :=
    sweeper_settle_congr rfl rfl
  rw [hsettled, sweeper_settle_settle]
  exact sweeper_settle_congr rfl rfl

theorem journal_lookup_of_running {c : Cache α} (h : c.sweeper.running = true) (k : String) :
    (c.lookup k).2.journal = c.journal := by
  unfold lookup
  split <;> simp [schedule, Sweeper.schedule, h]

/-- The sweeper's turn before a lookup changes nothing about its turn afterwards: what it has
removed, the lookup would have had removed. -/
theorem settle_lookup_settle (c : Cache α) (k : String) :
    (c.settle.lookup k).2.settle = (c.lookup k).2.settle := by
  cases hrunning : c.sweeper.running with
  | false => rw [settle_of_stopped hrunning]
  | true =>
    have hsettle : c.settle.sweeper.running = true := (running_settle c).trans hrunning
    have hqueue : c.settle.sweeper.queue = [] := by rw [sweeper_settle hrunning]
    have hlooked : (c.lookup k).2.sweeper.running = true := by rw [sweeper_lookup]; exact hrunning
    have hlooked' : (c.settle.lookup k).2.sweeper.running = true := by
      rw [sweeper_lookup]; exact hsettle
    have hnext : (c.lookup k).2.sweeper.nextSweep = c.sweeper.nextSweep := by rw [sweeper_lookup]
    have hnext' : (c.settle.lookup k).2.sweeper.nextSweep = c.settle.sweeper.nextSweep := by
      rw [sweeper_lookup]
    -- the lookup asks for a purge of what is left exactly if it would have asked before
    have hrequest (j : String) (e : Entry α) (he : c.settle.store.find? j = some e) :
        c.settle.request? k = some ⟨j, e.expiresAt⟩ ↔ c.request? k = some ⟨j, e.expiresAt⟩ := by
      rw [request?_eq_some_iff, request?_eq_some_iff]
      simp only [hrunning, hsettle, true_and]
      refine and_congr_right fun hj => ?_
      subst hj
      rw [he, find?_of_find?_settle he]
      rfl
    refine eq_of_find? ?_ ?_ (fun j => ?_) ?_ ?_
    · simp only [ttl_settle, ttl_lookup]
    · simp only [clock_settle, clock_lookup]
    · ext e
      rw [find?_settle hlooked, find?_settle hlooked', mem_queue_lookup_iff, mem_queue_lookup_iff,
        hqueue, hnext, hnext', store_lookup, store_lookup, clock_lookup, clock_lookup]
      simp only [List.not_mem_nil, false_or, clock_settle, not_or]
      constructor
      · rintro ⟨he, hasked, -⟩
        obtain ⟨hstored, hq, hlive⟩ := (find?_settle hrunning).1 he
        exact ⟨hstored, ⟨hq, fun h => hasked ((hrequest j e he).2 h)⟩, hlive⟩
      · rintro ⟨hstored, ⟨hq, hasked⟩, hlive⟩
        have he := (find?_settle hrunning).2 ⟨hstored, hq, hlive⟩
        exact ⟨he, fun h => hasked ((hrequest j e he).1 h),
          fun hdue => hlive (due_of_due_settle hrunning hdue)⟩
    · rw [sweeper_settle hlooked, sweeper_settle hlooked']
      simp only [sweeper_lookup, clock_lookup, clock_settle]
      have hagain := c.sweeper_settle_settle
      rw [sweeper_settle hsettle, sweeper_settle hrunning] at hagain
      rw [sweeper_settle hrunning]
      exact hagain
    · rw [journal_settle, journal_settle, journal_lookup_of_running hsettle,
        journal_lookup_of_running hrunning, journal_settle]

/-- The sweeper's turn before a call that does not count entries changes neither the answer nor
what the sweeper's turn after the call leaves. -/
theorem settle_call_settle {c : Cache α} (h : c.QueuePassed) {x : Call α} (hx : x ≠ .size) :
    (c.settle.call x).1 = (c.call x).1 ∧
      (c.settle.call x).2.settle = (c.call x).2.settle := by
  cases x with
  | set k v => exact ⟨rfl, settle_set_settle h k v⟩
  | get k =>
    exact ⟨congrArg Answer.found (h.alike_settle.lookup k).1.symm, c.settle_lookup_settle k⟩
  | clear => exact ⟨rfl, c.settle_clear_settle⟩
  | size => exact absurd rfl hx

/-! ### A call that a load holds up -/

section Load

variable {c : Cache α} {k : String}

theorem queuePassed_load (h : c.QueuePassed) (l : Loader α) : (c.load k l).2.QueuePassed := by
  rw [load_eq_lockedLoad]
  exact (h.lookup k).lockedLoad k l

/-- A step that loads while another thread makes a call, when the loader runs. -/
theorem step_load_during (l : Loader α) (hran : (c.load k l).1.ran = true) (x : Call α) :
    c.step (.load k l (some x)) =
      (.loaded (c.load k l).1 (some ((c.load k l).2.call x).1),
        ((c.load k l).2.callElsewhere x).2.settle) := by
  simp only [step, perform, loadDuring, callElsewhere, hran, if_true]

end Load

/-- In every state that steps lead to, a set, a lookup or a clear that another thread makes
while a loader runs that takes no time, and the load, are answered as if the call were made
after the load, the sweeper having had its turn, and they leave the same cache, journals
apart. What the call sets stands in place of what was loaded for the same key; a clear drops
what was loaded, which the caller of the load gets all the same; and a lookup finds it. -/
theorem call_during_load (ttl : Nat) (begun : Int) (ss : List (Step α)) (k : String)
    (o : Outcome α) {x : Call α} (hx : x ≠ .size)
    (hran : (((start ttl begun).run ss).2.load k ⟨0, o⟩).1.ran = true) :
    let c := ((start ttl begun).run ss).2
    let during := c.step (.load k ⟨0, o⟩ (some x))
    let loaded := c.step (.load k ⟨0, o⟩ none)
    let called := loaded.2.step (.call x)
    ∃ a, during.1 = .loaded ⟨o, true⟩ (some a) ∧ loaded.1 = .loaded ⟨o, true⟩ none ∧
      called.1 = .answered a ∧ during.2.mute = called.2.mute ∧
      (∀ v, x = .set k v → (during.2.lookup k).1 = some v) ∧
      (x = .clear → during.2.store = .empty) ∧
      (∀ v, o = .value v → x = .get k → a = .found (some v)) := by
  intro c during loaded called
  have hnone : c.live k = none := load_ran_iff_live.1 hran
  have hrest : c.AtRest := atRest_run (atRest_start ttl begun) ss
  let d := (c.load k ⟨0, o⟩).2
  have hd : d.QueuePassed := queuePassed_load hrest.queuePassed _
  have hfirst : (c.load k ⟨0, o⟩).1 = ⟨o, true⟩ := by rw [load_of_live_eq_none _ hnone]
  obtain ⟨hanswer, hafter⟩ := settle_call_settle hd hx
  have hduring : during = (.loaded ⟨o, true⟩ (some (d.call x).1),
      (d.callElsewhere x).2.settle) := by
    rw [← hfirst]
    exact step_load_during _ hran x
  have hsettled : during.2.mute = (d.call x).2.settle.mute := by
    rw [hduring]
    exact mute_congr settle (fun _ => rfl) (d.mute_callElsewhere x)
  have hcalled : called = (.answered (d.settle.call x).1, (d.settle.call x).2.settle) := rfl
  refine ⟨(d.call x).1, by rw [hduring], ?_, by rw [hcalled, hanswer], ?_, ?_, ?_, ?_⟩
  · rw [← hfirst]
    rfl
  · rw [hsettled, hcalled, hafter]
  · rintro v rfl
    have hpassed : (d.set k v).QueuePassed := hd
    have hlooked : ((d.set k v).settle.lookup k).1 = some v :=
      (hpassed.alike_settle.lookup k).1.symm.trans (d.lookup_set k v)
    exact (lookup_congr hsettled k).1.trans hlooked
  · rintro rfl
    exact (congrArg Cache.store hsettled).trans d.store_clear_settle
  · rintro v rfl rfl
    have hload : d = ((c.lookup k).2.advance 0).set k v :=
      congrArg Prod.snd (load_of_live_eq_none ⟨0, .value v⟩ hnone)
    show Answer.found (d.lookup k).1 = _
    rw [hload, lookup_set]

/-- The value of a key has expired and a sweep is due. While it is loaded anew, another thread
sets it: the caller of the load gets what was loaded, and what was set stays. -/
theorem call_during_load_set :
    let ss : List (Step Nat) :=
      [.call (.set "k" 1), .advance 1, .call (.set "j" 2), .advance 7, .advance 3]
    let c := ((start 10 0).run ss).2
    let x : Call Nat := .set "k" 7
    let during := c.step (.load "k" ⟨0, .value 5⟩ (some x))
    x ≠ .size ∧ (c.load "k" ⟨0, .value 5⟩).1.ran = true ∧ c.size = 2 ∧
      during.1 = .loaded ⟨.value 5, true⟩ (some .done) ∧ (during.2.lookup "k").1 = some 7 ∧
      during.2.mute =
        ((c.step (.load "k" ⟨0, .value 5⟩ none)).2.step (.call x)).2.mute := by
  intro ss c x during
  have hx : x ≠ .size := by decide
  have hran : (c.load "k" ⟨0, .value 5⟩).1.ran = true := by decide
  obtain ⟨a, -, -, -, hsame, hset, -⟩ := call_during_load 10 0 ss "k" (.value 5) hx hran
  exact ⟨hx, hran, by decide, by decide, hset 7 rfl, hsame⟩

end Cache

end ExpiringCache
