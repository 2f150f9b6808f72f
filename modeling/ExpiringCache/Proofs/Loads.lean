import ExpiringCache.Proofs.Contents

/-! A load step by step. A load is a lookup, then the time that its loader takes, then a set
of what the loader returned; and it makes no difference that the sweeper has its turn after
each of these steps and only once after the load (`load_eq_steps`). For a turn of the
sweeper that comes before time passes or before a set, in a cache whose sweeper is on time,
leaves nothing for its next turn to do otherwise (`settle_advance_settle`,
`settle_set_settle`). -/

namespace ExpiringCache

universe u

variable {α : Type u}

namespace Cache

theorem eq_of_find? {c d : Cache α} (httl : c.ttl = d.ttl) (hclock : c.clock = d.clock)
    (hstore : ∀ k, c.store.find? k = d.store.find? k) (hsweeper : c.sweeper = d.sweeper)
    (hjournal : c.journal = d.journal) : c = d := by
  have hs : c.store = d.store := Store.ext_find? hstore
  cases c
  cases d
  simp_all

/-- What is stored after a turn of the sweeper was stored before. -/
theorem find?_of_find?_settle {c : Cache α} {k : String} {e : Entry α}
    (h : c.settle.store.find? k = some e) : c.store.find? k = some e := by
  cases hrunning : c.sweeper.running with
  | true => exact ((find?_settle hrunning).1 h).1
  | false => rwa [settle_of_stopped hrunning] at h

/-- A sweep that is due at the clock puts the next one where it is already. -/
def OnTime (c : Cache α) : Prop :=
  c.sweeper.running = true → c.sweeper.nextSweep ≤ c.clock →
    c.sweeper.nextSweep = Time.deadline c.clock c.sweeper.interval

/-- The entries that purges are queued for have expired. -/
def QueuePassed (c : Cache α) : Prop :=
  c.sweeper.running = true → ∀ p ∈ c.sweeper.queue, p.token < c.clock

theorem QueuePassed.lookup {c : Cache α} (h : c.QueuePassed) (k : String) :
    (c.lookup k).2.QueuePassed := by
  intro hrunning p hp
  rw [sweeper_lookup] at hrunning
  rw [clock_lookup]
  rcases mem_queue_lookup_iff.1 hp with hp | hp
  · exact h hrunning p hp
  · obtain ⟨-, -, e, -, hexpired, htoken⟩ := request?_eq_some_iff.1 hp
    omega

/-- A turn of a sweeper that has only expired entries to purge is not seen by anyone. -/
theorem QueuePassed.alike_settle {c : Cache α} (h : c.QueuePassed) : Alike c c.settle := by
  cases hrunning : c.sweeper.running with
  | false => rw [settle_of_stopped hrunning]; exact .refl c
  | true =>
    refine ⟨rfl, rfl, fun k => ?_⟩
    ext e
    rw [live_eq_some_iff, live_eq_some_iff, find?_settle hrunning, clock_settle, and_assoc]
    refine and_congr_right fun _ => ⟨fun hlive => ⟨⟨fun hq => ?_, fun _ => hlive⟩, hlive⟩,
      fun hlive => hlive.2⟩
    have : e.expiresAt < c.clock := h hrunning _ hq
    omega

theorem running_settle (c : Cache α) : c.settle.sweeper.running = c.sweeper.running := by
  cases hrunning : c.sweeper.running with
  | true => rw [sweeper_settle hrunning, hrunning]
  | false => rw [settle_of_stopped hrunning, hrunning]

theorem onTime_settle (c : Cache α) : c.settle.OnTime := by
  intro hrunning hdue
  rw [running_settle] at hrunning
  rw [sweeper_settle hrunning] at hdue ⊢
  simp only [clock_settle] at hdue ⊢
  split at hdue
  · rw [if_pos ‹_›]
  · contradiction

theorem sweeper_settle_of_onTime {c : Cache α} (h : c.OnTime)
    (hrunning : c.sweeper.running = true) :
    c.settle.sweeper = { c.sweeper with queue := [] } := by
  rw [sweeper_settle hrunning]
  split
  · rename_i hdue
    rw [← h hrunning hdue]
  · rfl

/-- The sweeper's turn before time passes changes nothing about its turn afterwards. -/
theorem settle_advance_settle {c : Cache α} (h : c.OnTime) (d : Nat) :
    (c.settle.advance d).settle = (c.advance d).settle := by
  cases hrunning : c.sweeper.running with
  | false => rw [settle_of_stopped hrunning]
  | true =>
    have hadvance : (c.advance d).sweeper.running = true := hrunning
    have hsettle : (c.settle.advance d).sweeper.running = true :=
      (running_settle c).trans hrunning
    have hsweeper : (c.settle.advance d).sweeper = { c.sweeper with queue := [] } :=
      sweeper_settle_of_onTime h hrunning
    refine eq_of_find? rfl rfl (fun k => ?_) ?_ rfl
    · ext e
      rw [find?_settle hsettle, find?_settle hadvance, hsweeper]
      show c.settle.store.find? k = some e ∧ _ ↔ c.store.find? k = some e ∧ _
      rw [find?_settle hrunning]
      simp only [advance, clock_settle, List.not_mem_nil, not_false_eq_true, true_and, and_assoc]
      refine and_congr_right fun _ => and_congr_right fun _ => ?_
      refine ⟨fun hlive => hlive.2, fun hlive => ⟨fun hdue => ?_, hlive⟩⟩
      have := hlive (by omega)
      omega
    · rw [sweeper_settle hsettle, sweeper_settle hadvance, hsweeper]
      rfl

/-- The sweeper's turn before a set changes nothing about its turn afterwards: what is set
has not expired, and no purge is for it. -/
theorem settle_set_settle {c : Cache α} (h : c.QueuePassed) (k : String) (v : α) :
    (c.settle.set k v).settle = (c.set k v).settle := by
  cases hrunning : c.sweeper.running with
  | false => rw [settle_of_stopped hrunning]
  | true =>
    have hset : (c.set k v).sweeper.running = true := hrunning
    have hsettle : (c.settle.set k v).sweeper.running = true :=
      (running_settle c).trans hrunning
    have hsweeper : (c.settle.set k v).sweeper = c.settle.sweeper := rfl
    have hqueue : c.settle.sweeper.queue = [] := by rw [sweeper_settle hrunning]
    have hnext : c.settle.sweeper.nextSweep ≤ c.clock → c.sweeper.nextSweep ≤ c.clock := by
      rw [sweeper_settle hrunning]
      intro hdue
      simp only at hdue
      split at hdue
      · assumption
      · exact hdue
    have hlate : c.clock ≤ Time.deadline c.clock c.ttl := Time.le_deadline _ _
    refine eq_of_find? rfl rfl (fun j => ?_) ?_ rfl
    · ext e
      rw [find?_settle hsettle, find?_settle hset, hsweeper, hqueue, find?_set, find?_set]
      simp only [clock_settle, ttl_settle, List.not_mem_nil, not_false_eq_true, true_and]
      show _ ∧ (c.settle.sweeper.nextSweep ≤ c.clock → _) ↔
        _ ∧ _ ∉ c.sweeper.queue ∧ (c.sweeper.nextSweep ≤ c.clock → _)
      by_cases hj : j = k
      · rw [if_pos hj, if_pos hj]
        refine and_congr_right fun he => ?_
        obtain rfl := Option.some.inj he
        refine iff_of_true (fun _ => hlate) ⟨fun hq => ?_, fun _ => hlate⟩
        have := h hrunning _ hq
        simp only at this
        omega
      · rw [if_neg hj, if_neg hj, find?_settle hrunning, and_assoc, and_assoc]
        refine and_congr_right fun _ => and_congr_right fun _ => ?_
        exact ⟨fun hlive => hlive.1, fun hlive => ⟨hlive, fun hdue => hlive (hnext hdue)⟩⟩
    · have hset' : (c.set k v).settle.sweeper = c.settle.sweeper := by
        rw [sweeper_settle hset, sweeper_settle hrunning]
        rfl
      have honTime : (c.settle.set k v).OnTime := c.onTime_settle
      rw [sweeper_settle_of_onTime honTime hsettle, hset', hsweeper, ← hqueue]

/-! ### Steps -/

/-- The sweeper has had its turn. -/
structure AtRest (c : Cache α) : Prop where
  onTime : c.OnTime
  queue : c.sweeper.running = true → c.sweeper.queue = []

theorem atRest_settle (c : Cache α) : c.settle.AtRest where
  onTime := c.onTime_settle
  queue := by
    intro hrunning
    rw [running_settle] at hrunning
    rw [sweeper_settle hrunning]

theorem atRest_start (ttl : Nat) (begun : Int) : (start ttl begun : Cache α).AtRest where
  onTime := fun _ _ => rfl
  queue := fun _ => rfl

theorem atRest_run {c : Cache α} (h : c.AtRest) (ss : List (Step α)) : (c.run ss).2.AtRest := by
  induction ss generalizing c with
  | nil => exact h
  | cons s ss ih => exact ih (c.perform s).2.atRest_settle

theorem run_append_snd (c : Cache α) (ss ts : List (Step α)) :
    (c.run (ss ++ ts)).2 = ((c.run ss).2.run ts).2 := by
  induction ss generalizing c with
  | nil => rfl
  | cons s ss ih => exact ih (c.step s).2

theorem moves_append (c : Cache α) (ss ts : List (Step α)) :
    c.moves (ss ++ ts) = c.moves ss ++ (c.run ss).2.moves ts := by
  induction ss generalizing c with
  | nil => rfl
  | cons s ss ih =>
    rw [List.cons_append, moves, moves, ih, List.append_assoc]
    rfl

theorem AtRest.queuePassed {c : Cache α} (h : c.AtRest) : c.QueuePassed := by
  intro hrunning p hp
  rw [h.queue hrunning] at hp
  cases hp

theorem AtRest.onTime_lookup {c : Cache α} (h : c.AtRest) (k : String) :
    (c.lookup k).2.OnTime := by
  intro hrunning hdue
  rw [sweeper_lookup] at hrunning hdue ⊢
  rw [clock_lookup] at hdue ⊢
  exact h.onTime hrunning hdue

theorem lookup_eq_none_iff {c : Cache α} {k : String} :
    (c.lookup k).1 = none ↔ c.live k = none := by
  rw [lookup_fst, Option.map_eq_none_iff]

theorem step_load_of_live_eq_none {c : Cache α} {k : String} (l : Loader α)
    (h : c.live k = none) : c.step (.load k l none) = (.loaded ⟨l.outcome, true⟩ none,
      (((c.lookup k).2.advance l.cost).keep k l.outcome).settle) := by
  simp only [step, perform, loadDuring, load_of_live_eq_none l h]

/-- The steps that put in what a loader returned; a failure or a panic leaves nothing. -/
def keepSteps (k : String) : Outcome α → List (Step α)
  | .value v => [.call (.set k v)]
  | _ => []

/-- After a hit a load is the lookup. -/
theorem step_load_of_hit {c : Cache α} {k : String} {v : α} (l : Loader α)
    (h : (c.lookup k).1 = some v) : c.step (.load k l none) =
      (.loaded ⟨.value v, false⟩ none, (c.step (.call (.get k))).2) := by
  have hload := load_of_lookup_eq_some l h
  simp only [step, perform, loadDuring, hload, call]

/-- After a miss a load is the lookup, the time of its loader and the set of its value. -/
theorem step_load_of_miss {c : Cache α} (h : c.AtRest) {k : String} (l : Loader α)
    (hmiss : c.live k = none) : c.step (.load k l none) = (.loaded ⟨l.outcome, true⟩ none,
      (c.run ([.call (.get k), .advance l.cost] ++ keepSteps k l.outcome)).2) := by
  let d := (c.lookup k).2
  have hwaited : (d.settle.advance l.cost).settle = (d.advance l.cost).settle :=
    settle_advance_settle (h.onTime_lookup k) l.cost
  have hpassed : (d.advance l.cost).QueuePassed := by
    intro hrunning p hp
    have hp : p.token < d.clock := h.queuePassed.lookup k hrunning p hp
    show p.token < d.clock + l.cost
    omega
  have hsteps : (c.run ([.call (.get k), .advance l.cost] ++ keepSteps k l.outcome)).2 =
      ((d.settle.advance l.cost).settle.run (keepSteps k l.outcome)).2 := rfl
  rw [step_load_of_live_eq_none l hmiss, hsteps, hwaited]
  cases l.outcome with
  | value v => exact congrArg _ (settle_set_settle hpassed k v).symm
  | failure reason => rfl
  | panic reason => rfl

theorem live_settle_eq_none {c : Cache α} {k : String} (h : c.live k = none) :
    c.settle.live k = none := by
  rw [live_eq_none_iff] at h ⊢
  exact fun e he => h e (find?_of_find?_settle he)

theorem step_load_of_failure {c : Cache α} {k : String} {l : Loader α}
    (hmiss : c.live k = none) (hl : ∀ v, l.outcome ≠ .value v) :
    (c.step (.load k l none)).2 = ((c.lookup k).2.advance l.cost).settle := by
  rw [step_load_of_live_eq_none l hmiss]
  cases houtcome : l.outcome with
  | value v => exact absurd houtcome (hl v)
  | failure reason => rfl
  | panic reason => rfl

/-- A load that fails leaves its key absent. -/
theorem live_step_load_of_failure {c : Cache α} {k : String} {l : Loader α}
    (hmiss : c.live k = none) (hl : ∀ v, l.outcome ≠ .value v) :
    (c.step (.load k l none)).2.live k = none := by
  rw [step_load_of_failure hmiss hl]
  refine live_settle_eq_none ?_
  rw [live_advance, live_lookup, hmiss]
  rfl

/-- A load that fails puts nothing in. -/
theorem find?_of_find?_step_load {c : Cache α} {k j : String} {l : Loader α} {e : Entry α}
    (hmiss : c.live k = none) (hl : ∀ v, l.outcome ≠ .value v)
    (he : (c.step (.load k l none)).2.store.find? j = some e) : c.store.find? j = some e := by
  rw [step_load_of_failure hmiss hl] at he
  have hwaited : ((c.lookup k).2.advance l.cost).store = c.store := c.store_lookup k
  rw [← hwaited]
  exact find?_of_find?_settle he

theorem alike_of_mute_eq {c d : Cache α} (h : c.mute = d.mute) : Alike c d := by
  have hmuted : Alike c.mute d.mute := h ▸ .refl _
  exact ⟨hmuted.ttl, hmuted.clock, hmuted.live⟩

end Cache

namespace Recorded

open Deed (lastEntry)

/-- A key that nothing was written to since it was absent is absent. -/
theorem Faithful.live_eq_none_of_later {q r : Recorded α} (hq : q.Faithful) (hr : r.Faithful)
    {since : List (Deed α)} (hpast : r.past = since ++ q.past)
    (hclock : q.cache.clock ≤ r.cache.clock) (httl : r.cache.ttl = q.cache.ttl) {k : String}
    (hnone : q.cache.live k = none) (hwrote : ∀ v w, .wrote k v w ∉ since) :
    r.cache.live k = none := by
  rw [Option.eq_none_iff_forall_ne_some]
  intro e he
  obtain ⟨hlast, hlive⟩ := hr.live_eq_some_iff.1 he
  obtain ⟨w, hw, rfl⟩ := Option.map_eq_some_iff.1 hlast
  rw [hpast] at hw
  rcases Deed.lastWrite_append_eq_some hw with hmem | ⟨-, -, hw⟩
  · exact hwrote w.1 w.2 hmem
  · have hentry : lastEntry q.cache.ttl q.past k = some ⟨w.1, Time.deadline w.2 r.cache.ttl⟩ := by
      rw [lastEntry, hw, httl]
      rfl
    have hfound := hq.live_eq_some_iff.2 ⟨hentry, Int.le_trans hclock hlive⟩
    exact Option.some_ne_none _ (hfound.symm.trans hnone)

/-- The record of a run of steps. -/
def ofSteps (ttl : Nat) (begun : Int) (ss : List (Step α)) : Recorded α :=
  (start ttl begun).run ((Cache.start ttl begun).moves ss)

section OfSteps

variable (ttl : Nat) (begun : Int) (ss ts : List (Step α))

theorem faithful_ofSteps : (ofSteps ttl begun ss).Faithful := faithful_run ttl begun _

theorem mute_ofSteps :
    (ofSteps ttl begun ss).cache.mute = ((Cache.start ttl begun).run ss).2.mute :=
  mute_run_moves (faithful_start ttl begun) rfl ss

theorem follows_ofSteps_append :
    Follows (ofSteps ttl begun ss) (ofSteps ttl begun (ss ++ ts)) := by
  rw [ofSteps, ofSteps, Cache.moves_append, run_append]
  exact follows_run _ _

end OfSteps

/-- After a load that failed, the loader of the next load runs unless the key was written. -/
theorem load_runs_after_failure (ttl : Nat) (begun : Int) (ss more : List (Step α))
    {k : String} {l : Loader α} (hmiss : ((Cache.start ttl begun).run ss).2.live k = none)
    (hl : ∀ v, l.outcome ≠ .value v) :
    ∃ since, (ofSteps ttl begun (ss ++ [.load k l none] ++ more)).past =
        since ++ (ofSteps ttl begun (ss ++ [.load k l none])).past ∧
      ((∀ v w, .wrote k v w ∉ since) → ∀ m,
        (((Cache.start ttl begun).run (ss ++ [.load k l none] ++ more)).2.step
          (.load k m none)).1 = .loaded ⟨m.outcome, true⟩ none) := by
  have hfailed := faithful_ofSteps ttl begun (ss ++ [.load k l none])
  have hlater := faithful_ofSteps ttl begun (ss ++ [.load k l none] ++ more)
  obtain ⟨since, hpast, hclock, httl, -⟩ :=
    follows_ofSteps_append ttl begun (ss ++ [.load k l none]) more
  refine ⟨since, hpast, fun hwrote m => ?_⟩
  have habsent : (ofSteps ttl begun (ss ++ [.load k l none])).cache.live k = none := by
    rw [(Cache.alike_of_mute_eq (mute_ofSteps ttl begun _)).live, Cache.run_append_snd]
    exact Cache.live_step_load_of_failure hmiss hl
  have hstill := hfailed.live_eq_none_of_later hlater hpast hclock httl habsent hwrote
  rw [(Cache.alike_of_mute_eq (mute_ofSteps ttl begun _)).live] at hstill
  rw [Cache.step_load_of_live_eq_none m hstill]

/-- In every state that steps lead to, a load that hits is the lookup, and one that misses
leaves the very cache that the lookup leaves, the time that its loader takes and, if it
returned a value, the set of that value. The caller is handed what the loader ended with, an
error or a panic included. A load that fails puts nothing in, and whatever steps come after
it, none of them a write of the key, the loader of the next load of the key runs. -/
theorem load_eq_steps (ttl : Nat) (begun : Int) (ss : List (Step α)) (k : String)
    (l : Loader α) :
    let c := ((Cache.start ttl begun).run ss).2
    let load := Step.load k l none
    (∀ v, (c.step (.call (.get k))).1 = .answered (.found (some v)) →
      c.step load = (.loaded ⟨.value v, false⟩ none, (c.step (.call (.get k))).2)) ∧
    ((c.step (.call (.get k))).1 = .answered (.found none) →
      c.step load = (.loaded ⟨l.outcome, true⟩ none,
        (c.run ([.call (.get k), .advance l.cost] ++ Cache.keepSteps k l.outcome)).2) ∧
      ((∀ v, l.outcome ≠ .value v) →
        (∀ j e, (c.step load).2.store.find? j = some e → c.store.find? j = some e) ∧
        ∀ more, ∃ since,
          (ofSteps ttl begun (ss ++ [load] ++ more)).past =
            since ++ (ofSteps ttl begun (ss ++ [load])).past ∧
          ((∀ v w, .wrote k v w ∉ since) → ∀ m,
            (((c.step load).2.run more).2.step (.load k m none)).1 =
              .loaded ⟨m.outcome, true⟩ none))) := by
  intro c load
  have hget (found : Option α) (h : (c.step (.call (.get k))).1 = .answered (.found found)) :
      (c.lookup k).1 = found := by
    have hreply : (c.step (.call (.get k))).1 = .answered (.found (c.lookup k).1) := rfl
    rw [hreply] at h
    injection h with h
    injection h
  have hrest : c.AtRest := Cache.atRest_run (Cache.atRest_start ttl begun) ss
  refine ⟨fun v h => Cache.step_load_of_hit l (hget _ h), fun h => ?_⟩
  have hmiss := Cache.lookup_eq_none_iff.1 (hget _ h)
  refine ⟨Cache.step_load_of_miss hrest l hmiss, fun hl => ⟨fun j e he => ?_, fun more => ?_⟩⟩
  · exact Cache.find?_of_find?_step_load hmiss hl he
  · have hagain := load_runs_after_failure ttl begun ss more hmiss hl
    rwa [Cache.run_append_snd, Cache.run_append_snd] at hagain

/-- The value of a key has expired and its reload fails. By then another value has expired
too, and the sweep that came due meanwhile has removed both. The next load tries again. -/
theorem load_eq_steps_failure :
    let ss : List (Step Nat) :=
      [.call (.set "k" 1), .advance 1, .call (.set "j" 2), .advance 7, .advance 3]
    let c := ((Cache.start 10 0).run ss).2
    let load := Step.load "k" ⟨3, .failure "down"⟩ none
    c.clock = 11 ∧ c.size = 2 ∧ (c.step (.call (.get "k"))).1 = .answered (.found none) ∧
      c.step load = (.loaded ⟨.failure "down", true⟩ none,
        (c.run [.call (.get "k"), .advance 3]).2) ∧
      (c.step load).2.size = 0 ∧
      (((c.step load).2.run [.advance 1]).2.step (.load "k" ⟨0, .value 5⟩ none)).1 =
        .loaded ⟨.value 5, true⟩ none := by
  intro ss c load
  have hmiss : (c.step (.call (.get "k"))).1 = .answered (.found none) := by decide
  have hfailure : ∀ v, (Outcome.failure "down" : Outcome Nat) ≠ .value v := fun v h => nomatch h
  obtain ⟨hload, hfailed⟩ := (load_eq_steps 10 0 ss "k" ⟨3, .failure "down"⟩).2 hmiss
  obtain ⟨since, hpast, hagain⟩ := (hfailed hfailure).2 [.advance 1]
  have hquiet : (ofSteps 10 0 (ss ++ [load] ++ [.advance 1])).past =
      (ofSteps 10 0 (ss ++ [load])).past := by decide
  obtain rfl : since = [] := List.append_left_eq_self.1 (hpast.symm.trans hquiet)
  refine ⟨by decide, by decide, hmiss, hload, by decide, ?_⟩
  exact hagain (fun v w h => nomatch h) ⟨0, .value 5⟩

end Recorded

end ExpiringCache
