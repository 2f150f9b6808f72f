import ExpiringCache.Sweeper
import ExpiringCache.Worker

/-! Removals from a store: sweeps at an instant and purges. Each leaves an entry or takes it
away whatever the others do, so neither their order nor how often each is made matters
(`removeAll_congr`). While the clock stands still, the loop of a worker is nothing but the
removals it was asked for, after the sweep that is due (`run_at_one_instant`), which is what
a sweeper does that settles. -/

namespace ExpiringCache

universe u

variable {α : Type u}

inductive Removal where
  | sweep (now : Int)
  | purge (p : Purge)
deriving DecidableEq, Repr

/-- The removal leaves this entry of this key where it is. -/
def Removal.spares (k : String) (e : Entry α) : Removal → Bool
  | .sweep now => now ≤ e.expiresAt
  | .purge p => ¬(k = p.key ∧ e.expiresAt = p.token)

namespace Store

def remove (s : Store α) : Removal → Store α
  | .sweep now => (s.sweep now).2
  | .purge p => s.purge p

def removeAll (s : Store α) (rs : List Removal) : Store α := rs.foldl remove s

theorem find?_remove (s : Store α) (r : Removal) (k : String) :
    (s.remove r).find? k = (s.find? k).filter (r.spares k) := by
  cases r with
  | sweep now =>
    rw [remove, sweep_eq, find?_filter]
    congr 1
    funext e
    by_cases he : e.expiresAt < now
    · simp [Removal.spares, Entry.isExpired, he, Int.not_le.2 he]
    · simp [Removal.spares, Entry.isExpired, he, Int.not_lt.1 he]
  | purge p => exact s.find?_purge p k

theorem find?_removeAll (s : Store α) (rs : List Removal) (k : String) :
    (s.removeAll rs).find? k = (s.find? k).filter fun e => ∀ r ∈ rs, r.spares k e := by
  induction rs generalizing s with
  | nil => cases h : s.find? k <;> simp [removeAll, h, Option.filter]
  | cons r rs ih =>
    have hcons : s.removeAll (r :: rs) = (s.remove r).removeAll rs := rfl
    rw [hcons, ih, find?_remove, Option.filter_filter]
    congr 1
    funext e
    simp

/-- The same removals lead to the same store, in any order and each as often as you like. -/
theorem removeAll_congr (s : Store α) {rs qs : List Removal} (h : ∀ r, r ∈ rs ↔ r ∈ qs) :
    s.removeAll rs = s.removeAll qs := by
  refine ext_find? fun k => ?_
  rw [find?_removeAll, find?_removeAll]
  simp only [h]

theorem purgeEach_snd (s : Store α) (ps : List Purge) :
    (s.purgeEach ps).2 = s.removeAll (ps.map .purge) := by
  induction ps generalizing s with
  | nil => rfl
  | cons p ps ih => exact ih (s.purge p)

end Store

/-! ### Rounds at one instant -/

/-- The purge that a round took off the queue. -/
def Round.taken? : Round α → Option Purge
  | .purged p _ => some p
  | _ => none

def Round.isSweep : Round α → Bool
  | .swept _ _ => true
  | _ => false

/-- The sweep at `c`, if one is due there. -/
def Removal.due (nextSweep c : Int) : List Removal := if nextSweep ≤ c then [.sweep c] else []

theorem Removal.sweep_mem_due_iff {nextSweep c now : Int} :
    .sweep now ∈ due nextSweep c ↔ nextSweep ≤ c ∧ now = c := by
  unfold due
  split <;> simp [*]

theorem Removal.purge_not_mem_due {nextSweep c : Int} {p : Purge} :
    .purge p ∉ due nextSweep c := by
  unfold due
  split <;> simp

namespace Worker

/-- The rounds that carry out purges in turn. -/
def purgeRounds (s : Store α) : List Purge → List (Round α)
  | [] => []
  | p :: ps => .purged p (s.target? p) :: purgeRounds (s.purge p) ps

theorem filterMap_taken?_purgeRounds (s : Store α) (ps : List Purge) :
    (purgeRounds s ps).filterMap Round.taken? = ps := by
  induction ps generalizing s with
  | nil => rfl
  | cons p ps ih =>
    rw [purgeRounds, List.filterMap_cons, ih]
    rfl

theorem countP_isSweep_purgeRounds (s : Store α) (ps : List Purge) :
    (purgeRounds s ps).countP Round.isSweep = 0 := by
  induction ps generalizing s with
  | nil => rfl
  | cons p ps ih =>
    rw [purgeRounds, List.countP_cons, ih]
    rfl

theorem removalTime_zero (removed : List (String × Entry α)) :
    removalTime (fun _ => 0) removed = 0 := by
  induction removed with
  | nil => rfl
  | cons b bs ih => exact (Nat.zero_add _).trans ih

section Still

variable (interval : Nat) (s : Store α) (c nextSweep : Int) (ps : List Purge)

/-- While no sweep is due, the loop carries out its queue and ends. -/
theorem run_purges_of_not_due (h : c < nextSweep) :
    (⟨interval, s, c, nextSweep, ps.map .purge⟩ : Worker α).run (fun _ => 0) =
      some (purgeRounds s ps ++ [.closed],
        ⟨interval, s.removeAll (ps.map .purge), c, nextSweep, []⟩) := by
  have hdue (t : Store α) (queue : List Request) :
      (⟨interval, t, c, nextSweep, queue⟩ : Worker α).isDue = false := by
    simpa [isDue] using h
  induction ps generalizing s with
  | nil => exact run_of_queue_nil _ (hdue s _) rfl
  | cons p ps ih =>
    have hpurge (queue : List Request) : (⟨interval, s, c, nextSweep, queue⟩ : Worker α).purge
        (fun _ => 0) p (ps.map .purge) =
        (.purged p (s.target? p), ⟨interval, s.purge p, c, nextSweep, ps.map .purge⟩) := by
      rw [purge]
      cases s.target? p <;> simp
    refine (run_of_queue_purge _ (hdue s _) rfl).trans ?_
    rw [hpurge, ih]
    rfl

/-- A sweep that is due comes first. -/
theorem run_purges_of_due (h : nextSweep ≤ c) (hlater : c < Time.deadline c interval) :
    (⟨interval, s, c, nextSweep, ps.map .purge⟩ : Worker α).run (fun _ => 0) =
      some (.swept c (s.sweep c).1 :: purgeRounds (s.sweep c).2 ps ++ [.closed],
        ⟨interval, s.removeAll (.sweep c :: ps.map .purge), c, Time.deadline c interval, []⟩) := by
  have hsweep : (⟨interval, s, c, nextSweep, ps.map .purge⟩ : Worker α).sweep (fun _ => 0) =
      (.swept c (s.sweep c).1,
        ⟨interval, (s.sweep c).2, c, Time.deadline c interval, ps.map .purge⟩) := by
    rw [sweep]
    simp [removalTime_zero]
  have hspins : (⟨interval, s, c, nextSweep, ps.map .purge⟩ : Worker α).spins (fun _ => 0) =
      false := by
    rw [spins, hsweep]
    simp [isDue, hlater]
  have hrest := run_purges_of_not_due interval (s.sweep c).2 c (Time.deadline c interval) ps hlater
  rw [run_of_due (by simpa [isDue] using h) hspins, hsweep, hrest]
  rfl

/-- The loop makes the sweep that is due and then the purges of its queue, one a round. -/
theorem run_purges_eq (hlater : c < Time.deadline c interval) :
    ∃ rounds, (⟨interval, s, c, nextSweep, ps.map .purge⟩ : Worker α).run (fun _ => 0) =
        some (rounds ++ [.closed],
          ⟨interval, s.removeAll (Removal.due nextSweep c ++ ps.map .purge), c,
            if nextSweep ≤ c then Time.deadline c interval else nextSweep, []⟩) ∧
      rounds.countP Round.isSweep = (if nextSweep ≤ c then 1 else 0) ∧
      rounds.filterMap Round.taken? = ps := by
  by_cases hdue : nextSweep ≤ c
  · refine ⟨.swept c (s.sweep c).1 :: purgeRounds (s.sweep c).2 ps, ?_, ?_, ?_⟩
    · rw [run_purges_of_due interval s c nextSweep ps hdue hlater]
      simp [Removal.due, hdue]
    · rw [List.countP_cons, countP_isSweep_purgeRounds, if_pos hdue]
      rfl
    · exact filterMap_taken?_purgeRounds (s.sweep c).2 ps
  · refine ⟨purgeRounds s ps, ?_, ?_, ?_⟩
    · rw [run_purges_of_not_due interval s c nextSweep ps (by omega)]
      simp [Removal.due, hdue]
    · rw [countP_isSweep_purgeRounds, if_neg hdue]
    · exact filterMap_taken?_purgeRounds s ps

end Still

theorem settle_eq_removeAll (interval : Nat) (s : Store α) (c nextSweep : Int)
    (ps : List Purge) : (⟨interval, nextSweep, ps, true⟩ : Sweeper).settle s c =
      (⟨interval, if nextSweep ≤ c then Time.deadline c interval else nextSweep, [], true⟩,
        s.removeAll (Removal.due nextSweep c ++ ps.map .purge)) := by
  rw [Sweeper.settle, if_pos rfl, Removal.due]
  split
  · rw [Store.purgeEach_snd]
    rfl
  · rw [Store.purgeEach_snd]
    rfl

/-- Let the clock stand still at an instant from which an interval leads further on. The
loop over a queue of purges ends; it sweeps once if a sweep is due and not at all otherwise,
and takes every purge once, in the order of the queue. What it leaves are the entries that
no purge of the queue is for and that, if a sweep was due, have not expired. A sweeper that
settles leaves the same and has its next sweep at the same instant. All removals lead to
this store that are the purges of the queue and the sweep that is due, in any order and any
number of times each, and so does the loop over any queue of the same purges. -/
theorem run_at_one_instant (interval : Nat) (s : Store α) (c nextSweep : Int)
    (ps : List Purge) (hlater : c < Time.deadline c interval) :
    let run (queue : List Purge) :=
      (⟨interval, s, c, nextSweep, queue.map .purge⟩ : Worker α).run fun _ => 0
    ∃ rounds last, run ps = some (rounds ++ [.closed], last) ∧
      rounds.countP Round.isSweep = (if nextSweep ≤ c then 1 else 0) ∧
      rounds.filterMap Round.taken? = ps ∧
      last.queue = [] ∧ last.clock = c ∧ last.isDue = false ∧
      last.nextSweep = (if nextSweep ≤ c then Time.deadline c interval else nextSweep) ∧
      (∀ k e, last.store.find? k = some e ↔
        s.find? k = some e ∧ ⟨k, e.expiresAt⟩ ∉ ps ∧ (nextSweep ≤ c → c ≤ e.expiresAt)) ∧
      (⟨interval, nextSweep, ps, true⟩ : Sweeper).settle s c =
        (⟨interval, last.nextSweep, [], true⟩, last.store) ∧
      (∀ rs : List Removal, (∀ p, .purge p ∈ rs ↔ p ∈ ps) →
        (∀ now, .sweep now ∈ rs ↔ nextSweep ≤ c ∧ now = c) → s.removeAll rs = last.store) ∧
      ∀ qs : List Purge, (∀ p, p ∈ qs ↔ p ∈ ps) → ∃ rounds, run qs = some (rounds, last) := by
  intro run
  obtain ⟨rounds, hrun, hsweeps, htaken⟩ := run_purges_eq interval s c nextSweep ps hlater
  have hsettle := settle_eq_removeAll interval s c nextSweep ps
  refine ⟨rounds, _, hrun, hsweeps, htaken, rfl, rfl, ?_, rfl, fun k e => ?_, hsettle,
    fun rs hpurges hsweep => ?_, fun qs hqs => ?_⟩
  · rw [isDue, decide_eq_false_iff_not]
    show ¬(if nextSweep ≤ c then Time.deadline c interval else nextSweep) ≤ c
    split <;> omega
  · have hstore := congrArg (·.2.find? k) hsettle
    simp only at hstore
    rw [← hstore, Sweeper.find?_settle rfl, Option.filter_eq_some_iff, decide_eq_true_iff]
  · refine s.removeAll_congr fun r => ?_
    cases r with
    | sweep now => simp [hsweep, Removal.sweep_mem_due_iff]
    | purge p => simp [hpurges, Removal.purge_not_mem_due]
  · obtain ⟨others, hothers, -, -⟩ := run_purges_eq interval s c nextSweep qs hlater
    refine ⟨others ++ [.closed], hothers.trans ?_⟩
    have hstore : s.removeAll (Removal.due nextSweep c ++ qs.map .purge) =
        s.removeAll (Removal.due nextSweep c ++ ps.map .purge) := by
      refine s.removeAll_congr fun r => ?_
      simp [hqs]
    rw [hstore]

/-- A sweep is due. One entry has expired, one is purged while it lives, asked for twice, and
one stays, since its purge carries another token and it expires at this very instant. -/
theorem run_at_one_instant_due :
    let s : Store Nat := ((Store.empty.insert "a" ⟨1, 5⟩).insert "b" ⟨2, 9⟩).insert "d" ⟨3, 7⟩
    let ps : List Purge := [⟨"b", 9⟩, ⟨"x", 0⟩, ⟨"b", 9⟩, ⟨"d", 6⟩]
    7 < Time.deadline 7 2 ∧ ∃ rounds last,
      (⟨2, s, 7, 5, ps.map .purge⟩ : Worker Nat).run (fun _ => 0) =
        some (rounds ++ [.closed], last) ∧
      rounds.countP Round.isSweep = 1 ∧ last.nextSweep = 9 ∧
      last.store.find? "a" = none ∧ last.store.find? "b" = none ∧
      last.store.find? "d" = some ⟨3, 7⟩ ∧
      s.removeAll [.purge ⟨"d", 6⟩, .sweep 7, .purge ⟨"x", 0⟩, .purge ⟨"b", 9⟩, .sweep 7] =
        last.store := by
  intro s ps
  have hlater : 7 < Time.deadline 7 2 := by decide
  obtain ⟨rounds, last, hrun, hsweeps, -, -, -, -, hnext, hfind, -, horder, -⟩ :=
    run_at_one_instant 2 s 7 5 ps hlater
  refine ⟨hlater, rounds, last, hrun, hsweeps, hnext, ?_, ?_, ?_, horder _ ?_ ?_⟩
  · rw [Option.eq_none_iff_forall_ne_some]
    rintro e he
    obtain ⟨hstored, -, hlive⟩ := (hfind "a" e).1 he
    obtain rfl : (⟨1, 5⟩ : Entry Nat) = e := by
      simpa using (show s.find? "a" = some ⟨1, 5⟩ by decide).symm.trans hstored
    exact absurd (hlive (by decide)) (by decide)
  · rw [Option.eq_none_iff_forall_ne_some]
    rintro e he
    obtain ⟨hstored, hnot, -⟩ := (hfind "b" e).1 he
    obtain rfl : (⟨2, 9⟩ : Entry Nat) = e := by
      simpa using (show s.find? "b" = some ⟨2, 9⟩ by decide).symm.trans hstored
    exact absurd (by decide) hnot
  · exact (hfind "d" _).2 ⟨by decide, by decide, by decide⟩
  · grind
  · intro now
    simp

end Worker

end ExpiringCache
