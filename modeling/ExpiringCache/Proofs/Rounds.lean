import ExpiringCache.Proofs.Removals

/-! How long the loop of a worker goes on. A round takes what it removes out of the store and
adds the time that this takes to the clock, so no sweep is due after a sweep or a purge
unless something was removed whose removal takes time. That bounds the sweeps by the entries
of that kind, and the loop ends (`run_ends`) as long as an interval leads further on from
every clock value that it comes to. -/

namespace ExpiringCache

universe u

variable {α : Type u}

namespace Store

/-- What a purge removes and what it leaves are what was there. -/
theorem purge_perm (s : Store α) (p : Purge) :
    (((s.target? p).map fun e => (p.key, e)).toList ++ (s.purge p).bindings).Perm s.bindings := by
  cases h : s.target? p with
  | none => simp [purge, h]
  | some e =>
    have hfind := (target?_eq_some_iff.1 h).1
    have hkey := s.bindings_filter_key p.key
    rw [hfind] at hkey
    have hpurge : (s.purge p).bindings = s.bindings.filter fun b => !(b.1 == p.key) := by
      rw [purge, h]
      rfl
    have hremoved : ((some e).map fun e => (p.key, e)).toList =
        s.bindings.filter (·.1 == p.key) := hkey.symm
    rw [hremoved, hpurge]
    exact List.filter_append_perm _ _

theorem purgeEach_perm (s : Store α) (ps : List Purge) :
    ((s.purgeEach ps).1 ++ (s.purgeEach ps).2.bindings).Perm s.bindings := by
  induction ps generalizing s with
  | nil => exact .refl _
  | cons p ps ih =>
    rw [purgeEach, List.append_assoc]
    exact ((ih (s.purge p)).append_left _).trans (s.purge_perm p)

/-- What a sweep removes and what it leaves are what was there. -/
theorem sweep_perm (s : Store α) (now : Int) :
    ((s.sweep now).1 ++ (s.sweep now).2.bindings).Perm s.bindings :=
  s.purgeEach_perm (s.mark now)

end Store

/-- The bindings that a round removed. -/
def Round.removed : Round α → List (String × Entry α)
  | .swept _ removed => removed
  | .purged p removed => (removed.map fun e => (p.key, e)).toList
  | _ => []

namespace Worker

variable {cost : α → Nat} {w : Worker α} {p : Purge} {rest : List Request}

/-! ### The time that removals take -/

section RemovalTime

variable (cost)

theorem removalTime_append (bs cs : List (String × Entry α)) :
    removalTime cost (bs ++ cs) = removalTime cost bs + removalTime cost cs := by
  induction bs with
  | nil => exact (Nat.zero_add _).symm
  | cons b bs ih =>
    have hcons : removalTime cost (b :: bs ++ cs) =
        cost b.2.value + removalTime cost (bs ++ cs) := rfl
    rw [hcons, ih, ← Nat.add_assoc]
    rfl

theorem removalTime_perm {bs cs : List (String × Entry α)} (h : bs.Perm cs) :
    removalTime cost bs = removalTime cost cs := by
  induction h with
  | nil => rfl
  | cons b _ ih => exact congrArg (cost b.2.value + ·) ih
  | swap b c bs => exact Nat.add_left_comm _ _ _
  | trans _ _ ih ih' => exact ih.trans ih'

end RemovalTime

theorem exists_slow_of_removalTime_pos {bs : List (String × Entry α)}
    (h : 0 < removalTime cost bs) : ∃ b ∈ bs, 0 < cost b.2.value := by
  induction bs with
  | nil => exact absurd h (Nat.lt_irrefl 0)
  | cons b bs ih =>
    by_cases hb : 0 < cost b.2.value
    · exact ⟨b, .head _, hb⟩
    · have hsplit : removalTime cost (b :: bs) = cost b.2.value + removalTime cost bs := rfl
      obtain ⟨c, hc, hslow⟩ := ih (by omega)
      exact ⟨c, .tail _ hc, hslow⟩

/-- The number of bindings whose removal takes time. -/
def slow (cost : α → Nat) (bs : List (String × Entry α)) : Nat :=
  bs.countP fun b => 0 < cost b.2.value

theorem slow_pos_iff {bs : List (String × Entry α)} :
    0 < slow cost bs ↔ ∃ b ∈ bs, 0 < cost b.2.value := by
  rw [slow, List.countP_pos_iff]
  simp only [decide_eq_true_eq]

theorem slow_append (bs cs : List (String × Entry α)) :
    slow cost (bs ++ cs) = slow cost bs + slow cost cs := List.countP_append

/-! ### What a round removes -/

section Removed

variable (cost)

theorem sweep_perm (w : Worker α) :
    ((w.sweep cost).1.removed ++ (w.sweep cost).2.store.bindings).Perm w.store.bindings :=
  w.store.sweep_perm w.clock

theorem purge_perm (w : Worker α) (p : Purge) (rest : List Request) :
    ((w.purge cost p rest).1.removed ++ (w.purge cost p rest).2.store.bindings).Perm
      w.store.bindings := w.store.purge_perm p

theorem clock_sweep (w : Worker α) :
    (w.sweep cost).2.clock = w.clock + removalTime cost (w.sweep cost).1.removed := rfl

theorem clock_purge (w : Worker α) (p : Purge) (rest : List Request) :
    (w.purge cost p rest).2.clock =
      w.clock + removalTime cost (w.purge cost p rest).1.removed := by
  simp only [purge, Round.removed]
  cases w.store.target? p <;> rfl

theorem slow_sweep (w : Worker α) :
    slow cost (w.sweep cost).1.removed + slow cost (w.sweep cost).2.store.bindings =
      slow cost w.store.bindings := by
  rw [← slow_append]
  exact (w.sweep_perm cost).countP_eq _

theorem slow_purge (w : Worker α) (p : Purge) (rest : List Request) :
    slow cost (w.purge cost p rest).1.removed + slow cost (w.purge cost p rest).2.store.bindings =
      slow cost w.store.bindings := by
  rw [← slow_append]
  exact (w.purge_perm cost p rest).countP_eq _

end Removed

/-- Only by what it removes can a purge make a sweep due. -/
theorem exists_slow_of_isDue_purge (hdue : w.isDue = false)
    (hlater : (w.purge cost p rest).2.isDue = true) :
    ∃ b ∈ (w.purge cost p rest).1.removed, 0 < cost b.2.value := by
  have hclock := w.clock_purge cost p rest
  have hnext : (w.purge cost p rest).2.nextSweep = w.nextSweep := rfl
  rw [isDue, decide_eq_false_iff_not] at hdue
  rw [isDue, decide_eq_true_iff] at hlater
  exact exists_slow_of_removalTime_pos (by omega)

/-- Only by what it removes can a sweep make the next one due, where an interval leads
further on. -/
theorem exists_slow_of_isDue_sweep (honward : w.clock < Time.deadline w.clock w.interval)
    (hlater : (w.sweep cost).2.isDue = true) :
    ∃ b ∈ (w.sweep cost).1.removed, 0 < cost b.2.value := by
  have hclock := w.clock_sweep cost
  have hnext : (w.sweep cost).2.nextSweep = Time.deadline w.clock w.interval := rfl
  rw [isDue, decide_eq_true_iff] at hlater
  exact exists_slow_of_removalTime_pos (by omega)

section Paid

variable (cost)

theorem isDue_purge_le (p : Purge) (rest : List Request) (hdue : w.isDue = false) :
    (w.purge cost p rest).2.isDue.toNat ≤ slow cost (w.purge cost p rest).1.removed := by
  cases hlater : (w.purge cost p rest).2.isDue with
  | false => exact Nat.zero_le _
  | true => exact slow_pos_iff.2 (exists_slow_of_isDue_purge hdue hlater)

theorem isDue_sweep_le (honward : w.clock < Time.deadline w.clock w.interval) :
    (w.sweep cost).2.isDue.toNat ≤ slow cost (w.sweep cost).1.removed := by
  cases hlater : (w.sweep cost).2.isDue with
  | false => exact Nat.zero_le _
  | true => exact slow_pos_iff.2 (exists_slow_of_isDue_sweep honward hlater)

end Paid

/-! ### The states between the rounds -/

/-- On its way from `w` the loop comes to the state `v` between two rounds. -/
inductive Reaches (cost : α → Nat) : Worker α → Worker α → Prop where
  | refl (w : Worker α) : Reaches cost w w
  | sweep {w v : Worker α} (hdue : w.isDue = true) (h : Reaches cost (w.sweep cost).2 v) :
      Reaches cost w v
  | purge {w v : Worker α} {p : Purge} {rest : List Request} (hdue : w.isDue = false)
      (hqueue : w.queue = .purge p :: rest) (h : Reaches cost (w.purge cost p rest).2 v) :
      Reaches cost w v

/-- From every clock value that the loop comes to, an interval leads further on. -/
def Onward (cost : α → Nat) (w : Worker α) : Prop :=
  ∀ v, Reaches cost w v → v.clock < Time.deadline v.clock v.interval

namespace Onward

theorem clock_lt (h : Onward cost w) : w.clock < Time.deadline w.clock w.interval :=
  h w (.refl w)

theorem sweep (h : Onward cost w) (hdue : w.isDue = true) : Onward cost (w.sweep cost).2 :=
  fun v hv => h v (.sweep hdue hv)

theorem purge (h : Onward cost w) (hdue : w.isDue = false) (hqueue : w.queue = .purge p :: rest) :
    Onward cost (w.purge cost p rest).2 :=
  fun v hv => h v (.purge hdue hqueue hv)

theorem spins (h : Onward cost w) : w.spins cost = false := by
  rw [Worker.spins]
  cases hlater : (w.sweep cost).2.isDue with
  | false => rw [Bool.and_false]
  | true =>
    -- then something was removed
    obtain ⟨b, hb, -⟩ := exists_slow_of_isDue_sweep h.clock_lt hlater
    have hremoved : (w.store.sweep w.clock).1.isEmpty = false := by
      rw [List.isEmpty_eq_false_iff]
      exact List.ne_nil_of_mem hb
    rw [hremoved, Bool.and_false, Bool.false_and]

end Onward

/-- What the clock may still gain is the time that removing all entries takes. -/
theorem Reaches.clock_add {v : Worker α} (h : Reaches cost w v) :
    v.interval = w.interval ∧ v.clock + removalTime cost v.store.bindings =
      w.clock + removalTime cost w.store.bindings := by
  induction h with
  | refl w => exact ⟨rfl, rfl⟩
  | @sweep w v _ _ ih =>
    have hperm := removalTime_perm cost (w.sweep_perm cost)
    have hclock := w.clock_sweep cost
    rw [removalTime_append] at hperm
    exact ⟨ih.1, by omega⟩
  | @purge w v p rest _ _ _ ih =>
    have hperm := removalTime_perm cost (w.purge_perm cost p rest)
    have hclock := w.clock_purge cost p rest
    rw [removalTime_append] at hperm
    exact ⟨ih.1, by omega⟩

/-- An interval leads further on as long as its end is not past the last instant. -/
theorem onward_of_le (hpos : 0 < w.interval)
    (hle : w.clock + removalTime cost w.store.bindings + w.interval ≤ Time.latest) :
    Onward cost w := by
  intro v hv
  obtain ⟨hinterval, hclock⟩ := hv.clock_add
  rw [Time.deadline_eq_add (by omega)]
  omega

/-! ### Whole runs -/

/-- The loop goes from `w` through these rounds and ends in the state `last`. -/
inductive Runs (cost : α → Nat) : Worker α → List (Round α) → Worker α → Prop where
  | closed {w : Worker α} (hdue : w.isDue = false) (hqueue : w.queue = []) :
      Runs cost w [.closed] w
  | shutdown {w : Worker α} {rest : List Request} (hdue : w.isDue = false)
      (hqueue : w.queue = .shutdown :: rest) :
      Runs cost w [.shutdown] { w with queue := rest }
  | purge {w last : Worker α} {p : Purge} {rest : List Request} {rounds : List (Round α)}
      (hdue : w.isDue = false) (hqueue : w.queue = .purge p :: rest)
      (h : Runs cost (w.purge cost p rest).2 rounds last) :
      Runs cost w ((w.purge cost p rest).1 :: rounds) last
  | sweep {w last : Worker α} {rounds : List (Round α)} (hdue : w.isDue = true)
      (h : Runs cost (w.sweep cost).2 rounds last) :
      Runs cost w ((w.sweep cost).1 :: rounds) last

theorem runs_of_run_eq_some {rounds : List (Round α)} {last : Worker α}
    (h : w.run cost = some (rounds, last)) : Runs cost w rounds last := by
  induction w using Worker.run.induct cost generalizing rounds with
  | case1 w hdue hspin =>
    rw [run, if_pos hdue, if_pos hspin] at h
    cases h
  | case2 w hdue hspin ih =>
    rw [run_of_due hdue (by simpa using hspin), Option.map_eq_some_iff] at h
    obtain ⟨⟨others, end'⟩, hrest, heq⟩ := h
    cases heq
    exact .sweep hdue (ih hrest)
  | case3 w hdue hqueue =>
    have hdue : w.isDue = false := by simpa using hdue
    rw [run_of_queue_nil cost hdue hqueue] at h
    cases h
    exact .closed hdue hqueue
  | case4 w hdue rest hqueue =>
    have hdue : w.isDue = false := by simpa using hdue
    rw [run_of_queue_shutdown cost hdue hqueue] at h
    cases h
    exact .shutdown hdue hqueue
  | case5 w hdue p rest hqueue ih =>
    have hdue : w.isDue = false := by simpa using hdue
    rw [run_of_queue_purge cost hdue hqueue, Option.map_eq_some_iff] at h
    obtain ⟨⟨others, end'⟩, hrest, heq⟩ := h
    cases heq
    exact .purge hdue hqueue (ih hrest)

/-- Where an interval leads further on at all times, the loop ends. -/
theorem Onward.exists_run (h : Onward cost w) :
    ∃ rounds last, w.run cost = some (rounds, last) := by
  induction w using Worker.run.induct cost with
  | case1 w hdue hspin => exact absurd hspin (by simp [h.spins])
  | case2 w hdue hspin ih =>
    obtain ⟨rounds, last, hrest⟩ := ih (h.sweep hdue)
    refine ⟨(w.sweep cost).1 :: rounds, last, ?_⟩
    rw [run_of_due hdue h.spins, hrest]
    rfl
  | case3 w hdue hqueue =>
    exact ⟨_, _, run_of_queue_nil cost (by simpa using hdue) hqueue⟩
  | case4 w hdue rest hqueue =>
    exact ⟨_, _, run_of_queue_shutdown cost (by simpa using hdue) hqueue⟩
  | case5 w hdue p rest hqueue ih =>
    have hdue : w.isDue = false := by simpa using hdue
    obtain ⟨rounds, last, hrest⟩ := ih (h.purge hdue hqueue)
    refine ⟨(w.purge cost p rest).1 :: rounds, last, ?_⟩
    rw [run_of_queue_purge cost hdue hqueue, hrest]
    rfl

namespace Runs

variable {rounds : List (Round α)} {last : Worker α}

/-- Every round but the sweeps and the last one takes a command. -/
theorem length_le (h : Runs cost w rounds last) :
    rounds.length ≤ w.queue.length + rounds.countP Round.isSweep + 1 := by
  induction h with
  | closed hdue hqueue => exact Nat.le_add_left _ _
  | shutdown hdue hqueue => exact Nat.le_add_left _ _
  | @purge w last p rest rounds hdue hqueue h ih =>
    have hrest : (w.purge cost p rest).2.queue = rest := rfl
    have hround : (w.purge cost p rest).1.isSweep = false := rfl
    rw [hrest] at ih
    rw [List.length_cons, List.countP_cons, hqueue, List.length_cons, hround, if_neg (by simp)]
    omega
  | @sweep w last rounds hdue h ih =>
    have hrest : (w.sweep cost).2.queue = w.queue := rfl
    have hround : (w.sweep cost).1.isSweep = true := rfl
    rw [hrest] at ih
    rw [List.length_cons, List.countP_cons, hround, if_pos rfl]
    omega

/-- An entry whose removal takes time pays for every sweep but one that is due at once. -/
theorem countP_isSweep_le (h : Runs cost w rounds last) (honward : Onward cost w) :
    rounds.countP Round.isSweep ≤ slow cost w.store.bindings + w.isDue.toNat := by
  induction h with
  | closed hdue hqueue => exact Nat.zero_le _
  | shutdown hdue hqueue => exact Nat.zero_le _
  | @purge w last p rest rounds hdue hqueue h ih =>
    have hround : (w.purge cost p rest).1.isSweep = false := rfl
    have hrest := ih (honward.purge hdue hqueue)
    have hslow := w.slow_purge cost p rest
    have hpaid := isDue_purge_le cost p rest hdue
    rw [List.countP_cons, hround, if_neg (by simp)]
    omega
  | @sweep w last rounds hdue h ih =>
    have hround : (w.sweep cost).1.isSweep = true := rfl
    have hrest := ih (honward.sweep hdue)
    have hslow := w.slow_sweep cost
    have hpaid := isDue_sweep_le cost honward.clock_lt
    rw [List.countP_cons, hround, if_pos rfl, hdue, Bool.toNat_true]
    omega

variable {between after : List (Round α)} {now : Int} {removed : List (String × Entry α)}

/-- A single round that sweeps nothing is not one of several with a sweep among them. -/
theorem singleton_ne_append_swept {r : Round α} (hr : r.isSweep = false) :
    [r] ≠ between ++ .swept now removed :: after := by
  intro heq
  have hmem : .swept now removed ∈ [r] := heq ▸ List.mem_append_right _ (.head _)
  cases List.mem_singleton.1 hmem
  cases hr

/-- While no sweep is due, one that comes later has something slow removed before it. -/
theorem exists_slow_of_not_due (h : Runs cost w rounds last) (hdue : w.isDue = false)
    (hrounds : rounds = between ++ .swept now removed :: after) :
    ∃ b ∈ between.flatMap Round.removed, 0 < cost b.2.value := by
  induction h generalizing between with
  | closed hdue hqueue => exact absurd hrounds (singleton_ne_append_swept rfl)
  | shutdown hdue hqueue => exact absurd hrounds (singleton_ne_append_swept rfl)
  | @purge w last p rest rounds _ hqueue h ih =>
    cases between with
    | nil => cases (List.cons.inj hrounds).1
    | cons r between =>
      obtain ⟨rfl, hrest⟩ := List.cons.inj hrounds
      rw [List.flatMap_cons]
      cases hlater : (w.purge cost p rest).2.isDue with
      | true =>
        obtain ⟨b, hb, hslow⟩ := exists_slow_of_isDue_purge hdue hlater
        exact ⟨b, List.mem_append_left _ hb, hslow⟩
      | false =>
        obtain ⟨b, hb, hslow⟩ := ih hlater hrest
        exact ⟨b, List.mem_append_right _ hb, hslow⟩
  | sweep hdue' h ih => exact absurd (hdue.symm.trans hdue') Bool.false_ne_true

/-- Between a sweep and a later one something slow is removed, if not by the first itself. -/
theorem exists_slow_of_sweep (h : Runs cost w rounds last) (honward : Onward cost w)
    {before : List (Round α)} {earlier : Int} {gone : List (String × Entry α)}
    (hrounds : rounds =
      before ++ .swept earlier gone :: between ++ .swept now removed :: after) :
    ∃ b ∈ (.swept earlier gone :: between).flatMap Round.removed, 0 < cost b.2.value := by
  induction h generalizing before with
  | closed hdue hqueue => exact absurd hrounds (singleton_ne_append_swept rfl)
  | shutdown hdue hqueue => exact absurd hrounds (singleton_ne_append_swept rfl)
  | purge hdue hqueue h ih =>
    cases before with
    | nil => cases (List.cons.inj hrounds).1
    | cons r before => exact ih (honward.purge hdue hqueue) (List.cons.inj hrounds).2
  | @sweep w last rounds hdue h ih =>
    cases before with
    | cons r before => exact ih (honward.sweep hdue) (List.cons.inj hrounds).2
    | nil =>
      obtain ⟨hround, hrest⟩ := List.cons.inj hrounds
      rw [← hround, List.flatMap_cons]
      cases hlater : (w.sweep cost).2.isDue with
      | true =>
        obtain ⟨b, hb, hslow⟩ := exists_slow_of_isDue_sweep honward.clock_lt hlater
        exact ⟨b, List.mem_append_left _ hb, hslow⟩
      | false =>
        obtain ⟨b, hb, hslow⟩ := h.exists_slow_of_not_due hlater hrest
        exact ⟨b, List.mem_append_right _ hb, hslow⟩

end Runs

/-- Let a worker start on a queue that nobody adds to, and let an interval lead further on
from every clock value that the loop comes to. Then the loop ends. From its start, and from
any sweep on, that sweep included, something is removed before the next sweep whose removal
takes time. So there are no more sweeps than entries of that kind, and no more rounds than
commands and entries and one. -/
theorem run_ends (cost : α → Nat) (interval : Nat) (s : Store α) (begun : Int)
    (queue : List Request)
    (h : ∀ v, Reaches cost (start interval s begun queue) v →
      v.clock < Time.deadline v.clock v.interval) :
    ∃ rounds last, (start interval s begun queue).run cost = some (rounds, last) ∧
      (∀ before between now removed after,
        rounds = before ++ between ++ .swept now removed :: after →
        (before = [] ∨ ∃ r ∈ between.head?, r.isSweep = true) →
        ∃ b ∈ between.flatMap Round.removed, 0 < cost b.2.value) ∧
      rounds.countP Round.isSweep ≤ s.bindings.countP (fun b => 0 < cost b.2.value) ∧
      rounds.length ≤ queue.length + s.size + 1 := by
  have honward : Onward cost (start interval s begun queue) := h
  have hdue : (start interval s begun queue).isDue = false :=
    decide_eq_false (Int.not_le.2 honward.clock_lt)
  obtain ⟨rounds, last, hrun⟩ := honward.exists_run
  have hruns := runs_of_run_eq_some hrun
  have hsweeps := hruns.countP_isSweep_le honward
  rw [hdue] at hsweeps
  refine ⟨rounds, last, hrun, fun before between now removed after hrounds hfirst => ?_,
    hsweeps, ?_⟩
  · rcases hfirst with rfl | ⟨r, hr, hsweep⟩
    · exact hruns.exists_slow_of_not_due hdue hrounds
    · obtain ⟨others, rfl⟩ := List.head?_eq_some_iff.1 hr
      cases r with
      | swept earlier gone => exact hruns.exists_slow_of_sweep honward hrounds
      | _ => cases hsweep
  · have hlength : rounds.length ≤ queue.length + rounds.countP Round.isSweep + 1 :=
      hruns.length_le
    have hslow : slow cost s.bindings ≤ s.size := List.countP_le_length
    exact Nat.le_trans hlength (Nat.succ_le_succ (Nat.add_le_add_left
      (Nat.le_trans hsweeps hslow) queue.length))

/-- A purge takes so long that a sweep is due before the next command is taken, and that
sweep takes so long that another one is. Each of them is paid for by one entry. -/
theorem run_ends_after_two_sweeps :
    let s : Store Nat :=
      ((Store.empty.insert "a" ⟨3, 5⟩).insert "b" ⟨4, 1⟩).insert "d" ⟨0, 100⟩
    let queue : List Request := [.purge ⟨"a", 5⟩, .shutdown]
    let purged : Round Nat := .purged ⟨"a", 5⟩ (some ⟨3, 5⟩)
    let swept : Round Nat := .swept 3 [("b", ⟨4, 1⟩)]
    Onward id (start 2 s 0 queue) ∧ ∃ rounds last,
      (start 2 s 0 queue).run id = some (rounds, last) ∧
      rounds = [purged, swept, .swept 7 [], .shutdown] ∧
      rounds.countP Round.isSweep ≤ s.bindings.countP (fun b => 0 < id b.2.value) ∧
      rounds.length ≤ queue.length + s.size + 1 ∧
      ∃ b ∈ [swept].flatMap Round.removed, 0 < id b.2.value := by
  intro s queue purged swept
  have honward : Onward id (start 2 s 0 queue) := onward_of_le (by decide) (by decide)
  obtain ⟨rounds, last, hrun, hgap, hsweeps, hlength⟩ := run_ends id 2 s 0 queue honward
  have hrounds : rounds = [purged, swept, .swept 7 [], .shutdown] := by
    have heval : ((start 2 s 0 queue).run id).map (·.1) =
        some [purged, swept, .swept 7 [], .shutdown] := by decide +kernel
    rw [hrun] at heval
    exact Option.some.inj heval
  refine ⟨honward, rounds, last, hrun, hrounds, hsweeps, hlength, ?_⟩
  exact hgap [purged] [swept] 7 [] [.shutdown] hrounds (.inr ⟨_, rfl, rfl⟩)

/-- At the last instant no interval leads further on, and the loop goes round for ever. -/
example : (start 1 (.empty : Store Nat) Time.latest []).run id = none := by decide +kernel

end Worker

end ExpiringCache
