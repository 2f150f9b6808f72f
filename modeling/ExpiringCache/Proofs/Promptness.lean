import ExpiringCache.Proofs.Commands

/-! How soon a worker sweeps. It counts the interval from its last sweep or from its start,
and it takes no command once that has passed. So a queue, however long it is, holds no sweep
back: where a command is taken, the interval is not over and nothing is left that had expired
at the last sweep (`sweeps_before_commands`). Only the way to the command matters, and the
loop may go on for ever after it. -/

namespace ExpiringCache

universe u

variable {α : Type u}

/-- The instant that a round swept at. -/
def Round.sweptAt? : Round α → Option Int
  | .swept now _ => some now
  | _ => none

namespace Worker

/-- The instant of the last sweep among the rounds, or that of the start if there is none. -/
def lastSweep (begun : Int) (rounds : List (Round α)) : Int :=
  (rounds.filterMap Round.sweptAt?).getLastD begun

variable {cost : α → Nat} {w v : Worker α} {rounds : List (Round α)} {since : Int}

/-! ### The last sweep -/

theorem lastSweep_cons_swept (since now : Int) (removed : List (String × Entry α))
    (rounds : List (Round α)) :
    lastSweep since (.swept now removed :: rounds) = lastSweep now rounds :=
  List.getLastD_cons ..

theorem lastSweep_cons_of_not_isSweep (since : Int) {r : Round α} (hr : r.isSweep = false)
    (rounds : List (Round α)) : lastSweep since (r :: rounds) = lastSweep since rounds := by
  cases r with
  | swept now removed => cases hr
  | purged | shutdown | closed => rfl

theorem lastSweep_of_forall (since : Int) (h : ∀ r ∈ rounds, r.isSweep = false) :
    lastSweep since rounds = since := by
  induction rounds with
  | nil => rfl
  | cons r rounds ih =>
    rw [List.forall_mem_cons] at h
    rw [lastSweep_cons_of_not_isSweep since h.1, ih h.2]

/-- Where there is a sweep, there is a last one. -/
theorem exists_swept_lastSweep (since : Int) (h : ∃ r ∈ rounds, r.isSweep = true) :
    ∃ removed, .swept (lastSweep since rounds) removed ∈ rounds := by
  obtain ⟨q, hq, hsweep⟩ := h
  have hsome : ∃ t, q.sweptAt? = some t := by
    cases q with
    | swept now removed => exact ⟨now, rfl⟩
    | purged | shutdown | closed => cases hsweep
  obtain ⟨t, ht⟩ := hsome
  have hne : rounds.filterMap Round.sweptAt? ≠ [] :=
    List.ne_nil_of_mem (List.mem_filterMap.2 ⟨q, hq, ht⟩)
  have hlast : lastSweep since rounds ∈ rounds.filterMap Round.sweptAt? := by
    rw [lastSweep, List.getLastD_eq_getLast?, List.getLast?_eq_some_getLast hne]
    exact List.getLast_mem hne
  obtain ⟨r, hr, hat⟩ := List.mem_filterMap.1 hlast
  cases r with
  | swept now removed => exact ⟨removed, Option.some.inj hat ▸ hr⟩
  | purged | shutdown | closed => cases hat

namespace Passes

/-- A worker that counts its interval from the last sweep goes on to do so. -/
theorem nextSweep_eq (h : Passes cost w rounds v)
    (hnext : w.nextSweep = Time.deadline since w.interval) :
    v.nextSweep = Time.deadline (lastSweep since rounds) w.interval := by
  induction h generalizing since with
  | refl w => exact hnext
  | @sweep w v rounds hdue _ ih =>
    rw [Worker.sweep, lastSweep_cons_swept]
    exact ih rfl
  | purge hdue hqueue _ ih => exact ih hnext

/-- The clock never runs back behind a sweep. -/
theorem lastSweep_le (h : Passes cost w rounds v) (hsince : since ≤ w.clock) :
    lastSweep since rounds ≤ v.clock := by
  induction h generalizing since with
  | refl w => exact hsince
  | @sweep w v rounds hdue _ ih =>
    have hclock := w.clock_sweep cost
    rw [Worker.sweep, lastSweep_cons_swept]
    exact ih (by omega)
  | @purge w v p rest rounds hdue hqueue _ ih =>
    have hclock := w.clock_purge cost p rest
    exact ih (by omega)

/-- What is left had not expired at any of the sweeps. -/
theorem le_expiresAt (h : Passes cost w rounds v) {now : Int}
    {removed : List (String × Entry α)} (hswept : .swept now removed ∈ rounds) {k : String}
    {e : Entry α} (he : v.store.find? k = some e) : now ≤ e.expiresAt := by
  induction h with
  | refl w => cases hswept
  | @sweep w v rounds hdue hrest ih =>
    rcases List.mem_cons.1 hswept with hfirst | hlater
    · obtain ⟨rfl, -⟩ := Round.swept.inj hfirst
      have hleft : (w.store.sweep w.clock).2.find? k = some e := hrest.find?_eq_some he
      rw [Store.sweep_eq, Store.find?_filter, Option.filter_eq_some_iff] at hleft
      simpa [Entry.isExpired] using hleft.2
    · exact ih hlater he
  | purge hdue hqueue _ ih =>
    rcases List.mem_cons.1 hswept with hfirst | hlater
    · cases hfirst
    · exact ih hlater he

/-- Between a state in which a sweep is due and one in which none is, there is that sweep. -/
theorem le_expiresAt_of_due (h : Passes cost w rounds v) (hdue : w.isDue = true)
    (hlater : v.isDue = false) {k : String} {e : Entry α} (he : v.store.find? k = some e) :
    w.clock ≤ e.expiresAt := by
  have hpasses := h
  cases h with
  | refl => exact absurd (hdue.symm.trans hlater) (by simp)
  | sweep _ _ => exact hpasses.le_expiresAt (.head _) he
  | purge hnot _ _ => exact absurd (hdue.symm.trans hnot) (by simp)

/-- On a way with no sweep after its first round, the last sweep is not later than its start. -/
theorem lastSweep_le_of_tail (h : Passes cost w rounds v) (hsince : since ≤ w.clock)
    (htail : ∀ r ∈ rounds.tail, r.isSweep = false) : lastSweep since rounds ≤ w.clock := by
  cases h with
  | refl => exact hsince
  | sweep hdue _ =>
    rw [List.tail_cons] at htail
    apply Int.le_of_eq
    rw [Worker.sweep, lastSweep_cons_swept, lastSweep_of_forall w.clock htail]
  | purge hdue hqueue _ =>
    rw [List.tail_cons] at htail
    rw [lastSweep_cons_of_not_isSweep since rfl, lastSweep_of_forall since htail]
    exact hsince

end Passes

theorem isDue_of_command?_eq_some {c : Request} (h : (w.round cost).command? = some c) :
    w.isDue = false := by
  rw [command?_round] at h
  cases hdue : w.isDue with
  | false => rfl
  | true =>
    rw [hdue] at h
    cases h

/-- Wherever a worker takes a command, however long its queue is, the interval from its last
sweep, or from its start, is not over. If it has swept at all, then every entry that it still
holds expires at the instant of the last sweep or later, and is not an interval past its
expiry. And if purges, perhaps after a sweep, have moved the clock by an interval or more,
then no entry that has expired at the new clock is left where the next command is taken. -/
theorem sweeps_before_commands (cost : α → Nat) (interval : Nat) (s : Store α) (begun : Int)
    (queue : List Request) {rounds : List (Round α)} {w : Worker α}
    (h : Passes cost (start interval s begun queue) rounds w) :
    (∀ c, (w.round cost).command? = some c →
      w.clock < Time.deadline (lastSweep begun rounds) interval ∧
        ((∃ r ∈ rounds, r.isSweep = true) → ∀ k e, w.store.find? k = some e →
          lastSweep begun rounds ≤ e.expiresAt ∧ w.clock < e.expiresAt + interval)) ∧
      ∀ more v, Passes cost w more v → (∀ r ∈ more.tail, r.isSweep = false) →
        w.clock + interval ≤ v.clock →
        ∀ later u c, Passes cost v later u → (u.round cost).command? = some c →
          ∀ k e, u.store.find? k = some e → v.clock ≤ e.expiresAt := by
  have hinterval : w.interval = interval := h.interval_eq
  have hnext : w.nextSweep = Time.deadline (lastSweep begun rounds) interval := h.nextSweep_eq rfl
  have hsince : lastSweep begun rounds ≤ w.clock := h.lastSweep_le (Int.le_refl _)
  constructor
  · intro c hc
    have hdue := isDue_of_command?_eq_some hc
    rw [isDue, decide_eq_false_iff_not, Int.not_le, hnext] at hdue
    refine ⟨hdue, fun hswept k e he => ?_⟩
    obtain ⟨removed, hlast⟩ := exists_swept_lastSweep begun hswept
    have hexpires := h.le_expiresAt hlast he
    have hbound := Time.deadline_le_add (lastSweep begun rounds) interval
    exact ⟨hexpires, by omega⟩
  · intro more v hmore htail hmoved later u c hlater hc k e he
    have hdue : v.isDue = true := by
      have hnext' := hmore.nextSweep_eq (hnext.trans (by rw [hinterval]))
      have hfrom := hmore.lastSweep_le_of_tail hsince htail
      have hbound := Time.deadline_le_add (lastSweep (lastSweep begun rounds) more) w.interval
      rw [isDue, decide_eq_true_iff]
      omega
    exact hlater.le_expiresAt_of_due hdue (isDue_of_command?_eq_some hc) he

/-- A purge moves the clock past the interval and the sweep after it does so again, so that
two sweeps come before the second command. -/
theorem sweeps_before_commands_slow :
    let s : Store Nat :=
      ((Store.empty.insert "a" ⟨3, 5⟩).insert "b" ⟨4, 1⟩).insert "d" ⟨0, 100⟩
    let later : List Request := [.purge ⟨"d", 7⟩]
    let begin := start 2 s 0 (.purge ⟨"a", 5⟩ :: later)
    let jump := begin.purge id ⟨"a", 5⟩ later
    let first := jump.2.sweep id
    let second := first.2.sweep id
    let w := second.2
    let rounds := [jump.1, first.1, second.1]
    Passes id begin rounds w ∧ (w.round id).command? = some (.purge ⟨"d", 7⟩) ∧
      lastSweep 0 rounds = 7 ∧ w.clock < Time.deadline 7 2 ∧
      begin.clock + (2 : Nat) ≤ jump.2.clock ∧
      ∀ k e, w.store.find? k = some e → 7 ≤ e.expiresAt ∧ jump.2.clock ≤ e.expiresAt := by
  intro s later begin jump first second w rounds
  have hjump : Passes id begin [jump.1] jump.2 := .purge (by decide) rfl (.refl _)
  have hsweeps : Passes id jump.2 [first.1, second.1] w :=
    .sweep (by decide +kernel) (.sweep (by decide +kernel) (.refl _))
  have hpasses : Passes id begin rounds w := hjump.append hsweeps
  have hcommand : (w.round id).command? = some (.purge ⟨"d", 7⟩) := by decide +kernel
  have hlast : lastSweep 0 rounds = 7 := by decide +kernel
  have hmoved : begin.clock + (2 : Nat) ≤ jump.2.clock := by decide +kernel
  obtain ⟨htaken, -⟩ := sweeps_before_commands id 2 s 0 _ hpasses
  obtain ⟨-, hafter⟩ := sweeps_before_commands id 2 s 0 _ (.refl begin)
  obtain ⟨hbefore, hleft⟩ := htaken _ hcommand
  rw [hlast] at hbefore hleft
  refine ⟨hpasses, hcommand, hlast, hbefore, hmoved, fun k e he => ⟨?_, ?_⟩⟩
  · exact (hleft ⟨first.1, .tail _ (.head _), rfl⟩ k e he).1
  · exact hafter _ _ hjump (by simp) hmoved _ _ _ hsweeps hcommand k e he

end Worker

end ExpiringCache
