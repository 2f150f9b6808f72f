import ExpiringCache.Proofs.Probing

/-! What those who use a health check are told. Whoever asks for the health makes the probe
run exactly if no run has been completed or the lifetime of the latest outcome is over, and
is told the outcome of the latest completed run. Whatever the sweeper does and whenever it is
stopped, one is told nothing else, and completed runs are more than a lifetime apart
(`probe_runs_iff_due`). -/

namespace ExpiringCache

open HealthMonitor (memoKey)
open ProbeRun (latest? Due)

/-! ### Health checks that nobody can tell apart -/

namespace HealthMonitor

/-- Two health checks with one script, as far in it, and memos that are alike. -/
structure Alike (h g : HealthMonitor) : Prop where
  probe : h.probe = g.probe
  runs : h.runs = g.runs
  memo : Cache.Alike h.memo g.memo

namespace Alike

variable {h g : HealthMonitor}

theorem refl (h : HealthMonitor) : Alike h h := ⟨rfl, rfl, .refl _⟩

theorem symm (halike : Alike h g) : Alike g h :=
  ⟨halike.probe.symm, halike.runs.symm, halike.memo.symm⟩

theorem trans {k : HealthMonitor} (hg : Alike h g) (gk : Alike g k) : Alike h k :=
  ⟨hg.probe.trans gk.probe, hg.runs.trans gk.runs, hg.memo.trans gk.memo⟩

theorem nextRun (halike : Alike h g) : h.nextRun = g.nextRun := by
  rw [HealthMonitor.nextRun, HealthMonitor.nextRun, halike.probe, halike.runs, halike.memo.clock]

theorem check (halike : Alike h g) : h.check.1 = g.check.1 ∧ Alike h.check.2 g.check.2 := by
  have hloader : h.loader = g.loader := by rw [loader, loader, halike.nextRun]
  have hmemo : Cache.Alike h.check.2.memo g.check.2.memo := by
    rw [memo_check, memo_check, hloader]
    exact (halike.memo.load memoKey g.loader).2
  have hlive := halike.memo.live memoKey
  cases hg : g.memo.live memoKey with
  | some e =>
    rw [hg] at hlive
    rw [check_of_live hg, check_of_live hlive] at hmemo ⊢
    exact ⟨rfl, halike.probe, halike.runs, hmemo⟩
  | none =>
    rw [hg] at hlive
    rw [check_of_absent hg, check_of_absent hlive] at hmemo ⊢
    exact ⟨by rw [halike.nextRun], halike.probe, congrArg (· + 1) halike.runs, hmemo⟩

theorem perform (halike : Alike h g) {s : MonitorStep} (hs : s ≠ .stop) :
    (h.perform s).1 = (g.perform s).1 ∧ Alike (h.perform s).2 (g.perform s).2 := by
  cases hform : s.form? with
  | some form =>
    obtain ⟨hfound, hafter⟩ := halike.check
    rw [perform_of_form hform, perform_of_form hform, hfound]
    exact ⟨rfl, hafter⟩
  | none =>
    cases s with
    | advance d => exact ⟨rfl, halike.probe, halike.runs, halike.memo.advance d⟩
    | stop => exact absurd rfl hs
    | _ => cases hform

end Alike

/-- The replies to steps between which nobody sweeps, with the numbers of runs after them. -/
def replies (h : HealthMonitor) : List MonitorStep → List (MonitorReply × Nat)
  | [] => []
  | s :: ss => ((h.perform s).1, (h.perform s).2.runs) :: (h.perform s).2.replies ss

end HealthMonitor

namespace Watched

/-- Nobody who asks notices that the sweeper moves or is stopped. -/
theorem alike_turn {w : Watched} (hw : w.memo.Faithful) {t : WatchedTurn}
    (ht : t.step? = none) : HealthMonitor.Alike w.monitor (w.turn t).monitor := by
  cases t with
  | step s =>
    cases s with
    | stop =>
      have hmemo : Cache.Alike w.memo.cache (w.turn (.step .stop)).memo.cache := by
        rw [memo_turn_step hw]
        exact hw.alike_run fun _ => Cache.act?_of_mem_stepMoves_stop
      have hmonitor : (w.turn (.step .stop)).monitor =
          { w.monitor with memo := (w.monitor.perform .stop).2.memo } :=
        HealthMonitor.perform_of_no_form rfl
      exact ⟨by rw [hmonitor], by rw [hmonitor], hmemo⟩
    | _ => cases ht
  | sweeper m =>
    cases hm : m.act? with
    | some a =>
      rw [turn_sweeper_of_some hm]
      exact .refl _
    | none =>
      rw [turn_sweeper_of_none hm]
      exact ⟨rfl, rfl, hw.alike_move hm⟩

theorem replies_cons_of_none {t : WatchedTurn} (ht : t.step? = none) (w : Watched)
    (ts : List WatchedTurn) : w.replies (t :: ts) = (w.turn t).replies ts := by
  simp only [replies, ht]

theorem replies_cons_of_some {t : WatchedTurn} {s : MonitorStep} (ht : t.step? = some s)
    (w : Watched) (ts : List WatchedTurn) : w.replies (t :: ts) =
      ((w.monitor.perform s).1, (w.turn t).monitor.runs) :: (w.turn t).replies ts := by
  simp only [replies, ht]

theorem eq_of_step?_eq_some {t : WatchedTurn} {s : MonitorStep} (h : t.step? = some s) :
    t = .step s ∧ s ≠ .stop := by
  cases t with
  | sweeper m => cases h
  | step r =>
    cases r with
    | stop => cases h
    | _ =>
      cases h
      exact ⟨rfl, fun hstop => nomatch hstop⟩

theorem eq_stop_of_step?_eq_none {s : MonitorStep} (h : (WatchedTurn.step s).step? = none) :
    s = .stop := by
  cases s with
  | stop => rfl
  | _ => cases h

theorem replies_eq_of_alike {ttl : Nat} {probe : Script (Loader Unit)} {w : Watched}
    (hw : Sound ttl probe w) {h : HealthMonitor} (halike : HealthMonitor.Alike w.monitor h)
    (ts : List WatchedTurn) : w.replies ts = h.replies (ts.filterMap WatchedTurn.step?) := by
  induction ts generalizing w h with
  | nil => rfl
  | cons t ts ih =>
    cases ht : t.step? with
    | none =>
      -- the turn is skipped on the right, and leaves the left alike
      rw [List.filterMap_cons_none ht, replies_cons_of_none ht]
      exact ih (hw.turn t) ((alike_turn hw.faithful ht).symm.trans halike)
    | some s =>
      obtain ⟨rfl, hs⟩ := eq_of_step?_eq_some ht
      obtain ⟨hreply, hafter⟩ := halike.perform hs
      have hruns : (w.turn (.step s)).monitor.runs = (h.perform s).2.runs := hafter.runs
      rw [List.filterMap_cons_some ht, replies_cons_of_some ht, HealthMonitor.replies, hreply,
        hruns]
      exact congrArg _ (ih (hw.turn _) hafter)

/-! ### The schedule of a run of steps -/

end Watched

namespace HealthMonitor

/-- The turns that a run is made of, in which the sweeper settles after every step. -/
def turns (h : HealthMonitor) : List MonitorStep → List WatchedTurn
  | [] => []
  | s :: ss => .step s :: (h.perform s).2.memo.settleMoves.map .sweeper ++ (h.step s).2.turns ss

/-- What a run replies to all steps but stops, with the numbers of runs after them. -/
def told (h : HealthMonitor) (ss : List MonitorStep) : List (MonitorReply × Nat) :=
  ((ss.zip (h.run ss).1).filter (·.1 ≠ .stop)).map (·.2)

theorem told_stop (h : HealthMonitor) (ss : List MonitorStep) :
    h.told (.stop :: ss) = (h.step .stop).2.told ss := rfl

theorem told_cons (h : HealthMonitor) {s : MonitorStep} (hs : s ≠ .stop) (ss : List MonitorStep) :
    h.told (s :: ss) = ((h.perform s).1, (h.perform s).2.runs) :: (h.step s).2.told ss := by
  have hkept : decide (s ≠ .stop) = true := decide_eq_true hs
  simp only [told, run, step, List.zip_cons_cons, List.filter_cons, hkept, if_true, List.map_cons]

theorem filterMap_step?_map_sweeper (ms : List (Move Bool)) :
    (ms.map WatchedTurn.sweeper).filterMap WatchedTurn.step? = [] := by
  rw [List.filterMap_map]
  exact List.filterMap_eq_nil_iff.2 fun _ _ => rfl

theorem filterMap_step?_turns (h : HealthMonitor) (ss : List MonitorStep) :
    (h.turns ss).filterMap WatchedTurn.step? = ss.filter (· ≠ .stop) := by
  induction ss generalizing h with
  | nil => rfl
  | cons s ss ih =>
    rw [turns, List.cons_append, List.filterMap_cons, List.filterMap_append,
      filterMap_step?_map_sweeper, ih]
    cases s <;> rfl

end HealthMonitor

namespace Watched

theorem run_sweepers (w : Watched) {ms : List (Move Bool)} (hms : ∀ m ∈ ms, m.act? = none) :
    w.run (ms.map .sweeper) =
      { w with
        monitor := { w.monitor with memo := (w.memo.run ms).cache }
        past := (w.memo.run ms).past } := by
  induction ms generalizing w with
  | nil => rfl
  | cons m ms ih =>
    rw [List.map_cons, run_cons, turn_sweeper_of_none (hms m (.head _)),
      ih _ fun n hn => hms n (.tail _ hn)]
    rfl

theorem monitor_run_settleMoves {w : Watched} (hw : w.memo.Faithful) :
    (w.run (w.monitor.memo.settleMoves.map .sweeper)).monitor =
      { w.monitor with memo := w.monitor.memo.settle } := by
  rw [run_sweepers w fun _ => Cache.act?_of_mem_settleMoves]
  have hsettle : w.memo.run w.monitor.memo.settleMoves = _ := Recorded.run_settleMoves hw
  rw [hsettle]
  rfl

theorem replies_sweepers_append (w : Watched) (ms : List (Move Bool)) (ts : List WatchedTurn) :
    w.replies (ms.map .sweeper ++ ts) = (w.run (ms.map .sweeper)).replies ts := by
  induction ms generalizing w with
  | nil => rfl
  | cons m ms ih => exact ih (w.turn (.sweeper m))

/-- The turns of a run of steps lead where the run leads, and are replied to as its steps. -/
theorem run_turns {ttl : Nat} {probe : Script (Loader Unit)} {w : Watched}
    (hw : Sound ttl probe w) (ss : List MonitorStep) :
    (w.run (w.monitor.turns ss)).monitor = (w.monitor.run ss).2 ∧
      w.replies (w.monitor.turns ss) = w.monitor.told ss := by
  induction ss generalizing w with
  | nil => exact ⟨rfl, rfl⟩
  | cons s ss ih =>
    let settling := (w.monitor.perform s).2.memo.settleMoves.map WatchedTurn.sweeper
    let after := (w.turn (.step s)).run settling
    have hafter : Sound ttl probe after := (hw.turn (.step s)).run settling
    have hmonitor : after.monitor = (w.monitor.step s).2 :=
      monitor_run_settleMoves (hw.turn (.step s)).faithful
    obtain ⟨hrun, hreplies⟩ := ih hafter
    rw [hmonitor] at hrun hreplies
    have hturns : w.monitor.turns (s :: ss) =
        .step s :: (settling ++ (w.monitor.step s).2.turns ss) := rfl
    constructor
    · rw [hturns, run_cons, run_append]
      exact hrun
    · have hsettling : (w.turn (.step s)).replies (settling ++ (w.monitor.step s).2.turns ss) =
          (w.monitor.step s).2.told ss :=
        (replies_sweepers_append _ _ _).trans hreplies
      rw [hturns]
      cases hs : WatchedTurn.step? (.step s) with
      | none =>
        obtain rfl := eq_stop_of_step?_eq_none hs
        rw [replies_cons_of_none hs, hsettling, HealthMonitor.told_stop]
      | some r =>
        obtain ⟨hr, hstop⟩ := eq_of_step?_eq_some hs
        cases hr
        rw [replies_cons_of_some hs, hsettling, HealthMonitor.told_cons _ hstop]
        rfl

end Watched

/-! ### The distance between runs -/

namespace ProbeRun

/-- The later run starts more than `ttl` after the earlier one is finished. -/
def Apart (ttl : Nat) (later earlier : ProbeRun) : Prop := earlier.finished + ttl < later.started

/-- Runs that are apart from each other add up. -/
theorem started_add_le {ttl : Nat} {last : ProbeRun} {rs : List ProbeRun}
    (h : (last :: rs).Pairwise (Apart ttl))
    {first : ProbeRun} (hfirst : first ∈ (last :: rs).getLast?) :
    first.started + (rs.length * (ttl + 1) : Nat) ≤ last.started := by
  induction rs generalizing last with
  | nil =>
    obtain rfl : last = first := by simpa using hfirst
    simp
  | cons q qs ih =>
    rw [List.pairwise_cons] at h
    have hrest := ih h.2 (by simpa using hfirst)
    have hstep := h.1 q (.head _)
    rw [Apart, finished] at hstep
    rw [List.length_cons, Nat.succ_mul]
    omega

/-- So `m + 1` of them span more than `m` lifetimes. -/
theorem started_add_lt {ttl : Nat} {rs : List ProbeRun}
    (h : rs.Pairwise (Apart ttl)) {m : Nat}
    (hm : 1 ≤ m) (hlength : rs.length = m + 1) {last first : ProbeRun} (hlast : last ∈ rs.head?)
    (hfirst : first ∈ rs.getLast?) : first.started + (m * ttl : Nat) < last.started := by
  cases rs with
  | nil => cases hlast
  | cons r rs =>
    obtain rfl : r = last := by simpa using hlast
    obtain rfl : rs.length = m := by simpa using hlength
    have hle := started_add_le h hfirst
    rw [Nat.mul_succ] at hle
    omega

end ProbeRun

namespace Watched

theorem Sound.apart {ttl : Nat} {probe : Script (Loader Unit)} {w : Watched}
    (h : Sound ttl probe w)
    (hlate : ∀ r ∈ w.probed.filter ProbeRun.isCompleted, r.finished + ttl ≤ Time.latest) :
    (w.probed.filter ProbeRun.isCompleted).Pairwise (ProbeRun.Apart ttl) := by
  refine h.spaced.imp_of_mem fun _ hearlier hlt => ?_
  rwa [Time.deadline_eq_add (hlate _ hearlier)] at hlt

section Asking

variable {ttl : Nat} {probe : Script (Loader Unit)} {w : Watched} {s : MonitorStep}
  {form : Bool → MonitorReply}

/-- While the latest outcome lasts, it is what one is told, and the probe does not run. -/
theorem Sound.step_of_not_due (h : Sound ttl probe w) (hs : s.form? = some form)
    (hnot : ¬Due ttl w.probed w.clock) :
    (w.turn (.step s)).monitor.runs = w.monitor.runs ∧
      (w.turn (.step s)).probed = w.probed ∧
      ∃ b done, latest? w.probed = some (b, done) ∧ (w.monitor.perform s).1 = form b := by
  obtain ⟨e, hlive⟩ := Option.ne_none_iff_exists'.1 fun hnone => hnot (h.live_eq_none_iff.1 hnone)
  obtain ⟨done, hlatest, -⟩ := h.live_eq_some_iff.1 hlive
  refine ⟨?_, probed_turn_of_live hs hlive, e.value, done, hlatest, reply_of_live hs hlive⟩
  rw [monitor_turn_of_live hs hlive]

/-- Otherwise the probe runs, and one is told what it finds. -/
theorem Sound.step_of_due (h : Sound ttl probe w) (hs : s.form? = some form)
    (hdue : Due ttl w.probed w.clock) :
    let next : ProbeRun := ⟨w.clock, probe.nth w.probed.length⟩
    (w.turn (.step s)).monitor.runs = w.monitor.runs + 1 ∧
      (w.turn (.step s)).probed = next :: w.probed ∧
      (w.monitor.perform s).1 = .of form next.found := by
  have hnone := h.live_eq_none_iff.2 hdue
  have hnext : w.monitor.nextRun = ⟨w.clock, probe.nth w.probed.length⟩ := by
    rw [HealthMonitor.nextRun, h.script, h.counted]
  rw [← hnext]
  refine ⟨?_, probed_turn_of_absent hs hnone, reply_of_absent hs hnone⟩
  rw [monitor_turn_of_absent hs hnone]

/-- A run that changes nothing about the latest outcome is due again. -/
theorem Sound.due_again (h : Sound ttl probe w) (hdue : Due ttl w.probed w.clock)
    (hlatest : latest? (w.turn (.step s)).probed = latest? w.probed) {us : List WatchedTurn}
    (hus : ∀ u ∈ us, u.isAsking = false) :
    Due ttl ((w.turn (.step s)).run us).probed ((w.turn (.step s)).run us).clock := by
  have hle : w.clock ≤ (w.turn (.step s)).clock := (follows_turn h.faithful (.step s)).clock_le
  refine (h.turn (.step s)).due_run ?_ hus
  rw [Due, hlatest]
  exact hdue.mono hle

end Asking

/-- At every moment of every run somebody asks for the health, in one form or another. If a
completed run is on record whose outcome still lasts, the probe does not run and one is told
the outcome of the latest one. Otherwise the probe runs, as its script has it next. What it
finds is what one is told and what is remembered from its end on; if it ends by a panic one
is told of that, nothing is remembered anew, and whoever asks next makes the probe run again.
The health check of a cache that nobody sweeps and nobody stops makes the same replies and
as many runs. As long as no lifetime is cut short by the last instant, each completed run
starts more than a lifetime after the end of the one before it, so that any `m + 1` of them
span more than `m` lifetimes. A run of steps, the sweeper settled after each, is one of
these runs. -/
theorem probe_runs_iff_due (ttl : Nat) (probe : Script (Loader Unit)) (begun : Int) :
    (∀ ts : List WatchedTurn,
      let w := (start ttl probe begun).run ts
      let completed := w.probed.filter ProbeRun.isCompleted
      (∀ s form, s.form? = some form →
        let next : ProbeRun := ⟨w.clock, probe.nth w.probed.length⟩
        let reply := (w.monitor.perform s).1
        let after := w.turn (.step s)
        (¬Due ttl w.probed w.clock ∧ after.monitor.runs = w.monitor.runs ∧
          after.probed = w.probed ∧
          ∃ b done, latest? w.probed = some (b, done) ∧ reply = form b) ∨
        (Due ttl w.probed w.clock ∧ after.monitor.runs = w.monitor.runs + 1 ∧
          after.probed = next :: w.probed ∧
          match next.found with
          | .ok b => latest? after.probed = some (b, next.finished) ∧ reply = form b
          | .error reason => latest? after.probed = latest? w.probed ∧ reply = .panicked reason ∧
              ∀ us : List WatchedTurn, (∀ u ∈ us, u.isAsking = false) →
                Due ttl (after.run us).probed (after.run us).clock)) ∧
      ((∀ r ∈ completed, r.finished + ttl ≤ Time.latest) →
        completed.Pairwise (ProbeRun.Apart ttl) ∧
        ∀ rs : List ProbeRun, rs.Sublist completed → ∀ m, 1 ≤ m → rs.length = m + 1 →
          ∀ last ∈ rs.head?, ∀ first ∈ rs.getLast?,
            first.started + (m * ttl : Nat) < last.started) ∧
      (start ttl probe begun).replies ts =
        (HealthMonitor.start ttl probe begun).replies (ts.filterMap WatchedTurn.step?)) ∧
    ∀ ss : List MonitorStep,
      let h := HealthMonitor.start ttl probe begun
      ((start ttl probe begun).run (h.turns ss)).monitor = (h.run ss).2 ∧
        h.told ss = h.replies (ss.filter (· ≠ .stop)) := by
  refine ⟨fun ts => ?_, fun ss => ?_⟩
  · intro w completed
    have hw : Sound ttl probe w := (Sound.start ttl probe begun).run ts
    refine ⟨fun s form hs => ?_, fun hlate => ?_, ?_⟩
    · intro next reply after
      by_cases hdue : Due ttl w.probed w.clock
      · obtain ⟨hruns, hprobed, hreply⟩ := hw.step_of_due hs hdue
        have hlatest := (congrArg latest? hprobed).trans (ProbeRun.latest?_cons next w.probed)
        have hreply : reply = .of form next.found := hreply
        refine .inr ⟨hdue, hruns, hprobed, ?_⟩
        cases hfound : next.found with
        | ok b =>
          rw [hfound] at hlatest hreply
          exact ⟨hlatest, hreply⟩
        | error reason =>
          rw [hfound] at hlatest hreply
          exact ⟨hlatest, hreply, fun us hus => hw.due_again hdue hlatest hus⟩
      · obtain ⟨hruns, hprobed, htold⟩ := hw.step_of_not_due hs hdue
        exact .inl ⟨hdue, hruns, hprobed, htold⟩
    · have hapart := hw.apart hlate
      refine ⟨hapart, fun rs hrs m hm hlength last hlast first hfirst => ?_⟩
      exact ProbeRun.started_add_lt (hapart.sublist hrs) hm hlength hlast hfirst
    · exact replies_eq_of_alike (.start ttl probe begun) (.refl _) ts
  · intro h
    obtain ⟨hrun, hreplies⟩ := run_turns (.start ttl probe begun) ss
    refine ⟨hrun, ?_⟩
    rw [← HealthMonitor.filterMap_step?_turns h]
    exact hreplies.symm.trans (replies_eq_of_alike (.start ttl probe begun) (.refl _) _)

/-- The first run panics, the second one finds the service unavailable, and the third one,
which comes when the memo has expired and is swept, finds it well. -/
theorem probe_runs_iff_due_thrice :
    let probe : Script (Loader Unit) := ⟨⟨1, .panic "p"⟩, [⟨2, .failure "e"⟩, ⟨0, .value ()⟩]⟩
    let ts : List WatchedTurn := [.step .check, .step .status, .step (.advance 6),
      .sweeper (.mark 0), .sweeper (.purge ⟨"healthz", 8⟩), .step .json]
    let w := (start 5 probe 0).run ts
    w.probed.filter ProbeRun.isCompleted = [⟨9, 0, .value ()⟩, ⟨1, 2, .failure "e"⟩] ∧
      (w.probed.filter ProbeRun.isCompleted).Pairwise (ProbeRun.Apart 5) ∧
      (1 : Int) + (1 * 5 : Nat) < 9 ∧
      (start 5 probe 0).replies ts = (HealthMonitor.start 5 probe 0).replies
        [.check, .status, .advance 6, .json] ∧
      (¬Due 5 w.probed w.clock ∧ (w.monitor.perform .status).1 = .status ⟨"ok"⟩) ∧
      (start 5 probe 0).replies [.step .check, .step (.advance 4), .step .check] =
        [(.panicked "p", 1), (.advanced, 1), (.healthy false, 2)] := by
  intro probe ts w
  have hcompleted : w.probed.filter ProbeRun.isCompleted =
      [⟨9, 0, .value ()⟩, ⟨1, 2, .failure "e"⟩] := by decide
  obtain ⟨hlaw, hspan, hreplies⟩ := (probe_runs_iff_due 5 probe 0).1 ts
  have hlate : ∀ r ∈ w.probed.filter ProbeRun.isCompleted,
      r.finished + (5 : Nat) ≤ Time.latest := by
    rw [hcompleted]
    decide
  obtain ⟨hapart, hspan⟩ := hspan hlate
  refine ⟨hcompleted, hapart, ?_, hreplies, ?_, by decide⟩
  · exact hspan _ (.refl _) 1 (Nat.le_refl 1) (congrArg List.length hcompleted) ⟨9, 0, .value ()⟩
      (congrArg List.head? hcompleted) ⟨1, 2, .failure "e"⟩ (congrArg List.getLast? hcompleted)
  · rcases hlaw .status _ rfl with ⟨-, -, -, b, done, hlatest, hreply⟩ | ⟨hdue, -⟩
    · refine ⟨by decide, hreply.trans ?_⟩
      have hb : latest? w.probed = some (true, 9) := by decide
      obtain ⟨rfl, -⟩ : true = b ∧ 9 = done := by simpa using hb.symm.trans hlatest
      rfl
    · exact absurd hdue (by decide)

end Watched

end ExpiringCache
