import ExpiringCache.Health.Monitor
import ExpiringCache.Proofs.Lookups

/-! The runs of a health check's probe. A bystander notes when each run started, how long it
took and how it went; a run is completed unless it ends by a panic. The memo of the health
check holds a live entry exactly if the lifetime of what the latest completed run found is
not over (`Sound.live_eq_some_iff`), and every completed run started after the lifetimes of
those before it (`Sound`). This holds after every step and every move of the sweeper. -/

namespace ExpiringCache

/-- A run of the probe: when it started and how it went. -/
structure ProbeRun where
  started : Int
  attempt : Loader Unit
deriving DecidableEq, Repr

namespace ProbeRun

def finished (r : ProbeRun) : Int := r.started + r.attempt.cost

/-- What a run finds: the health, or the panic that it ends by. -/
def found (r : ProbeRun) : Except String Bool :=
  match r.attempt.outcome with
  | .value () => .ok true
  | .failure _ => .ok false
  | .panic reason => .error reason

/-- A run is completed unless it ends by a panic. -/
def isCompleted (r : ProbeRun) : Bool := r.found.toOption.isSome

/-- What the latest completed run found and when it was done. Records run backwards, the
latest run first. -/
def latest? (probed : List ProbeRun) : Option (Bool × Int) :=
  probed.findSome? fun r => r.found.toOption.map (·, r.finished)

/-- No run is completed, or the lifetime of what the latest one found is over. -/
def Due (ttl : Nat) (probed : List ProbeRun) (now : Int) : Prop :=
  ∀ o ∈ latest? probed, Time.deadline o.2 ttl < now

instance (ttl : Nat) (probed : List ProbeRun) (now : Int) : Decidable (Due ttl probed now) :=
  inferInstanceAs (Decidable (∀ o ∈ latest? probed, Time.deadline o.2 ttl < now))

/-- A run that is due stays due. -/
theorem Due.mono {ttl : Nat} {probed : List ProbeRun} {now later : Int}
    (h : Due ttl probed now) (hle : now ≤ later) : Due ttl probed later :=
  fun o ho => Int.lt_of_lt_of_le (h o ho) hle

end ProbeRun

/-- The form in which a step puts the health that it asks for. -/
def MonitorStep.form? : MonitorStep → Option (Bool → MonitorReply)
  | .check => some .healthy
  | .status => some fun b => .status ⟨if b then "ok" else "unavailable"⟩
  | .json => some fun b => .json
      (if b then "\x7b\"status\":\"ok\"\x7d" else "\x7b\"status\":\"unavailable\"\x7d")
  | .advance _ => none
  | .stop => none

/-- What is replied to one who asks: the health in the form asked for, or the panic. -/
def MonitorReply.of (form : Bool → MonitorReply) : Except String Bool → MonitorReply
  | .ok b => form b
  | .error reason => .panicked reason

namespace HealthMonitor

variable {h : HealthMonitor} {s : MonitorStep} {form : Bool → MonitorReply}

/-- The run of the probe that comes next, if it starts now. -/
def nextRun (h : HealthMonitor) : ProbeRun := ⟨h.memo.clock, h.probe.nth h.runs⟩

/-- The loader that a check hands to the memo. -/
def loader (h : HealthMonitor) : Loader Bool :=
  ⟨h.nextRun.attempt.cost, verdict h.nextRun.attempt.outcome⟩

theorem perform_of_form (hs : s.form? = some form) :
    h.perform s = (.of form h.check.1, h.check.2) := by
  have hcheckAs (f : Bool → MonitorReply) : h.checkAs f = (.of f h.check.1, h.check.2) := by
    rw [checkAs]
    obtain ⟨answer, after⟩ := h.check
    cases answer <;> rfl
  cases s with
  | check =>
    obtain rfl : .healthy = form := Option.some.inj hs
    exact hcheckAs _
  | status =>
    obtain rfl := Option.some.inj hs
    exact hcheckAs _
  | json =>
    obtain rfl := Option.some.inj hs
    rw [perform, hcheckAs]
    congr 2
    funext b
    cases b <;> rfl
  | advance d => cases hs
  | stop => cases hs

theorem check_of_live {e : Entry Bool} (hlive : h.memo.live memoKey = some e) :
    h.check = (.ok e.value, { h with memo := (h.memo.lookup memoKey).2 }) := by
  have hload := Cache.load_of_lookup_eq_some h.loader (Cache.lookup_fst_of_live_eq_some hlive)
  rw [loader, nextRun] at hload
  simp only [check, hload, Bool.false_eq_true, if_false]

theorem check_of_absent (hnone : h.memo.live memoKey = none) :
    h.check = (h.nextRun.found,
      { h with
        memo := (h.memo.load memoKey h.loader).2
        runs := h.runs + 1
        journal := h.journal ++ report h.nextRun.attempt.outcome }) := by
  have hload := Cache.load_of_live_eq_none h.loader hnone
  rw [loader, nextRun] at hload ⊢
  simp only [check, hload, if_true, ProbeRun.found]
  cases (h.probe.nth h.runs).outcome <;> rfl

/-- What happens to the memo in a step, move by move. -/
def moves (h : HealthMonitor) : MonitorStep → List (Move Bool)
  | .advance d => [.act (.advance d)]
  | .stop => h.memo.stepMoves .stop
  | _ => [.act (.load memoKey h.loader)]

theorem moves_of_form (hs : s.form? = some form) :
    h.moves s = [.act (.load memoKey h.loader)] := by
  cases s with
  | advance d => cases hs
  | stop => cases hs
  | _ => rfl

theorem memo_check (h : HealthMonitor) : h.check.2.memo = (h.memo.load memoKey h.loader).2 := by
  cases hlive : h.memo.live memoKey with
  | some e =>
    rw [check_of_live hlive,
      Cache.load_of_lookup_eq_some h.loader (Cache.lookup_fst_of_live_eq_some hlive)]
  | none => rw [check_of_absent hlive]

theorem perform_stop (h : HealthMonitor) : (h.perform .stop).2 =
    { h with memo := if h.memo.sweeper.running then h.memo.settle.halt else h.memo } := by
  cases hrunning : h.memo.sweeper.running with
  | true =>
    have hstop : h.memo.stop = .ok h.memo.settle.halt := by
      rw [Cache.stop_eq, if_pos hrunning]
    simp only [perform, hstop, if_true]
  | false =>
    have hstop : h.memo.stop = .error .alreadyStopped := by
      rw [Cache.stop_eq, hrunning]
      rfl
    simp only [perform, hstop, Bool.false_eq_true, if_false]

/-- The moves of a step lead where the step leads. -/
theorem cache_run_moves {r : Recorded Bool} (hr : r.Faithful) (hmemo : r.cache = h.memo)
    (s : MonitorStep) : (r.run (h.moves s)).cache = (h.perform s).2.memo := by
  cases hs : s.form? with
  | some form =>
    rw [moves_of_form hs, perform_of_form hs, memo_check, ← hmemo]
    rfl
  | none =>
    cases s with
    | advance d =>
      show (r.cache.advance d) = h.memo.advance d
      rw [hmemo]
    | stop =>
      rw [perform_stop, moves, Cache.stepMoves, ← hmemo]
      split
      · rw [Recorded.run_append, Recorded.run_settleMoves hr]
        rfl
      · rfl
    | _ => cases hs

/-- The runs of the probe that a step makes, read off their count. -/
def probes (h : HealthMonitor) (s : MonitorStep) : List ProbeRun :=
  if (h.perform s).2.runs = h.runs then [] else [h.nextRun]

theorem probes_of_live (hs : s.form? = some form) {e : Entry Bool}
    (hlive : h.memo.live memoKey = some e) : h.probes s = [] := by
  rw [probes, perform_of_form hs, check_of_live hlive, if_pos rfl]

theorem probes_of_absent (hs : s.form? = some form) (hnone : h.memo.live memoKey = none) :
    h.probes s = [h.nextRun] := by
  rw [probes, perform_of_form hs, check_of_absent hnone, if_neg (Nat.succ_ne_self h.runs)]

/-- A step that does not ask for the health changes nothing but the memo. -/
theorem perform_of_no_form (hs : s.form? = none) :
    (h.perform s).2 = { h with memo := (h.perform s).2.memo } := by
  cases s with
  | advance d => rfl
  | stop => rw [perform_stop]
  | _ => cases hs

theorem probes_of_no_form (hs : s.form? = none) : h.probes s = [] := by
  rw [probes, perform_of_no_form hs, if_pos rfl]

end HealthMonitor

/-! ### A health check on record -/

open HealthMonitor (memoKey)

/-- A health check, what happened to its memo and the runs of its probe. -/
structure Watched where
  monitor : HealthMonitor
  past : List (Deed Bool)
  probed : List ProbeRun
deriving DecidableEq

/-- A step of those who use a health check, or a move of the sweeper of its memo. -/
inductive WatchedTurn where
  | step (s : MonitorStep)
  | sweeper (m : Move Bool)
deriving DecidableEq, Repr

/-- The step that a turn is, unless it sweeps or stops. -/
def WatchedTurn.step? : WatchedTurn → Option MonitorStep
  | .step .stop => none
  | .step s => some s
  | .sweeper _ => none

/-- Somebody asks for the health. -/
def WatchedTurn.isAsking : WatchedTurn → Bool
  | .step s => s.form?.isSome
  | .sweeper _ => false

namespace Watched

def start (ttl : Nat) (probe : Script (Loader Unit)) (now : Int) : Watched :=
  ⟨.start ttl probe now, [], []⟩

def memo (w : Watched) : Recorded Bool := ⟨w.monitor.memo, w.past⟩

abbrev clock (w : Watched) : Int := w.monitor.memo.clock

/-- One turn. The sweeper makes no acts of callers. -/
def turn (w : Watched) : WatchedTurn → Watched
  | .step s =>
    ⟨(w.monitor.perform s).2, (w.memo.run (w.monitor.moves s)).past,
      w.monitor.probes s ++ w.probed⟩
  | .sweeper m =>
    match m.act? with
    | none =>
      { w with
        monitor := { w.monitor with memo := (w.memo.move m).cache }
        past := (w.memo.move m).past }
    | some _ => w

def run (w : Watched) (ts : List WatchedTurn) : Watched := ts.foldl turn w

/-- What is replied to those who do not stop anything, with the number of runs after it. -/
def replies (w : Watched) : List WatchedTurn → List (MonitorReply × Nat)
  | [] => []
  | t :: ts =>
    match t.step? with
    | some s => ((w.monitor.perform s).1, (w.turn t).monitor.runs) :: (w.turn t).replies ts
    | none => (w.turn t).replies ts

@[simp] theorem run_nil (w : Watched) : w.run [] = w := rfl

@[simp] theorem run_cons (w : Watched) (t : WatchedTurn) (ts : List WatchedTurn) :
    w.run (t :: ts) = (w.turn t).run ts := rfl

theorem run_append (w : Watched) (ts us : List WatchedTurn) :
    w.run (ts ++ us) = (w.run ts).run us := List.foldl_append

theorem memo_turn_step {w : Watched} (hw : w.memo.Faithful) (s : MonitorStep) :
    (w.turn (.step s)).memo = w.memo.run (w.monitor.moves s) := by
  have hcache := HealthMonitor.cache_run_moves hw rfl s
  rw [memo, turn, ← hcache]

theorem turn_sweeper_of_none {m : Move Bool} (hm : m.act? = none) (w : Watched) :
    w.turn (.sweeper m) =
      { w with
        monitor := { w.monitor with memo := (w.memo.move m).cache }
        past := (w.memo.move m).past } := by
  simp only [turn, hm]

theorem turn_sweeper_of_some {m : Move Bool} {a : Act Bool} (hm : m.act? = some a)
    (w : Watched) : w.turn (.sweeper m) = w := by
  simp only [turn, hm]

/-! ### What a step does -/

variable {w : Watched} {s : MonitorStep} {form : Bool → MonitorReply}

theorem faithful_step (hw : w.memo.Faithful) (s : MonitorStep) :
    (w.turn (.step s)).memo.Faithful := by
  rw [memo_turn_step hw]
  exact hw.run _

theorem follows_step (hw : w.memo.Faithful) (s : MonitorStep) :
    Recorded.Follows w.memo (w.turn (.step s)).memo := by
  rw [memo_turn_step hw]
  exact Recorded.follows_run _ _

theorem probed_turn_of_no_form (hs : s.form? = none) (w : Watched) :
    (w.turn (.step s)).probed = w.probed := by
  rw [turn, HealthMonitor.probes_of_no_form hs]
  rfl

section Live

variable {e : Entry Bool} (hs : s.form? = some form)
  (hlive : w.monitor.memo.live memoKey = some e)

include hs hlive

theorem reply_of_live : (w.monitor.perform s).1 = form e.value := by
  rw [HealthMonitor.perform_of_form hs, HealthMonitor.check_of_live hlive]
  rfl

theorem monitor_turn_of_live : (w.turn (.step s)).monitor =
    { w.monitor with memo := (w.monitor.memo.lookup memoKey).2 } := by
  rw [turn, HealthMonitor.perform_of_form hs, HealthMonitor.check_of_live hlive]

theorem probed_turn_of_live : (w.turn (.step s)).probed = w.probed := by
  rw [turn, HealthMonitor.probes_of_live hs hlive]
  rfl

end Live

section Absent

variable (hs : s.form? = some form) (hnone : w.monitor.memo.live memoKey = none)

include hs hnone

theorem reply_of_absent : (w.monitor.perform s).1 = .of form w.monitor.nextRun.found := by
  rw [HealthMonitor.perform_of_form hs, HealthMonitor.check_of_absent hnone]

theorem monitor_turn_of_absent : (w.turn (.step s)).monitor =
    { w.monitor with
      memo := (w.monitor.memo.load memoKey w.monitor.loader).2
      runs := w.monitor.runs + 1
      journal := w.monitor.journal ++
        HealthMonitor.report w.monitor.nextRun.attempt.outcome } := by
  rw [turn, HealthMonitor.perform_of_form hs, HealthMonitor.check_of_absent hnone]

theorem probed_turn_of_absent :
    (w.turn (.step s)).probed = w.monitor.nextRun :: w.probed := by
  rw [turn, HealthMonitor.probes_of_absent hs hnone]
  rfl

theorem clock_turn_of_absent : (w.turn (.step s)).clock = w.monitor.nextRun.finished := by
  rw [clock, monitor_turn_of_absent hs hnone, Cache.load_of_live_eq_none _ hnone,
    Cache.clock_keep, Cache.advance, Cache.clock_lookup]
  rfl

end Absent

end Watched

namespace ProbeRun

theorem latest?_cons (r : ProbeRun) (rs : List ProbeRun) : latest? (r :: rs) =
    match r.found with
    | .ok b => some (b, r.finished)
    | .error _ => latest? rs := by
  rw [latest?, List.findSome?_cons]
  cases r.found <;> rfl

/-- The latest completed run is the first one of those on record. -/
theorem latest?_of_filter_eq_cons {r : ProbeRun} {probed rest : List ProbeRun}
    (h : probed.filter isCompleted = r :: rest) : ∃ b, latest? probed = some (b, r.finished) := by
  induction probed with
  | nil => cases h
  | cons q qs ih =>
    rw [latest?_cons]
    cases hfound : q.found with
    | ok b =>
      rw [List.filter_cons_of_pos (by rw [isCompleted, hfound]; rfl)] at h
      obtain rfl : q = r := (List.cons.inj h).1
      exact ⟨b, rfl⟩
    | error reason =>
      rw [List.filter_cons_of_neg (by rw [isCompleted, hfound]; exact Bool.false_ne_true)] at h
      exact ih h

end ProbeRun

namespace Watched

open ProbeRun (latest? Due)

/-- The record of the memo and that of the runs agree, and every completed run started after
the lifetimes of what the completed ones before it found. -/
structure Sound (ttl : Nat) (probe : Script (Loader Unit)) (w : Watched) : Prop where
  faithful : w.memo.Faithful
  lifetime : w.monitor.memo.ttl = ttl
  script : w.monitor.probe = probe
  counted : w.monitor.runs = w.probed.length
  noted : Deed.lastWrite w.past memoKey = latest? w.probed
  passed : ∀ r ∈ w.probed, r.finished ≤ w.clock
  spaced : (w.probed.filter ProbeRun.isCompleted).Pairwise fun later earlier =>
    Time.deadline earlier.finished ttl < later.started

namespace Sound

variable {ttl : Nat} {probe : Script (Loader Unit)} {w : Watched}

theorem start (ttl : Nat) (probe : Script (Loader Unit)) (begun : Int) :
    Sound ttl probe (start ttl probe begun) where
  faithful := Recorded.faithful_start ttl begun
  lifetime := rfl
  script := rfl
  counted := rfl
  noted := rfl
  passed := fun _ h => nomatch h
  spaced := .nil

/-- The memo holds a live entry exactly if a completed run's outcome has not run out. -/
theorem live_eq_some_iff (h : Sound ttl probe w) {e : Entry Bool} :
    w.monitor.memo.live memoKey = some e ↔
      ∃ done, latest? w.probed = some (e.value, done) ∧ e.expiresAt = Time.deadline done ttl ∧
        w.clock ≤ Time.deadline done ttl := by
  have hentry : Deed.lastEntry w.monitor.memo.ttl w.past memoKey =
      (latest? w.probed).map fun o => ⟨o.1, Time.deadline o.2 ttl⟩ := by
    rw [Deed.lastEntry, h.noted, h.lifetime]
  have hlive : w.monitor.memo.live memoKey = some e ↔
      Deed.lastEntry w.monitor.memo.ttl w.past memoKey = some e ∧ w.clock ≤ e.expiresAt :=
    h.faithful.live_eq_some_iff
  rw [hlive, hentry, Option.map_eq_some_iff]
  constructor
  · rintro ⟨⟨⟨b, done⟩, hlatest, rfl⟩, hle⟩
    exact ⟨done, hlatest, rfl, hle⟩
  · rintro ⟨done, hlatest, hexpiry, hle⟩
    obtain ⟨b, expiresAt⟩ := e
    obtain rfl : expiresAt = Time.deadline done ttl := hexpiry
    exact ⟨⟨(b, done), hlatest, rfl⟩, hle⟩

theorem live_eq_none_iff (h : Sound ttl probe w) :
    w.monitor.memo.live memoKey = none ↔ Due ttl w.probed w.clock := by
  rw [Option.eq_none_iff_forall_ne_some]
  constructor
  · rintro hnone ⟨b, done⟩ hlatest
    refine Int.not_le.1 fun hle => ?_
    exact hnone ⟨b, Time.deadline done ttl⟩ (h.live_eq_some_iff.2 ⟨done, hlatest, rfl, hle⟩)
  · intro hdue e hlive
    obtain ⟨done, hlatest, -, hle⟩ := h.live_eq_some_iff.1 hlive
    exact absurd (hdue (e.value, done) hlatest) (Int.not_lt.2 hle)

/-- While a run is due, all lifetimes are over. -/
theorem deadline_lt_of_due (h : Sound ttl probe w) (hdue : Due ttl w.probed w.clock) :
    ∀ r ∈ w.probed.filter ProbeRun.isCompleted, Time.deadline r.finished ttl < w.clock := by
  have hspaced := h.spaced
  cases hcompleted : w.probed.filter ProbeRun.isCompleted with
  | nil => exact fun _ hr => nomatch hr
  | cons latest earlier =>
    -- the lifetimes before the latest one were over when the latest run started
    obtain ⟨b, hlatest⟩ := ProbeRun.latest?_of_filter_eq_cons hcompleted
    rw [hcompleted, List.pairwise_cons] at hspaced
    have hmem : latest ∈ w.probed := by
      have hhead : latest ∈ w.probed.filter ProbeRun.isCompleted := by
        rw [hcompleted]
        exact .head _
      exact (List.mem_filter.1 hhead).1
    have hstarted : latest.started ≤ w.clock := by
      have hle := h.passed latest hmem
      rw [ProbeRun.finished] at hle
      omega
    intro r hr
    rcases List.mem_cons.1 hr with rfl | hr
    · exact hdue (b, r.finished) hlatest
    · exact Int.lt_of_lt_of_le (hspaced.1 r hr) hstarted

/-- What adds no run and no write to the memo keeps the records sound. -/
theorem quiet (h : Sound ttl probe w) {v : Watched} (hfaithful : v.memo.Faithful)
    (hfollows : Recorded.Follows w.memo v.memo) (hscript : v.monitor.probe = w.monitor.probe)
    (hruns : v.monitor.runs = w.monitor.runs) (hprobed : v.probed = w.probed)
    (hnoted : Deed.lastWrite v.past memoKey = Deed.lastWrite w.past memoKey) :
    Sound ttl probe v := by
  have hclock : w.clock ≤ v.clock := hfollows.clock_le
  refine ⟨hfaithful, hfollows.ttl_eq.trans h.lifetime, hscript.trans h.script, ?_, ?_,
    fun r hr => ?_, ?_⟩
  · rw [hruns, h.counted, hprobed]
  · rw [hnoted, h.noted, hprobed]
  · exact Int.le_trans (h.passed r (hprobed ▸ hr)) hclock
  · rw [hprobed]
    exact h.spaced

theorem sweeper (h : Sound ttl probe w) (m : Move Bool) :
    Sound ttl probe (w.turn (.sweeper m)) := by
  cases hm : m.act? with
  | some a =>
    rwa [turn_sweeper_of_some hm]
  | none =>
    rw [turn_sweeper_of_none hm]
    exact h.quiet (h.faithful.move m) ((Recorded.Follows.refl _).move m) rfl rfl rfl
      (Recorded.lastWrite_move_of_sweeper (r := w.memo) hm)

variable {s : MonitorStep} {form : Bool → MonitorReply}

theorem step_of_no_form (h : Sound ttl probe w) (hs : s.form? = none) :
    Sound ttl probe (w.turn (.step s)) := by
  have hmonitor : (w.turn (.step s)).monitor =
      { w.monitor with memo := (w.monitor.perform s).2.memo } :=
    HealthMonitor.perform_of_no_form hs
  refine h.quiet (faithful_step h.faithful s) (follows_step h.faithful s) (by rw [hmonitor])
    (by rw [hmonitor]) (probed_turn_of_no_form hs w) ?_
  cases s with
  | advance d => rfl
  | stop =>
    exact Recorded.lastWrite_run_of_sweeper (r := w.memo) fun _ => Cache.act?_of_mem_stepMoves_stop
  | _ => cases hs

theorem step_of_live (h : Sound ttl probe w) (hs : s.form? = some form) {e : Entry Bool}
    (hlive : w.monitor.memo.live memoKey = some e) : Sound ttl probe (w.turn (.step s)) := by
  have hmonitor := monitor_turn_of_live hs hlive
  refine h.quiet (faithful_step h.faithful s) (follows_step h.faithful s) (by rw [hmonitor])
    (by rw [hmonitor]) (probed_turn_of_live hs hlive) ?_
  rw [turn, HealthMonitor.moves_of_form hs]
  exact Recorded.lastWrite_act_load_of_live (r := w.memo) _ hlive

theorem step_of_absent (h : Sound ttl probe w) (hs : s.form? = some form)
    (hnone : w.monitor.memo.live memoKey = none) : Sound ttl probe (w.turn (.step s)) := by
  have hmonitor := monitor_turn_of_absent hs hnone
  have hprobed := probed_turn_of_absent hs hnone
  have hclock := clock_turn_of_absent hs hnone
  have hfollows := follows_step h.faithful s
  have hle : w.clock ≤ (w.turn (.step s)).clock := hfollows.clock_le
  refine ⟨faithful_step h.faithful s, hfollows.ttl_eq.trans h.lifetime, ?_, ?_, ?_,
    fun r hr => ?_, ?_⟩
  · rw [hmonitor]
    exact h.script
  · rw [hmonitor, hprobed, List.length_cons, h.counted]
  · have hwrite := Recorded.lastWrite_act_load_of_absent (r := w.memo) w.monitor.loader hnone
    rw [hprobed, turn, HealthMonitor.moves_of_form hs, ProbeRun.latest?_cons]
    -- a failure of the probe is a value to the memo; only a panic leaves it as it was
    refine hwrite.trans ?_
    rw [HealthMonitor.loader, ProbeRun.found]
    cases w.monitor.nextRun.attempt.outcome with
    | value u => rfl
    | failure reason => rfl
    | panic reason => exact h.noted
  · rw [hprobed] at hr
    rcases List.mem_cons.1 hr with rfl | hr
    · exact Int.le_of_eq hclock.symm
    · exact Int.le_trans (h.passed r hr) hle
  · have hdue : Due ttl w.probed w.clock := h.live_eq_none_iff.1 hnone
    rw [hprobed, List.filter_cons]
    split
    · exact List.pairwise_cons.2 ⟨h.deadline_lt_of_due hdue, h.spaced⟩
    · exact h.spaced

theorem turn (h : Sound ttl probe w) (t : WatchedTurn) : Sound ttl probe (w.turn t) := by
  cases t with
  | sweeper m => exact h.sweeper m
  | step s =>
    cases hs : s.form? with
    | none => exact h.step_of_no_form hs
    | some form =>
      cases hlive : w.monitor.memo.live memoKey with
      | some e => exact h.step_of_live hs hlive
      | none => exact h.step_of_absent hs hlive

theorem run (h : Sound ttl probe w) (ts : List WatchedTurn) : Sound ttl probe (w.run ts) := by
  induction ts generalizing w with
  | nil => exact h
  | cons t ts ih => exact ih (h.turn t)

end Sound

/-! ### What is asked between two runs -/

theorem follows_turn {w : Watched} (hw : w.memo.Faithful) (t : WatchedTurn) :
    Recorded.Follows w.memo (w.turn t).memo := by
  cases t with
  | step s => exact follows_step hw s
  | sweeper m =>
    cases hm : m.act? with
    | some a =>
      rw [turn_sweeper_of_some hm]
      exact .refl _
    | none =>
      rw [turn_sweeper_of_none hm]
      exact (Recorded.Follows.refl _).move m

theorem probed_turn_of_not_asking {t : WatchedTurn} (ht : t.isAsking = false) (w : Watched) :
    (w.turn t).probed = w.probed := by
  cases t with
  | step s =>
    have hs : s.form?.isSome = false := ht
    exact probed_turn_of_no_form (Option.isNone_iff_eq_none.1 (by simpa using hs)) w
  | sweeper m =>
    cases hm : m.act? with
    | some a => rw [turn_sweeper_of_some hm]
    | none => rw [turn_sweeper_of_none hm]

/-- Until somebody asks again, a run that is due stays due. -/
theorem Sound.due_run {ttl : Nat} {probe : Script (Loader Unit)} {w : Watched}
    (h : Sound ttl probe w) (hdue : Due ttl w.probed w.clock) {ts : List WatchedTurn}
    (hts : ∀ t ∈ ts, t.isAsking = false) : Due ttl (w.run ts).probed (w.run ts).clock := by
  induction ts generalizing w with
  | nil => exact hdue
  | cons t ts ih =>
    have hle : w.clock ≤ (w.turn t).clock := (follows_turn h.faithful t).clock_le
    have hprobed := probed_turn_of_not_asking (hts t (.head _)) w
    refine ih (h.turn t) ?_ fun u hu => hts u (.tail _ hu)
    rw [hprobed]
    exact hdue.mono hle

end Watched

end ExpiringCache
