import ExpiringCache.Proofs.Probing
import Mathlib.Data.List.Basic

/-! Only differences of time matter. A cache is moved in time with its clock, the expiries of
its entries, the tokens of its purges and the instant of its next sweep. Every step moves with
it as long as the deadlines that it computes are exact (`step_shift`); since a deadline that is
exact stays exact when it is moved back, it is enough to know this of the later one of two
runs. So two runs of one sequence of steps that start at different instants give the same
replies and the same reports, and lead to caches that are as far apart as their starts
(`run_start_shift`). -/

namespace ExpiringCache

universe u

variable {α : Type u}

namespace Time

/-- The deadline of a duration from an instant is their sum. -/
def Exact (p : Int × Nat) : Prop := deadline p.1 p.2 = p.1 + p.2

instance (p : Int × Nat) : Decidable (Exact p) := inferInstanceAs (Decidable (_ = _))

theorem exact_iff {p : Int × Nat} : Exact p ↔ p.1 + p.2 ≤ latest ∨ p.2 = 0 := by
  unfold Exact deadline
  split
  · simp [*]
  · split <;> omega

/-- A deadline that is exact is so from every earlier instant. -/
theorem deadline_shift {now d : Int} {after : Nat} (hd : d ≤ 0) (h : Exact (now, after)) :
    deadline (now + d) after = deadline now after + d := by
  have hback : Exact (now + d, after) := by
    rw [exact_iff] at h ⊢
    simp only at h ⊢
    omega
  rw [h, hback]
  simp only
  omega

end Time

/-! ### Stores -/

def Entry.shift (d : Int) (e : Entry α) : Entry α := { e with expiresAt := e.expiresAt + d }

/-- An entry lives as long after the clock as before. -/
theorem Entry.le_expiresAt_shift {d now : Int} {e : Entry α} :
    now + d ≤ (e.shift d).expiresAt ↔ now ≤ e.expiresAt := by
  simp [shift]

def Purge.shift (d : Int) (p : Purge) : Purge := { p with token := p.token + d }

theorem Purge.shift_injective (d : Int) : Function.Injective (Purge.shift d) := by
  rintro ⟨k, t⟩ ⟨j, u⟩ h
  simp only [shift, Purge.mk.injEq, Int.add_left_inj] at h
  rw [h.1, h.2]

def Finding.shift (d : Int) : Finding α → Finding α
  | .expired t => .expired (t + d)
  | found => found

namespace Store

def shift (d : Int) (s : Store α) : Store α where
  bindings := s.bindings.map fun b => (b.1, b.2.shift d)
  ordered := List.pairwise_map.2 s.ordered

variable (d : Int) (s : Store α)

@[simp] theorem size_shift : (s.shift d).size = s.size := List.length_map _

@[simp] theorem isEmpty_shift : (s.shift d).isEmpty = s.isEmpty := List.isEmpty_map

theorem find?_shift (k : String) : (s.shift d).find? k = (s.find? k).map (Entry.shift d) := by
  rw [find?, find?, shift, List.find?_map, Option.map_map, Option.map_map]
  rfl

theorem look_shift (k : String) (now : Int) :
    (s.shift d).look k (now + d) = (s.look k now).shift d := by
  rw [look, look, find?_shift]
  cases s.find? k with
  | none => rfl
  | some e =>
    have hexpired : (e.shift d).isExpired (now + d) = e.isExpired now := by
      simp [Entry.isExpired, Entry.shift]
    simp only [Option.map_some, hexpired]
    split <;> rfl

theorem insert_shift (k : String) (e : Entry α) :
    (s.shift d).insert k (e.shift d) = (s.insert k e).shift d := by
  refine ext_find? fun j => ?_
  rw [find?_insert, find?_shift, find?_shift, find?_insert]
  split <;> rfl

end Store

/-! ### Caches -/

def Sweeper.shift (d : Int) (w : Sweeper) : Sweeper :=
  { w with nextSweep := w.nextSweep + d, queue := w.queue.map (Purge.shift d) }

/-- A sweeper moves with what it has to do. -/
theorem Sweeper.settle_shift {d : Int} (hd : d ≤ 0) {w : Sweeper} (s : Store α) {now : Int}
    (h : w.running = true → w.nextSweep ≤ now → Time.Exact (now, w.interval)) :
    (w.shift d).settle (s.shift d) (now + d) =
      ((w.settle s now).1.shift d, (w.settle s now).2.shift d) := by
  cases hrunning : w.running with
  | false =>
    have hshift : (w.shift d).running = false := hrunning
    rw [settle_of_stopped hshift, settle_of_stopped hrunning]
  | true =>
    have hshift : (w.shift d).running = true := hrunning
    have hdue : (w.shift d).nextSweep ≤ now + d ↔ w.nextSweep ≤ now := by
      simp only [shift]
      omega
    refine Prod.ext ?_ (Store.ext_find? fun k => ?_)
    · rw [fst_settle hshift, fst_settle hrunning]
      simp only [hdue]
      split
      · rename_i hswept
        have hnext := Time.deadline_shift hd (h hrunning hswept)
        simp [shift, hnext]
      · simp [shift]
    · rw [find?_settle hshift, Store.find?_shift, Store.find?_shift, find?_settle hrunning]
      cases s.find? k with
      | none => rfl
      | some e =>
        have hqueued : Purge.shift d ⟨k, e.expiresAt⟩ ∈ (w.shift d).queue ↔
            ⟨k, e.expiresAt⟩ ∈ w.queue := List.mem_map_of_injective (Purge.shift_injective d)
        simp only [Purge.shift] at hqueued
        simp only [Option.map_some, Option.filter_some, hdue, Entry.le_expiresAt_shift]
        simp only [Entry.shift, hqueued]
        split <;> rfl

namespace Cache

/-- The same cache at another time. -/
def shift (d : Int) (c : Cache α) : Cache α :=
  { c with clock := c.clock + d, store := c.store.shift d, sweeper := c.sweeper.shift d }

/-! A deadline is noted as the instant that it counts from and its duration. -/

/-- The deadline of what a load puts in: none if it finds a value or its loader fails. -/
def loadDeadlines (c : Cache α) (k : String) (l : Loader α) : List (Int × Nat) :=
  match (c.lockedLoad k l).1 with
  | ⟨.value _, true⟩ => [(c.clock + l.cost, c.ttl)]
  | _ => []

/-- The deadlines of callers under the lock in turn. -/
def lockedDeadlines (c : Cache α) (k : String) (script : Script (Loader α)) (runs : Nat) :
    Nat → List (Int × Nat)
  | 0 => []
  | n + 1 =>
    let first := c.lockedLoad k (script.nth runs)
    c.loadDeadlines k (script.nth runs) ++
      first.2.lockedDeadlines k script (if first.1.ran then runs + 1 else runs) n

def callDeadlines (c : Cache α) : Call α → List (Int × Nat)
  | .set _ _ => [(c.clock, c.ttl)]
  | _ => []

/-- The deadline of the next sweep, if one is due now. -/
def settleDeadlines (c : Cache α) : List (Int × Nat) :=
  if c.sweeper.running ∧ c.sweeper.nextSweep ≤ c.clock then [(c.clock, c.sweeper.interval)]
  else []

/-- The deadlines of a step before the sweeper gets its turn. -/
def performDeadlines (c : Cache α) : Step α → List (Int × Nat)
  | .call x => c.callDeadlines x
  | .load k l none => c.loadDeadlines k l
  | .load k l (some x) =>
    c.loadDeadlines k l ++ if (c.load k l).1.ran then (c.load k l).2.callDeadlines x else []
  | .race k n script =>
    match (c.lookup k).1 with
    | some _ => []
    | none => { c.lookupBy k n with journal := c.journal }.lockedDeadlines k script 0 n
  | .stop => c.settleDeadlines
  | _ => []

/-- The deadlines that a run computes after its start. -/
def deadlines (c : Cache α) : List (Step α) → List (Int × Nat)
  | [] => []
  | s :: ss => c.performDeadlines s ++ (c.perform s).2.settleDeadlines ++ (c.step s).2.deadlines ss

/-- The lookup that a load begins with does not change what the load will put in. -/
theorem loadDeadlines_lookup (c : Cache α) (k : String) (l : Loader α) :
    (c.lookup k).2.loadDeadlines k l = c.loadDeadlines k l := by
  have halike : Alike (c.lookup k).2 c :=
    ⟨ttl_lookup c k, clock_lookup c k, live_lookup c k⟩
  rw [loadDeadlines, loadDeadlines, (halike.lockedLoad k l).1, halike.clock, halike.ttl]

theorem deadlines_append (c : Cache α) (ss ts : List (Step α)) :
    c.deadlines (ss ++ ts) = c.deadlines ss ++ (c.run ss).2.deadlines ts := by
  induction ss generalizing c with
  | nil => rfl
  | cons s ss ih =>
    rw [List.cons_append, deadlines, ih, deadlines, ← List.append_assoc]
    rfl

/-! ### Operations at another time -/

section Shift

variable (d : Int) (c : Cache α)

theorem schedule_shift (p : Purge) :
    (c.shift d).schedule (p.shift d) = (c.schedule p).shift d := by
  cases hrunning : c.sweeper.running <;>
    simp [schedule, Sweeper.schedule, shift, Sweeper.shift, hrunning, Purge.shift]

theorem lookup_shift (k : String) :
    (c.shift d).lookup k = ((c.lookup k).1, (c.lookup k).2.shift d) := by
  have hlook : (c.shift d).store.look k (c.shift d).clock = (c.store.look k c.clock).shift d :=
    c.store.look_shift d k c.clock
  rw [lookup, lookup, hlook]
  cases c.store.look k c.clock with
  | live v => rfl
  | expired t => exact congrArg (Prod.mk none) (c.schedule_shift d ⟨k, t⟩)
  | absent => rfl

theorem write_shift (k : String) (v : α) (expiresAt : Int) :
    (c.shift d).write k v (expiresAt + d) = (c.write k v expiresAt).shift d := by
  have hinsert := c.store.insert_shift d k ⟨v, expiresAt⟩
  simp only [write, shift]
  rw [← hinsert]
  rfl

theorem advance_shift (n : Nat) : (c.shift d).advance n = (c.advance n).shift d := by
  simp only [advance, shift, mk.injEq, and_true, true_and]
  omega

theorem live_shift (k : String) : (c.shift d).live k = (c.live k).map (Entry.shift d) := by
  rw [live, live]
  show ((c.store.shift d).find? k).filter (fun e => c.clock + d ≤ e.expiresAt) = _
  rw [Store.find?_shift]
  cases c.store.find? k with
  | none => rfl
  | some e =>
    simp only [Option.map_some, Option.filter_some, Entry.le_expiresAt_shift]
    split <;> rfl

theorem size_shift : (c.shift d).size = c.size := c.store.size_shift d

theorem isEmpty_shift : (c.shift d).isEmpty = c.isEmpty := c.store.isEmpty_shift d

theorem lookupBy_shift (k : String) (n : Nat) :
    (c.shift d).lookupBy k n = (c.lookupBy k n).shift d := by
  induction n generalizing c with
  | zero => rfl
  | succ n ih => rw [lookupBy, lookupBy, lookup_shift, ih]

end Shift

section Back

variable {d : Int} (hd : d ≤ 0) {c : Cache α}

include hd

theorem expiry_shift (h : Time.Exact (c.clock, c.ttl)) : (c.shift d).expiry = c.expiry + d :=
  Time.deadline_shift hd h

theorem set_shift (h : Time.Exact (c.clock, c.ttl)) (k : String) (v : α) :
    (c.shift d).set k v = (c.set k v).shift d := by
  rw [set, expiry_shift hd h, write_shift, set]

theorem lockedLoad_shift {k : String} {l : Loader α}
    (h : ∀ p ∈ c.loadDeadlines k l, Time.Exact p) :
    (c.shift d).lockedLoad k l = ((c.lockedLoad k l).1, (c.lockedLoad k l).2.shift d) := by
  have hshift := c.live_shift d k
  cases hlive : c.live k with
  | some e =>
    rw [hlive] at hshift
    rw [lockedLoad_of_live_eq_some l hlive, lockedLoad_of_live_eq_some l hshift]
    rfl
  | none =>
    rw [hlive] at hshift
    rw [loadDeadlines, lockedLoad_of_live_eq_none l hlive] at h
    rw [lockedLoad_of_live_eq_none l hlive, lockedLoad_of_live_eq_none l hshift, advance_shift]
    cases hl : l.outcome with
    | value v =>
      rw [hl] at h
      have hexact : Time.Exact ((c.advance l.cost).clock, c.ttl) := h _ (.head _)
      rw [keep, keep, set_shift hd hexact]
    | failure reason => rfl
    | panic reason => rfl

theorem load_shift {k : String} {l : Loader α} (h : ∀ p ∈ c.loadDeadlines k l, Time.Exact p) :
    (c.shift d).load k l = ((c.load k l).1, (c.load k l).2.shift d) := by
  rw [load_eq_lockedLoad, load_eq_lockedLoad, lookup_shift]
  exact lockedLoad_shift hd (c.loadDeadlines_lookup k l ▸ h)

theorem call_shift {x : Call α} (h : ∀ p ∈ c.callDeadlines x, Time.Exact p) :
    (c.shift d).call x = ((c.call x).1, (c.call x).2.shift d) := by
  cases x with
  | set k v => exact congrArg (Prod.mk Answer.done) (set_shift hd (h _ (.head _)) k v)
  | get k => rw [call, call, lookup_shift]
  | clear => rfl
  | size => rw [call, call, size_shift]

theorem callElsewhere_shift {x : Call α} (h : ∀ p ∈ c.callDeadlines x, Time.Exact p) :
    (c.shift d).callElsewhere x = ((c.callElsewhere x).1, (c.callElsewhere x).2.shift d) := by
  simp only [callElsewhere, call_shift hd h]
  rfl

theorem loadDuring_shift {k : String} {l : Loader α} {during : Option (Call α)}
    (h : ∀ p ∈ c.performDeadlines (.load k l during), Time.Exact p) :
    (c.shift d).loadDuring k l during =
      ((c.loadDuring k l during).1, (c.loadDuring k l during).2.shift d) := by
  cases during with
  | none =>
    rw [loadDuring, loadDuring, load_shift hd h]
  | some x =>
    have hload := load_shift hd fun p hp => h p (List.mem_append_left _ hp)
    simp only [loadDuring, hload]
    cases hran : (c.load k l).1.ran with
    | false => rfl
    | true =>
      have hcall : ∀ p ∈ (c.load k l).2.callDeadlines x, Time.Exact p := fun p hp =>
        h p (List.mem_append_right _ (by rwa [if_pos hran]))
      simp only [if_true, callElsewhere_shift hd hcall]

theorem lockedLoads_shift {k : String} {script : Script (Loader α)} {runs n : Nat}
    (h : ∀ p ∈ c.lockedDeadlines k script runs n, Time.Exact p) :
    (c.shift d).lockedLoads k script runs n =
      ((c.lockedLoads k script runs n).1, (c.lockedLoads k script runs n).2.shift d) := by
  induction n generalizing c runs with
  | zero => rfl
  | succ n ih =>
    have hfirst := lockedLoad_shift hd fun p hp => h p (List.mem_append_left _ hp)
    have hothers := ih fun p hp => h p (List.mem_append_right _ hp)
    simp only [lockedLoads, hfirst, hothers]

theorem race_shift {k : String} {n : Nat} {script : Script (Loader α)}
    (h : ∀ p ∈ c.performDeadlines (.race k n script), Time.Exact p) :
    (c.shift d).race k n script = ((c.race k n script).1, (c.race k n script).2.shift d) := by
  have hwaiting : { (c.shift d).lookupBy k n with journal := (c.shift d).journal } =
      { c.lookupBy k n with journal := c.journal }.shift d := by
    rw [lookupBy_shift]
    rfl
  rw [performDeadlines] at h
  simp only [race, lookup_shift, hwaiting]
  cases hfound : (c.lookup k).1 with
  | some v => rfl
  | none =>
    rw [hfound] at h
    exact lockedLoads_shift hd h

theorem settle_shift (h : ∀ p ∈ c.settleDeadlines, Time.Exact p) :
    (c.shift d).settle = c.settle.shift d := by
  have hnext (hrunning : c.sweeper.running = true) (hdue : c.sweeper.nextSweep ≤ c.clock) :
      Time.Exact (c.clock, c.sweeper.interval) := by
    rw [settleDeadlines, if_pos ⟨hrunning, hdue⟩] at h
    exact h _ (.head _)
  have hturn : (c.shift d).sweeper.settle (c.shift d).store (c.shift d).clock = _ :=
    Sweeper.settle_shift hd c.store hnext
  rw [settle, settle, hturn]
  rfl

theorem stop_shift (h : ∀ p ∈ c.settleDeadlines, Time.Exact p) :
    (c.shift d).stop = c.stop.map (shift d) := by
  have hrunning : (c.shift d).sweeper.running = c.sweeper.running := rfl
  rw [stop_eq, stop_eq, hrunning, settle_shift hd h]
  split <;> rfl

theorem perform_shift {s : Step α} (h : ∀ p ∈ c.performDeadlines s, Time.Exact p) :
    (c.shift d).perform s = ((c.perform s).1, (c.perform s).2.shift d) := by
  cases s with
  | call x => rw [perform, perform, call_shift hd h]
  | load k l during => rw [perform, perform, loadDuring_shift hd h]
  | race k n script => rw [perform, perform, race_shift hd h]
  | advance n => rw [perform, perform, advance_shift]
  | isEmpty => rw [perform, perform, isEmpty_shift]
  | stop =>
    rw [perform, perform, stop_shift hd h]
    cases c.stop <;> rfl

theorem step_shift {s : Step α} (h : ∀ p ∈ c.deadlines [s], Time.Exact p) :
    (c.shift d).step s = ((c.step s).1, (c.step s).2.shift d) := by
  have hperform := perform_shift hd fun p hp =>
    h p (List.mem_append_left _ (List.mem_append_left _ hp))
  have hsettle := settle_shift hd fun p hp =>
    h p (List.mem_append_left _ (List.mem_append_right _ hp))
  rw [step, step, hperform]
  simp only [hsettle]

theorem run_shift {ss : List (Step α)} (h : ∀ p ∈ c.deadlines ss, Time.Exact p) :
    (c.shift d).run ss = ((c.run ss).1, (c.run ss).2.shift d) := by
  induction ss generalizing c with
  | nil => rfl
  | cons s ss ih =>
    have happend : c.deadlines (s :: ss) = c.deadlines [s] ++ (c.step s).2.deadlines ss :=
      c.deadlines_append [s] ss
    rw [happend] at h
    have hstep := step_shift hd fun p hp => h p (List.mem_append_left _ hp)
    have hrest := ih fun p hp => h p (List.mem_append_right _ hp)
    simp only [run, hstep, hrest, size_shift]

theorem start_shift {ttl : Nat} {now : Int} (h : Time.Exact (now, Sweeper.intervalFor ttl)) :
    (start ttl now : Cache α).shift d = start ttl (now + d) := by
  have hnext := Time.deadline_shift hd h
  simp only [start, shift, Sweeper.start, Sweeper.shift, hnext]
  rfl

end Back

end Cache

/-! ### Health checks -/

namespace HealthMonitor

def shift (d : Int) (h : HealthMonitor) : HealthMonitor := { h with memo := h.memo.shift d }

/-- What a step does to the memo: to ask for the health is to load it. -/
def memoStep (h : HealthMonitor) : MonitorStep → Step Bool
  | .advance d => .advance d
  | .stop => .stop
  | _ => .load memoKey h.loader none

/-- The deadlines that a run computes after its start. -/
def deadlines (h : HealthMonitor) : List MonitorStep → List (Int × Nat)
  | [] => []
  | s :: ss => h.memo.deadlines [h.memoStep s] ++ (h.step s).2.deadlines ss

theorem memoStep_of_form {h : HealthMonitor} {s : MonitorStep} {form : Bool → MonitorReply}
    (hs : s.form? = some form) : h.memoStep s = .load memoKey h.loader none := by
  cases s with
  | advance d => cases hs
  | stop => cases hs
  | _ => rfl

/-- The memo of a health check is a cache that makes the steps of the health check. -/
theorem memo_perform (h : HealthMonitor) (s : MonitorStep) :
    (h.perform s).2.memo = (h.memo.perform (h.memoStep s)).2 := by
  cases hs : s.form? with
  | some form =>
    rw [perform_of_form hs, memoStep_of_form hs, memo_check]
    rfl
  | none =>
    cases s with
    | advance d => rfl
    | stop =>
      rw [perform, memoStep, Cache.perform]
      cases h.memo.stop <;> rfl
    | _ => cases hs

theorem deadlines_append (h : HealthMonitor) (ss ts : List MonitorStep) :
    h.deadlines (ss ++ ts) = h.deadlines ss ++ (h.run ss).2.deadlines ts := by
  induction ss generalizing h with
  | nil => rfl
  | cons s ss ih =>
    rw [List.cons_append, deadlines, ih, deadlines, ← List.append_assoc]
    rfl

section Back

variable {d : Int} (hd : d ≤ 0) {h : HealthMonitor}

include hd

theorem check_shift (hexact : ∀ p ∈ h.memo.loadDeadlines memoKey h.loader, Time.Exact p) :
    (h.shift d).check = (h.check.1, h.check.2.shift d) := by
  have hlive := h.memo.live_shift d memoKey
  cases hmemo : h.memo.live memoKey with
  | some e =>
    rw [hmemo] at hlive
    have hshift : (h.shift d).memo.live memoKey = some (e.shift d) := hlive
    have hlookup : (h.shift d).memo.lookup memoKey = _ := h.memo.lookup_shift d memoKey
    rw [check_of_live hshift, check_of_live hmemo, hlookup]
    rfl
  | none =>
    rw [hmemo] at hlive
    have hshift : (h.shift d).memo.live memoKey = none := hlive
    have hload : (h.shift d).memo.load memoKey (h.shift d).loader = _ := Cache.load_shift hd hexact
    rw [check_of_absent hshift, check_of_absent hmemo, hload]
    rfl

theorem perform_shift {s : MonitorStep}
    (hexact : ∀ p ∈ h.memo.performDeadlines (h.memoStep s), Time.Exact p) :
    (h.shift d).perform s = ((h.perform s).1, (h.perform s).2.shift d) := by
  cases hs : s.form? with
  | some form =>
    rw [memoStep_of_form hs] at hexact
    rw [perform_of_form hs, perform_of_form hs, check_shift hd hexact]
  | none =>
    cases s with
    | advance n =>
      have hadvance : (h.shift d).memo.advance n = _ := h.memo.advance_shift d n
      rw [perform, perform, hadvance]
      rfl
    | stop =>
      have hstop : (h.shift d).memo.stop = _ := Cache.stop_shift hd hexact
      rw [perform, perform, hstop]
      cases h.memo.stop <;> rfl
    | _ => cases hs

theorem step_shift {s : MonitorStep} (hexact : ∀ p ∈ h.deadlines [s], Time.Exact p) :
    (h.shift d).step s = ((h.step s).1, (h.step s).2.shift d) := by
  have hmemo : ∀ p ∈ h.memo.deadlines [h.memoStep s], Time.Exact p := fun p hp =>
    hexact p (List.mem_append_left _ hp)
  have hperform := perform_shift hd fun p hp =>
    hmemo p (List.mem_append_left _ (List.mem_append_left _ hp))
  have hsettle : ((h.perform s).2.shift d).memo.settle = (h.perform s).2.memo.settle.shift d := by
    refine Cache.settle_shift hd fun p hp => ?_
    rw [memo_perform] at hp
    exact hmemo p (List.mem_append_left _ (List.mem_append_right _ hp))
  rw [step, step, hperform]
  simp only [hsettle]
  rfl

theorem run_shift {ss : List MonitorStep} (hexact : ∀ p ∈ h.deadlines ss, Time.Exact p) :
    (h.shift d).run ss = ((h.run ss).1, (h.run ss).2.shift d) := by
  induction ss generalizing h with
  | nil => rfl
  | cons s ss ih =>
    have happend : h.deadlines (s :: ss) = h.deadlines [s] ++ (h.step s).2.deadlines ss :=
      h.deadlines_append [s] ss
    rw [happend] at hexact
    have hstep := step_shift hd fun p hp => hexact p (List.mem_append_left _ hp)
    have hrest := ih fun p hp => hexact p (List.mem_append_right _ hp)
    simp only [run, hstep, hrest]
    rfl

theorem start_shift {ttl : Nat} {probe : Script (Loader Unit)} {now : Int}
    (hexact : Time.Exact (now, Sweeper.intervalFor ttl)) :
    (start ttl probe now).shift d = start ttl probe (now + d) := by
  have hmemo : (start ttl probe now).memo.shift d = _ := Cache.start_shift hd hexact
  rw [shift, hmemo]
  rfl

end Back

end HealthMonitor

/-! ### Runs that start at different instants -/

theorem Store.shift_neg_shift (d : Int) (s : Store α) : (s.shift (-d)).shift d = s := by
  refine ext_find? fun k => ?_
  rw [find?_shift, find?_shift, Option.map_map]
  cases s.find? k with
  | none => rfl
  | some e => simp only [Option.map_some, Function.comp, Entry.shift, Int.neg_add_cancel_right]

theorem Sweeper.shift_neg_shift (d : Int) (w : Sweeper) : (w.shift (-d)).shift d = w := by
  simp only [shift, Purge.shift, List.map_map, Function.comp_def, Int.neg_add_cancel_right,
    List.map_id']

namespace Cache

theorem shift_neg_shift (d : Int) (c : Cache α) : (c.shift (-d)).shift d = c := by
  simp only [shift, Store.shift_neg_shift, Sweeper.shift_neg_shift, Int.neg_add_cancel_right]

/-- No deadline that a run computes saturates, that of the first sweep included. -/
def NeverSaturates (ttl : Nat) (begun : Int) (ss : List (Step α)) : Prop :=
  ∀ p ∈ (begun, Sweeper.intervalFor ttl) :: (start ttl begun : Cache α).deadlines ss, Time.Exact p

instance (ttl : Nat) (begun : Int) (ss : List (Step α)) : Decidable (NeverSaturates ttl begun ss) :=
  inferInstanceAs (Decidable (∀ _ ∈ _, _))

/-- The two caches are the same, but for the second it is `d` later. -/
structure Apart (d : Int) (c c' : Cache α) : Prop where
  ttl : c'.ttl = c.ttl
  clock : c'.clock = c.clock + d
  stored : ∀ k, c'.store.find? k = (c.store.find? k).map fun e => ⟨e.value, e.expiresAt + d⟩
  size : c'.size = c.size
  nextSweep : c'.sweeper.nextSweep = c.sweeper.nextSweep + d
  queue : c'.sweeper.queue = c.sweeper.queue.map fun p => ⟨p.key, p.token + d⟩
  running : c'.sweeper.running = c.sweeper.running
  journal : c'.journal = c.journal

theorem apart_shift (d : Int) (c : Cache α) : Apart d c (c.shift d) where
  ttl := rfl
  clock := rfl
  stored := c.store.find?_shift d
  size := c.size_shift d
  nextSweep := rfl
  queue := rfl
  running := rfl
  journal := rfl

section

variable {ttl : Nat} {a d : Int} {ss : List (Step α)}

theorem NeverSaturates.of_prefix (h : NeverSaturates ttl a ss) {ts : List (Step α)}
    (hts : ts <+: ss) : NeverSaturates ttl a ts := by
  obtain ⟨us, rfl⟩ := hts
  intro p hp
  rw [NeverSaturates, deadlines_append] at h
  exact h p (List.mem_append_left _ hp)

/-- The earlier of the two runs is the later one moved back, so one direction of the shift is
enough. -/
theorem run_start_add (h : NeverSaturates ttl a ss) (h' : NeverSaturates ttl (a + d) ss) :
    (start ttl (a + d)).run ss =
      (((start ttl a).run ss).1, ((start ttl a).run ss).2.shift d) := by
  by_cases hd : d ≤ 0
  · rw [← start_shift hd (h _ (.head _)), run_shift hd fun p hp => h p (.tail _ hp)]
  · have hback : -d ≤ 0 := by omega
    have hstart : (start ttl (a + d) : Cache α).shift (-d) = start ttl a := by
      rw [start_shift hback (h' _ (.head _)), Int.add_neg_cancel_right]
    rw [← hstart, run_shift hback fun p hp => h' p (.tail _ hp)]
    simp only [shift_neg_shift]

end

end Cache

namespace HealthMonitor

theorem shift_neg_shift (d : Int) (h : HealthMonitor) : (h.shift (-d)).shift d = h := by
  simp [shift, Cache.shift_neg_shift]

/-- No deadline that a run computes saturates, that of the first sweep included. -/
def NeverSaturates (ttl : Nat) (probe : Script (Loader Unit)) (begun : Int)
    (ss : List MonitorStep) : Prop :=
  ∀ p ∈ (begun, Sweeper.intervalFor ttl) :: (start ttl probe begun).deadlines ss, Time.Exact p

instance (ttl : Nat) (probe : Script (Loader Unit)) (begun : Int) (ss : List MonitorStep) :
    Decidable (NeverSaturates ttl probe begun ss) := inferInstanceAs (Decidable (∀ _ ∈ _, _))

section

variable {ttl : Nat} {probe : Script (Loader Unit)} {a d : Int} {ss : List MonitorStep}

theorem NeverSaturates.of_prefix (h : NeverSaturates ttl probe a ss) {ts : List MonitorStep}
    (hts : ts <+: ss) : NeverSaturates ttl probe a ts := by
  obtain ⟨us, rfl⟩ := hts
  intro p hp
  rw [NeverSaturates, deadlines_append] at h
  exact h p (List.mem_append_left _ hp)

theorem run_start_add (h : NeverSaturates ttl probe a ss)
    (h' : NeverSaturates ttl probe (a + d) ss) :
    (start ttl probe (a + d)).run ss =
      (((start ttl probe a).run ss).1, ((start ttl probe a).run ss).2.shift d) := by
  by_cases hd : d ≤ 0
  · rw [← start_shift hd (h _ (.head _)), run_shift hd fun p hp => h p (.tail _ hp)]
  · have hback : -d ≤ 0 := by omega
    have hstart : (start ttl probe (a + d)).shift (-d) = start ttl probe a := by
      rw [start_shift hback (h' _ (.head _)), Int.add_neg_cancel_right]
    rw [← hstart, run_shift hback fun p hp => h' p (.tail _ hp)]
    simp only [shift_neg_shift]

end

end HealthMonitor

/-- Start the same steps at `a` and at `a + d`, where no deadline of either run saturates. The
replies and the sizes after the steps are the same, and after every step the two caches are the
same, `d` apart: in both the same keys have the same values, with expiries, purges and a next
sweep that differ by `d`, and the same was reported. Two health checks with one probe that start
at `a` and at `a + d` likewise reply the same, run the probe as often and report the same, and
their memos are `d` apart. -/
theorem run_start_shift (ttl : Nat) (a d : Int) :
    (∀ ss : List (Step α), Cache.NeverSaturates ttl a ss → Cache.NeverSaturates ttl (a + d) ss →
      let run (begun : Int) (ts : List (Step α)) := (Cache.start ttl begun).run ts
      (run (a + d) ss).1 = (run a ss).1 ∧
      ∀ ts, ts <+: ss → Cache.Apart d (run a ts).2 (run (a + d) ts).2) ∧
    ∀ (probe : Script (Loader Unit)) (ss : List MonitorStep),
      HealthMonitor.NeverSaturates ttl probe a ss →
      HealthMonitor.NeverSaturates ttl probe (a + d) ss →
      let run (begun : Int) (ts : List MonitorStep) := (HealthMonitor.start ttl probe begun).run ts
      (run (a + d) ss).1 = (run a ss).1 ∧
      ∀ ts, ts <+: ss →
        (run (a + d) ts).2.journal = (run a ts).2.journal ∧
        Cache.Apart d (run a ts).2.memo (run (a + d) ts).2.memo := by
  refine ⟨fun ss h h' => ?_, fun probe ss h h' => ?_⟩
  · intro run
    have hrun : run (a + d) ss = ((run a ss).1, (run a ss).2.shift d) := Cache.run_start_add h h'
    refine ⟨by rw [hrun], fun ts hts => ?_⟩
    have hrun : (run (a + d) ts).2 = (run a ts).2.shift d :=
      congrArg Prod.snd (Cache.run_start_add (h.of_prefix hts) (h'.of_prefix hts))
    rw [hrun]
    exact Cache.apart_shift d _
  · intro run
    have hrun : run (a + d) ss = ((run a ss).1, (run a ss).2.shift d) :=
      HealthMonitor.run_start_add h h'
    refine ⟨by rw [hrun], fun ts hts => ?_⟩
    have hrun : (run (a + d) ts).2 = (run a ts).2.shift d :=
      congrArg Prod.snd (HealthMonitor.run_start_add (h.of_prefix hts) (h'.of_prefix hts))
    rw [hrun]
    exact ⟨rfl, Cache.apart_shift d _⟩

/-- Two caches with one history, one of them started before zero and the other after it. A
value is loaded late while another thread sets one, both expire after the sweeper was stopped,
and a lookup meets one of them. The two health checks run a failing probe and, later, another. -/
theorem run_start_shift_across_zero :
    let ss : List (Step Nat) := [.call (.set "a" 1), .advance 4,
      .load "b" ⟨2, .value 2⟩ (some (.set "c" 3)), .advance 6, .stop, .advance 12, .call (.get "b")]
    let probe : Script (Loader Unit) := ⟨⟨2, .failure "down"⟩, [⟨0, .value ()⟩]⟩
    let us : List MonitorStep := [.check, .advance 9, .status, .advance 20, .json]
    let cache (begun : Int) := ((Cache.start 10 begun).run ss).2
    let monitor (begun : Int) := (HealthMonitor.start 10 probe begun).run us
    Cache.NeverSaturates 10 (-6) ss ∧ Cache.NeverSaturates 10 (-6 + 9) ss ∧
      HealthMonitor.NeverSaturates 10 probe (-6) us ∧
      HealthMonitor.NeverSaturates 10 probe (-6 + 9) us ∧
      (cache (-6)).store.find? "b" = some ⟨2, 10⟩ ∧ (cache (-6)).store.find? "c" = some ⟨3, 10⟩ ∧
      (cache (-6 + 9)).store.find? "b" = some ⟨2, 19⟩ ∧
      (cache (-6 + 9)).store.find? "c" = some ⟨3, 19⟩ ∧
      (cache (-6 + 9)).journal = (cache (-6)).journal ∧
      (monitor (-6 + 9)).1 = (monitor (-6)).1 := by
  intro ss probe us cache monitor
  have h : Cache.NeverSaturates 10 (-6) ss := by decide
  have h' : Cache.NeverSaturates 10 (-6 + 9) ss := by decide
  have hm : HealthMonitor.NeverSaturates 10 probe (-6) us := by decide
  have hm' : HealthMonitor.NeverSaturates 10 probe (-6 + 9) us := by decide
  obtain ⟨hcaches, hmonitors⟩ := run_start_shift (α := Nat) 10 (-6) 9
  obtain ⟨-, hapart⟩ := hcaches ss h h'
  have hlast := hapart ss (List.prefix_refl ss)
  have hb : (cache (-6)).store.find? "b" = some ⟨2, 10⟩ := by decide
  have hc : (cache (-6)).store.find? "c" = some ⟨3, 10⟩ := by decide
  refine ⟨h, h', hm, hm', hb, hc, ?_, ?_, hlast.journal, (hmonitors probe us hm hm').1⟩
  · exact (hlast.stored "b").trans (congrArg (Option.map _) hb)
  · exact (hlast.stored "c").trans (congrArg (Option.map _) hc)

end ExpiringCache
