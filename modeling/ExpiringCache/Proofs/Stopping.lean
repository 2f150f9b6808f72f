import ExpiringCache.Proofs.Loads
import ExpiringCache.Proofs.Lookups

/-! A cache whose sweeper was stopped. A stop takes effect once and for good: from then on the
sweeper stays as it is, an entry leaves the store only when everything is cleared and is
changed only by a write of its key, and a lookup that meets an expired entry reports that
nobody will purge it (`stop_is_final`). No caller is answered otherwise than in a cache that
was never stopped, counts of entries aside: the two caches are alike (`alike_run_filter`). -/

namespace ExpiringCache

universe u

variable {α : Type u}

/-! ### What steps write and clear -/

/-- The act may write `v` to `k`: a set does, and a load whose loader returns `v`. -/
def Act.Writes (k : String) (v : α) : Act α → Prop
  | .set j u => j = k ∧ u = v
  | .load j l | .lockedLoad j l => j = k ∧ l.outcome = .value v
  | _ => False

namespace Step

/-- The step is a set of `k` to `v` or makes one meanwhile, or it has a loader for `k` that
returns `v`. -/
def Writes (k : String) (v : α) : Step α → Prop
  | .call x => x = .set k v
  | .load j l during => j = k ∧ l.outcome = .value v ∨ during = some (.set k v)
  | .race j _ script => j = k ∧ ∃ i, (script.nth i).outcome = .value v
  | _ => False

/-- The step clears the cache, itself or by a call made meanwhile. -/
def Clears : Step α → Prop
  | .call x => x = .clear
  | .load _ _ during => during = some .clear
  | _ => False

def isStop : Step α → Bool
  | .stop => true
  | _ => false

theorem isStop_eq_false_iff {s : Step α} : s.isStop = false ↔ s ≠ .stop := by
  cases s <;> simp [isStop]

/-- The key that a step looks up on its own thread. -/
def looked? : Step α → Option String
  | .call (.get k) | .load k _ _ => some k
  | _ => none

end Step

namespace Cache

theorem writes_of_wrote_mem_deeds {c : Cache α} {a : Act α} {k : String} {v : α} {now : Int}
    (h : .wrote k v now ∈ c.deeds a) : a.Writes k v := by
  cases a with
  | set j u =>
    cases List.mem_singleton.1 h
    exact ⟨rfl, rfl⟩
  | lookup j => simp [deeds, lookDeeds] at h
  | load j l =>
    rcases List.mem_append.1 h with h | h
    · obtain ⟨hk, -, houtcome, -⟩ := wrote_mem_loadDeeds_iff.1 h
      exact ⟨hk.symm, houtcome⟩
    · simp [lookDeeds] at h
  | lockedLoad j l =>
    obtain ⟨hk, -, houtcome, -⟩ := wrote_mem_loadDeeds_iff.1 h
    exact ⟨hk.symm, houtcome⟩
  | clear => simp [deeds] at h
  | advance d => cases h

theorem eq_clear_of_cleared_mem_deeds {c : Cache α} {a : Act α} (h : .cleared ∈ c.deeds a) :
    a = .clear := by
  have hload (c : Cache α) (k : String) (l : Loader α) : .cleared ∉ c.loadDeeds k l := by
    unfold loadDeeds
    split <;> simp
  cases a with
  | set j u => simp [deeds] at h
  | lookup j => simp [deeds, lookDeeds] at h
  | load j l =>
    rcases List.mem_append.1 h with h | h
    · exact absurd h (hload _ j l)
    · simp [lookDeeds] at h
  | lockedLoad j l => exact absurd h (hload _ j l)
  | clear => rfl
  | advance d => cases h

/-- Callers under the lock do nothing but load, each with a loader of the script. -/
theorem mem_lockedActs {c : Cache α} {k : String} {script : Script (Loader α)} {runs n : Nat}
    {a : Act α} (h : a ∈ c.lockedActs k script runs n) : ∃ i, a = .lockedLoad k (script.nth i) := by
  induction n generalizing c runs with
  | zero => cases h
  | succ n ih =>
    rcases List.mem_cons.1 h with rfl | h
    · exact ⟨runs, rfl⟩
    · exact ih h

theorem mem_acts_race {c : Cache α} {k : String} {n : Nat} {script : Script (Loader α)}
    {a : Act α} (h : a ∈ c.acts (.race k n script)) :
    a = .lookup k ∨ ∃ i, a = .lockedLoad k (script.nth i) := by
  rcases List.mem_append.1 h with h | h
  · exact .inl (List.eq_of_mem_replicate h)
  · right
    cases hfound : (c.lookup k).1 with
    | some v => simp [hfound] at h
    | none =>
      rw [hfound] at h
      exact mem_lockedActs h

theorem mem_acts_load {c : Cache α} {k : String} {l : Loader α} {during : Option (Call α)}
    {a : Act α} (h : a ∈ c.acts (.load k l during)) :
    a = .load k l ∨ ∃ x, during = some x ∧ a ∈ x.acts := by
  cases during with
  | none => exact .inl (List.mem_singleton.1 h)
  | some x =>
    rcases List.mem_cons.1 h with h | h
    · exact .inl h
    · split at h
      · exact .inr ⟨x, rfl, h⟩
      · cases h

end Cache

namespace Call

theorem eq_set_of_mem_acts {x : Call α} {a : Act α} {k : String} {v : α} (h : a ∈ x.acts)
    (ha : a.Writes k v) : x = .set k v := by
  cases x with
  | set j u =>
    cases List.mem_singleton.1 h
    obtain ⟨rfl, rfl⟩ := ha
    rfl
  | get j => cases List.mem_singleton.1 h; cases ha
  | clear => cases List.mem_singleton.1 h; cases ha
  | size => cases h

theorem eq_clear_of_mem_acts {x : Call α} (h : .clear ∈ x.acts) : x = .clear := by
  cases x <;> simp_all [acts]

end Call

namespace Cache

theorem writes_of_mem_acts {c : Cache α} {s : Step α} {a : Act α} {k : String} {v : α}
    (h : a ∈ c.acts s) (ha : a.Writes k v) : s.Writes k v := by
  cases s with
  | call x => exact Call.eq_set_of_mem_acts h ha
  | load j l during =>
    rcases mem_acts_load h with rfl | ⟨x, rfl, hx⟩
    · exact .inl ha
    · exact .inr (congrArg some (Call.eq_set_of_mem_acts hx ha))
  | race j n script =>
    rcases mem_acts_race h with rfl | ⟨i, rfl⟩
    · cases ha
    · exact ⟨ha.1, i, ha.2⟩
  | advance d => cases List.mem_singleton.1 h; cases ha
  | isEmpty => cases h
  | stop => cases h

theorem clears_of_mem_acts {c : Cache α} {s : Step α} (h : .clear ∈ c.acts s) : s.Clears := by
  cases s with
  | call x => exact Call.eq_clear_of_mem_acts h
  | load j l during =>
    rcases mem_acts_load h with heq | ⟨x, rfl, hx⟩
    · cases heq
    · exact congrArg some (Call.eq_clear_of_mem_acts hx)
  | race j n script =>
    rcases mem_acts_race h with heq | ⟨i, heq⟩
    · cases heq
    · cases heq
  | advance d => cases List.mem_singleton.1 h
  | isEmpty => cases h
  | stop => cases h

/-- The acts in a run are those of its steps. -/
theorem mem_moves {c : Cache α} {ss : List (Step α)} {a : Act α} (h : .act a ∈ c.moves ss) :
    ∃ s ∈ ss, ∃ d : Cache α, a ∈ d.acts s := by
  induction ss generalizing c with
  | nil => cases h
  | cons s ss ih =>
    rcases List.mem_append.1 h with h | h
    · refine ⟨s, .head _, c, ?_⟩
      by_cases hs : s = .stop
      · subst hs
        cases act?_of_mem_stepMoves_stop h
      · rw [stepMoves_of_ne_stop c hs] at h
        rcases List.mem_append.1 h with h | h
        · simpa using h
        · cases act?_of_mem_settleMoves h
    · obtain ⟨t, ht, hd⟩ := ih h
      exact ⟨t, .tail _ ht, hd⟩

end Cache

namespace Recorded

/-- A run adds to the record what its moves do. -/
theorem exists_past_run (r : Recorded α) (ms : List (Move α)) :
    ∃ since, (r.run ms).past = since ++ r.past ∧
      ∀ d ∈ since, ∃ m ∈ ms, ∃ q : Recorded α, d ∈ q.deeds m := by
  induction ms generalizing r with
  | nil => exact ⟨[], rfl, fun d hd => nomatch hd⟩
  | cons m ms ih =>
    obtain ⟨since, hpast, hsince⟩ := ih (r.move m)
    refine ⟨since ++ r.deeds m, by rw [run_cons, hpast, List.append_assoc]; rfl, fun d hd => ?_⟩
    rcases List.mem_append.1 hd with hd | hd
    · obtain ⟨n, hn, hq⟩ := hsince d hd
      exact ⟨n, .tail _ hn, hq⟩
    · exact ⟨m, .head _, r, hd⟩

/-- The sweeper neither writes nor clears. -/
theorem exists_act_of_mem_deeds {r : Recorded α} {m : Move α} {d : Deed α} (h : d ∈ r.deeds m)
    (hasked : ∀ p now, d ≠ .asked p now) (hswept : ∀ now, d ≠ .swept now) :
    ∃ a, m = .act a ∧ d ∈ r.cache.deeds a := by
  cases m with
  | act a => exact ⟨a, rfl, h⟩
  | mark ago =>
    rcases List.mem_append.1 h with h | h
    · obtain ⟨p, -, rfl⟩ := List.mem_map.1 h
      exact absurd rfl (hasked p _)
    · exact absurd (List.mem_singleton.1 h) (hswept _)
  | take => cases h
  | purge p => cases h
  | halt => cases h

end Recorded

namespace Recorded

/-- Of what a run of steps adds to the record, the writes and the clears are those of steps. -/
theorem exists_past_steps (r : Recorded α) (c : Cache α) (ss : List (Step α)) :
    ∃ since, (r.run (c.moves ss)).past = since ++ r.past ∧
      (∀ k v now, .wrote k v now ∈ since → ∃ s ∈ ss, s.Writes k v) ∧
      (.cleared ∈ since → ∃ s ∈ ss, s.Clears) := by
  obtain ⟨since, hpast, hmoves⟩ := r.exists_past_run (c.moves ss)
  refine ⟨since, hpast, fun k v now hd => ?_, fun hd => ?_⟩
  · obtain ⟨m, hm, q, hdeeds⟩ := hmoves _ hd
    obtain ⟨a, rfl, hdeeds⟩ := exists_act_of_mem_deeds hdeeds nofun nofun
    obtain ⟨s, hs, c', ha⟩ := Cache.mem_moves hm
    exact ⟨s, hs, Cache.writes_of_mem_acts ha (Cache.writes_of_wrote_mem_deeds hdeeds)⟩
  · obtain ⟨m, hm, q, hdeeds⟩ := hmoves _ hd
    obtain ⟨a, rfl, hdeeds⟩ := exists_act_of_mem_deeds hdeeds nofun nofun
    obtain ⟨s, hs, c', ha⟩ := Cache.mem_moves hm
    obtain rfl := Cache.eq_clear_of_cleared_mem_deeds hdeeds
    exact ⟨s, hs, Cache.clears_of_mem_acts ha⟩

end Recorded

/-! ### Which steps stop the sweeper -/

namespace Cache

theorem running_act (c : Cache α) (a : Act α) :
    (c.act a).2.sweeper.running = c.sweeper.running := by
  cases a with
  | set k v => rfl
  | lookup k => rw [act, sweeper_lookup]
  | load k l => rw [act, load_eq_lockedLoad, sweeper_lockedLoad, sweeper_lookup]
  | lockedLoad k l => rw [act, sweeper_lockedLoad]
  | clear => rfl
  | advance d => rfl

theorem running_actAll (c : Cache α) (as : List (Act α)) :
    (c.actAll as).sweeper.running = c.sweeper.running := by
  induction as generalizing c with
  | nil => rfl
  | cons a as ih => exact (ih _).trans (c.running_act a)

theorem sweeper_perform (c : Cache α) {s : Step α} (hs : s ≠ .stop) :
    (c.perform s).2.sweeper = (c.actAll (c.acts s)).sweeper :=
  calc (c.perform s).2.sweeper
    _ = (c.perform s).2.mute.sweeper := rfl
    _ = (c.actAll (c.acts s)).mute.sweeper := by rw [mute_perform hs]

theorem running_perform (c : Cache α) {s : Step α} (hs : s ≠ .stop) :
    (c.perform s).2.sweeper.running = c.sweeper.running := by
  rw [sweeper_perform c hs, running_actAll]

theorem running_step (c : Cache α) (s : Step α) :
    (c.step s).2.sweeper.running = (c.sweeper.running && !s.isStop) := by
  by_cases hs : s = .stop
  · subst hs
    rw [step_stop]
    cases hrunning : c.sweeper.running <;> simp [hrunning, halt, Step.isStop]
  · rw [Step.isStop_eq_false_iff.2 hs, Bool.not_false, Bool.and_true]
    exact ((c.perform s).2.running_settle).trans (c.running_perform hs)

theorem running_run (c : Cache α) (ss : List (Step α)) :
    (c.run ss).2.sweeper.running = (c.sweeper.running && !ss.any Step.isStop) := by
  induction ss generalizing c with
  | nil => simp [run]
  | cons s ss ih =>
    refine (ih (c.step s).2).trans ?_
    rw [running_step, List.any_cons, Bool.not_or, Bool.and_assoc]

/-- The sweeper runs until the first stop. -/
theorem running_run_start (ttl : Nat) (begun : Int) (ss : List (Step α)) :
    ((start ttl begun).run ss).2.sweeper.running = true ↔ .stop ∉ ss := by
  rw [running_run]
  simp only [start, Sweeper.start, Bool.true_and, Bool.not_eq_true', List.any_eq_false,
    Bool.not_eq_true, Step.isStop_eq_false_iff]
  exact List.forall_mem_ne'

/-! ### Once stopped -/

section Stopped

variable {c : Cache α}

theorem step_stop_of_running (h : c.sweeper.running = true) : (c.step .stop).1 = .stopped := by
  simp [step, perform, stop_eq, h]

/-- A second stop is refused and changes nothing. -/
theorem step_stop_of_stopped (h : c.sweeper.running = false) :
    c.step .stop = (.refused .alreadyStopped, c) := by
  have hafter := c.step_stop
  rw [h] at hafter
  refine Prod.ext ?_ hafter
  simp [step, perform, stop_eq, h]

theorem request?_of_stopped (h : c.sweeper.running = false) (k : String) : c.request? k = none := by
  unfold request?
  split <;> simp [h]

theorem sweeper_lookup_of_stopped (h : c.sweeper.running = false) (k : String) :
    (c.lookup k).2.sweeper = c.sweeper := by
  rw [sweeper_lookup, request?_of_stopped h]
  simp

theorem sweeper_act_of_stopped (h : c.sweeper.running = false) (a : Act α) :
    (c.act a).2.sweeper = c.sweeper := by
  cases a with
  | set k v => rfl
  | lookup k => exact sweeper_lookup_of_stopped h k
  | load k l => rw [act, load_eq_lockedLoad, sweeper_lockedLoad, sweeper_lookup_of_stopped h]
  | lockedLoad k l => exact c.sweeper_lockedLoad k l
  | clear => rfl
  | advance d => rfl

theorem sweeper_actAll_of_stopped (h : c.sweeper.running = false) (as : List (Act α)) :
    (c.actAll as).sweeper = c.sweeper := by
  induction as generalizing c with
  | nil => rfl
  | cons a as ih =>
    have hact := sweeper_act_of_stopped h a
    exact (ih (hact ▸ h)).trans hact

/-- No step does anything to a stopped sweeper. -/
theorem sweeper_step_of_stopped (h : c.sweeper.running = false) (s : Step α) :
    (c.step s).2.sweeper = c.sweeper := by
  by_cases hs : s = .stop
  · rw [hs, step_stop_of_stopped h]
  · have hperform : (c.perform s).2.sweeper = c.sweeper :=
      (c.sweeper_perform hs).trans (sweeper_actAll_of_stopped h _)
    show (c.perform s).2.settle.sweeper = c.sweeper
    rw [settle_of_stopped (hperform ▸ h), hperform]

theorem sweeper_run_of_stopped (h : c.sweeper.running = false) (ss : List (Step α)) :
    (c.run ss).2.sweeper = c.sweeper := by
  induction ss generalizing c with
  | nil => rfl
  | cons s ss ih =>
    have hstep := sweeper_step_of_stopped h s
    exact (ih (hstep ▸ h)).trans hstep

/-- After every step, one that stops the sweeper included, its queue is empty. -/
theorem queue_step (h : c.sweeper.queue = []) (s : Step α) : (c.step s).2.sweeper.queue = [] := by
  cases hrunning : c.sweeper.running with
  | false => rw [sweeper_step_of_stopped hrunning, h]
  | true =>
    by_cases hs : s = .stop
    · subst hs
      rw [step_stop, if_pos hrunning]
      show c.settle.sweeper.queue = []
      rw [sweeper_settle hrunning]
    · show (c.perform s).2.settle.sweeper.queue = []
      rw [sweeper_settle ((c.running_perform hs).trans hrunning)]

theorem queue_run (h : c.sweeper.queue = []) (ss : List (Step α)) :
    (c.run ss).2.sweeper.queue = [] := by
  induction ss generalizing c with
  | nil => exact h
  | cons s ss ih => exact ih (queue_step h s)

theorem stepMoves_of_stopped (h : c.sweeper.running = false) (s : Step α) :
    c.stepMoves s = (c.acts s).map .act := by
  by_cases hs : s = .stop
  · subst hs
    simp [stepMoves, h, acts]
  · have hrunning := (c.running_perform hs).trans h
    rw [stepMoves_of_ne_stop c hs, settleMoves, hrunning]
    simp

end Stopped

end Cache

namespace Deed

/-- The entry that a key has after some deeds, if it had `before` and entries leave only all at
once. -/
def entryAfter (ttl : Nat) (before : Option (Entry α)) (k : String) :
    List (Deed α) → Option (Entry α)
  | [] => before
  | .wrote j v now :: past =>
    if k = j then some ⟨v, Time.deadline now ttl⟩ else entryAfter ttl before k past
  | .cleared :: _ => none
  | _ :: past => entryAfter ttl before k past

theorem isSome_entryAfter {ttl : Nat} {before : Option (Entry α)} {k : String}
    {since : List (Deed α)} (h : .cleared ∉ since) (hbefore : before.isSome = true) :
    (entryAfter ttl before k since).isSome = true := by
  induction since with
  | nil => exact hbefore
  | cons d since ih =>
    have hsince := ih (List.not_mem_of_not_mem_cons h)
    cases d with
    | wrote j v now =>
      rw [entryAfter]
      split
      · rfl
      · exact hsince
    | cleared => exact absurd (.head _) h
    | looked j now => exact hsince
    | asked p now => exact hsince
    | swept now => exact hsince

end Deed

namespace Recorded

/-- All that changed in the cache since `q` are entries that were written or cleared, and its
sweeper is stopped. -/
def Unswept (q r : Recorded α) : Prop :=
  ∃ since, r.past = since ++ q.past ∧ r.cache.ttl = q.cache.ttl ∧
    r.cache.sweeper.running = false ∧
    ∀ k, r.cache.store.find? k = Deed.entryAfter q.cache.ttl (q.cache.store.find? k) k since

namespace Unswept

variable {q r : Recorded α}

theorem refl (hq : q.cache.sweeper.running = false) : Unswept q q :=
  ⟨[], rfl, rfl, hq, fun _ => rfl⟩

theorem act (h : Unswept q r) (a : Act α) : Unswept q (r.act a) := by
  refine act_induction (fun r k v h => ?_) (fun r k h => ?_) (fun r h => ?_) (fun r d h => h) r a h
  · obtain ⟨since, hpast, httl, hstopped, hfind⟩ := h
    refine ⟨.wrote k v r.cache.clock :: since, congrArg _ hpast, httl, hstopped, fun j => ?_⟩
    show (r.cache.set k v).store.find? j = _
    rw [Cache.find?_set, Deed.entryAfter, hfind, httl]
  · obtain ⟨since, hpast, httl, hstopped, hfind⟩ := h
    have hsweeper : (r.act (.lookup k)).cache.sweeper = r.cache.sweeper :=
      Cache.sweeper_lookup_of_stopped hstopped k
    refine ⟨.looked k r.cache.clock :: since, ?_, (Cache.ttl_lookup _ k).trans httl,
      hsweeper ▸ hstopped, fun j => ?_⟩
    · simp [Recorded.act, Cache.deeds, Cache.lookDeeds, Cache.request?_of_stopped hstopped, hpast]
    · show (r.cache.lookup k).2.store.find? j = _
      rw [Cache.store_lookup, hfind]
      rfl
  · obtain ⟨since, hpast, httl, hstopped, -⟩ := h
    exact ⟨.cleared :: since, congrArg _ hpast, httl, hstopped, fun j => rfl⟩

theorem acts (h : Unswept q r) (as : List (Act α)) : Unswept q (r.run (as.map .act)) := by
  induction as generalizing r with
  | nil => exact h
  | cons a as ih => exact ih (h.act a)

theorem steps (h : Unswept q r) (hr : r.Faithful) {c : Cache α} (hc : r.cache.mute = c.mute)
    (hstopped : c.sweeper.running = false) (ss : List (Step α)) :
    Unswept q (r.run (c.moves ss)) := by
  induction ss generalizing r c with
  | nil => exact h
  | cons s ss ih =>
    have hstep := mute_run_stepMoves hr hc s
    rw [Cache.moves, run_append]
    refine ih ?_ (hr.run _) hstep (Cache.sweeper_step_of_stopped hstopped s ▸ hstopped)
    rw [Cache.stepMoves_of_stopped hstopped]
    exact h.acts _

end Unswept

end Recorded

/-! ### What is reported -/

namespace Cache

/-- What a caller reports whose lookup meets an expired entry once the sweeper is stopped. -/
def dropped (c : Cache α) (k : String) : List Event :=
  match c.store.look k c.clock with
  | .expired _ => [.purgeDropped k]
  | _ => []

section Stopped

variable {c : Cache α}

theorem journal_lookup_of_stopped (h : c.sweeper.running = false) (k : String) :
    (c.lookup k).2.journal = c.journal ++ c.dropped k := by
  rw [lookup, dropped]
  cases c.store.look k c.clock with
  | live v => exact (List.append_nil _).symm
  | expired e => simp [schedule, Sweeper.schedule, h]
  | absent => exact (List.append_nil _).symm

/-- Each of several callers reports what its own lookup reports. -/
theorem journal_lookupBy_of_stopped (h : c.sweeper.running = false) (k : String) (n : Nat) :
    (c.lookupBy k n).journal = c.journal ++ (List.replicate n (c.dropped k)).flatten := by
  induction n generalizing c with
  | zero => exact (List.append_nil _).symm
  | succ n ih =>
    have hafter : (c.lookup k).2.sweeper.running = false :=
      (congrArg Sweeper.running (sweeper_lookup_of_stopped h k)).trans h
    have hsame : (c.lookup k).2.dropped k = c.dropped k := by
      rw [dropped, dropped, store_lookup, clock_lookup]
    rw [lookupBy, ih hafter, journal_lookup_of_stopped h, hsame, List.append_assoc]
    rfl

theorem journal_load_of_stopped (h : c.sweeper.running = false) (k : String) (l : Loader α) :
    (c.load k l).2.journal = c.journal ++ c.dropped k := by
  rw [load_eq_lockedLoad, journal_lockedLoad, journal_lookup_of_stopped h]

theorem journal_loadDuring_of_stopped (h : c.sweeper.running = false) (k : String)
    (l : Loader α) (during : Option (Call α)) :
    (c.loadDuring k l during).2.journal = c.journal ++ c.dropped k := by
  have hload := journal_load_of_stopped h k l
  cases during with
  | none => exact hload
  | some x =>
    simp only [loadDuring]
    split
    · exact hload
    · exact hload

theorem journal_lockedLoads (c : Cache α) (k : String) (script : Script (Loader α))
    (runs n : Nat) : (c.lockedLoads k script runs n).2.journal = c.journal := by
  induction n generalizing c runs with
  | zero => rfl
  | succ n ih => exact (ih _ _).trans (c.journal_lockedLoad k _)

/-- The callers of a race report to journals of their own. -/
theorem journal_race (c : Cache α) (k : String) (n : Nat) (script : Script (Loader α)) :
    (c.race k n script).2.journal = c.journal := by
  rw [race]
  cases (c.lookup k).1 with
  | some v => rfl
  | none => exact journal_lockedLoads _ k script 0 n

/-- A step of a stopped cache reports what its own lookup reports. -/
theorem journal_step_of_stopped (h : c.sweeper.running = false) (s : Step α) :
    (c.step s).2.journal = c.journal ++ s.looked?.toList.flatMap c.dropped := by
  have hsingle (k : String) : [k].flatMap c.dropped = c.dropped k := by simp
  cases s with
  | call x =>
    cases x with
    | get k => exact (journal_lookup_of_stopped h k).trans (congrArg _ (hsingle k).symm)
    | set k v => exact (List.append_nil _).symm
    | clear => exact (List.append_nil _).symm
    | size => exact (List.append_nil _).symm
  | load k l during =>
    exact (journal_loadDuring_of_stopped h k l during).trans (congrArg _ (hsingle k).symm)
  | race k n script => exact (c.journal_race k n script).trans (List.append_nil _).symm
  | advance d => exact (List.append_nil _).symm
  | isEmpty => exact (List.append_nil _).symm
  | stop =>
    rw [step_stop_of_stopped h]
    exact (List.append_nil _).symm

end Stopped

end Cache

/-! ### What callers are answered -/

/-- An answer, unless it counts entries. -/
def Answer.uncounted? : Answer α → Option (Answer α)
  | .count _ => none
  | a => some a

/-- What a reply says of values: nothing if it counts entries or is about the sweeper. -/
def Reply.uncounted? : Reply α → Option (Reply α)
  | .answered a => a.uncounted?.map .answered
  | .loaded l during => some (.loaded l (during.bind Answer.uncounted?))
  | .raced r => some (.raced r)
  | .advanced => some .advanced
  | _ => none

namespace Cache

theorem uncounted?_step_stop (c : Cache α) : (c.step .stop).1.uncounted? = none := by
  cases hrunning : c.sweeper.running with
  | true => exact congrArg Reply.uncounted? (step_stop_of_running hrunning)
  | false => exact congrArg (Reply.uncounted? ·.1) (step_stop_of_stopped hrunning)

namespace Alike

variable {c d : Cache α}

theorem call (h : Alike c d) (x : Call α) :
    (c.call x).1.uncounted? = (d.call x).1.uncounted? ∧ Alike (c.call x).2 (d.call x).2 := by
  cases x with
  | set k v => exact ⟨rfl, h.set k v⟩
  | get k =>
    obtain ⟨hfound, hafter⟩ := h.lookup k
    refine ⟨?_, hafter⟩
    show some (Answer.found (c.lookup k).1) = some (.found (d.lookup k).1)
    rw [hfound]
  | clear => exact ⟨rfl, h.clear⟩
  | size => exact ⟨rfl, h⟩

theorem callElsewhere (h : Alike c d) (x : Call α) :
    (c.callElsewhere x).1.uncounted? = (d.callElsewhere x).1.uncounted? ∧
      Alike (c.callElsewhere x).2 (d.callElsewhere x).2 := by
  obtain ⟨hanswer, hafter⟩ := h.call x
  exact ⟨hanswer, hafter.ttl, hafter.clock, hafter.live⟩

theorem loadDuring (h : Alike c d) (k : String) (l : Loader α) (during : Option (Call α)) :
    (c.loadDuring k l during).1.1 = (d.loadDuring k l during).1.1 ∧
      (c.loadDuring k l during).1.2.bind Answer.uncounted? =
        (d.loadDuring k l during).1.2.bind Answer.uncounted? ∧
      Alike (c.loadDuring k l during).2 (d.loadDuring k l during).2 := by
  obtain ⟨hloaded, hafter⟩ := h.load k l
  cases during with
  | none => exact ⟨hloaded, rfl, hafter⟩
  | some x =>
    obtain ⟨hanswer, hlast⟩ := hafter.callElsewhere x
    simp only [Cache.loadDuring, hloaded]
    split
    · exact ⟨rfl, hanswer, hlast⟩
    · exact ⟨rfl, rfl, hafter⟩

theorem lookupBy (h : Alike c d) (k : String) (n : Nat) :
    Alike (c.lookupBy k n) (d.lookupBy k n) := by
  induction n generalizing c d with
  | zero => exact h
  | succ n ih => exact ih (h.lookup k).2

theorem lockedLoads (h : Alike c d) (k : String) (script : Script (Loader α)) (runs n : Nat) :
    (c.lockedLoads k script runs n).1 = (d.lockedLoads k script runs n).1 ∧
      Alike (c.lockedLoads k script runs n).2 (d.lockedLoads k script runs n).2 := by
  induction n generalizing c d runs with
  | zero => exact ⟨rfl, h⟩
  | succ n ih =>
    obtain ⟨hfirst, hafter⟩ := h.lockedLoad k (script.nth runs)
    simp only [Cache.lockedLoads, hfirst]
    obtain ⟨hothers, hlast⟩ := ih hafter
      (if (d.lockedLoad k (script.nth runs)).1.ran then runs + 1 else runs)
    exact ⟨by rw [hothers], hlast⟩

theorem race (h : Alike c d) (k : String) (n : Nat) (script : Script (Loader α)) :
    (c.race k n script).1 = (d.race k n script).1 ∧
      Alike (c.race k n script).2 (d.race k n script).2 := by
  have hlookups := h.lookupBy k n
  have hwaiting : Alike { c.lookupBy k n with journal := c.journal }
      { d.lookupBy k n with journal := d.journal } :=
    ⟨hlookups.ttl, hlookups.clock, hlookups.live⟩
  rw [Cache.race, Cache.race, (h.lookup k).1]
  cases (d.lookup k).1 with
  | some v => exact ⟨rfl, hwaiting⟩
  | none => exact hwaiting.lockedLoads k script 0 n

theorem perform (h : Alike c d) {s : Step α} (hs : s ≠ .stop) :
    (c.perform s).1.uncounted? = (d.perform s).1.uncounted? ∧
      Alike (c.perform s).2 (d.perform s).2 := by
  cases s with
  | call x => exact (h.call x).imp_left (congrArg (Option.map Reply.answered))
  | load k l during =>
    obtain ⟨hloaded, hanswer, hafter⟩ := h.loadDuring k l during
    exact ⟨congrArg₂ (fun l a => some (Reply.loaded l a)) hloaded hanswer, hafter⟩
  | race k n script => exact (h.race k n script).imp_left (congrArg fun r => some (Reply.raced r))
  | advance n => exact ⟨rfl, h.advance n⟩
  | isEmpty => exact ⟨rfl, h⟩
  | stop => exact absurd rfl hs

end Alike

end Cache

namespace Recorded

section Unstopped

variable {r q : Recorded α} {c d : Cache α}

/-- No caller notices that the sweeper had its turn. -/
theorem alike_settle (hr : r.Faithful) (hc : r.cache.mute = c.mute) : Cache.Alike c c.settle := by
  have hturn : Cache.Alike r.cache r.cache.settle := by
    have hrun := congrArg Recorded.cache (run_settleMoves hr)
    rw [← show (r.run r.cache.settleMoves).cache = r.cache.settle from hrun]
    exact hr.alike_run fun m hm => Cache.act?_of_mem_settleMoves hm
  have hsettled : r.cache.settle.mute = c.settle.mute :=
    Cache.mute_congr Cache.settle (fun _ => rfl) hc
  exact (Cache.alike_of_mute_eq hc).symm.trans (hturn.trans (Cache.alike_of_mute_eq hsettled))

theorem alike_step_stop (hr : r.Faithful) (hc : r.cache.mute = c.mute) :
    Cache.Alike c (c.step .stop).2 := by
  have hsettled := alike_settle hr hc
  rw [Cache.step_stop]
  split
  · exact ⟨hsettled.ttl, hsettled.clock, hsettled.live⟩
  · exact .refl c

theorem alike_step (hr : r.Faithful) (hc : r.cache.mute = c.mute) (hq : q.Faithful)
    (hd : q.cache.mute = d.mute) (h : Cache.Alike c d) {s : Step α} (hs : s ≠ .stop) :
    Cache.Alike (c.step s).2 (d.step s).2 := by
  have hc' := alike_settle (hr.run _) (mute_run_acts hc hs)
  have hd' := alike_settle (hq.run _) (mute_run_acts hd hs)
  exact hc'.symm.trans ((h.perform hs).2.trans hd')

/-- A run and the run without its stops lead to caches that no caller can tell apart. -/
theorem alike_run_filter (hr : r.Faithful) (hc : r.cache.mute = c.mute) (hq : q.Faithful)
    (hd : q.cache.mute = d.mute) (h : Cache.Alike c d) (ss : List (Step α)) :
    Cache.Alike (c.run ss).2 (d.run (ss.filter (!·.isStop))).2 := by
  induction ss generalizing r q c d with
  | nil => exact h
  | cons s ss ih =>
    have hr' := hr.run (c.stepMoves s)
    have hc' := mute_run_stepMoves hr hc s
    by_cases hs : s = .stop
    · subst hs
      exact ih hr' hc' hq hd ((alike_step_stop hr hc).symm.trans h)
    · have hkeep : (s :: ss).filter (!·.isStop) = s :: ss.filter (!·.isStop) :=
        List.filter_cons_of_pos (by rw [Step.isStop_eq_false_iff.2 hs]; rfl)
      rw [hkeep]
      exact ih hr' hc' (hq.run (d.stepMoves s)) (mute_run_stepMoves hq hd s)
        (alike_step hr hc hq hd h hs)

end Unstopped

/-- What happens to the store of a stopped cache is what its steps write and clear. -/
theorem exists_since_of_stopped (ttl : Nat) (begun : Int) {ss : List (Step α)} (us : List (Step α))
    (h : ((Cache.start ttl begun).run ss).2.sweeper.running = false) :
    ∃ since, (ofSteps ttl begun (ss ++ us)).past = since ++ (ofSteps ttl begun ss).past ∧
      (∀ k, ((Cache.start ttl begun).run (ss ++ us)).2.store.find? k =
        Deed.entryAfter ttl (((Cache.start ttl begun).run ss).2.store.find? k) k since) ∧
      (∀ k v now, .wrote k v now ∈ since → ∃ s ∈ us, s.Writes k v) ∧
      (.cleared ∈ since → ∃ s ∈ us, s.Clears) := by
  let q := ofSteps ttl begun ss
  let c := ((Cache.start ttl begun).run ss).2
  have hlater : ofSteps ttl begun (ss ++ us) = q.run (c.moves us) := by
    rw [ofSteps, Cache.moves_append, run_append]
    rfl
  have hmute : q.cache.mute = c.mute := mute_ofSteps ttl begun ss
  have hmute' := mute_ofSteps ttl begun (ss ++ us)
  rw [hlater] at hmute' ⊢
  have hstopped : q.cache.sweeper.running = false := (congrArg (·.sweeper.running) hmute).trans h
  obtain ⟨since, hpast, -, -, hfind⟩ :=
    (Unswept.refl hstopped).steps (faithful_ofSteps ttl begun ss) hmute h us
  obtain ⟨since', hpast', hwrote, hcleared⟩ := q.exists_past_steps c us
  obtain rfl : since = since' := List.append_cancel_right (hpast.symm.trans hpast')
  refine ⟨since, hpast, fun k => ?_, hwrote, hcleared⟩
  have hnow : q.cache.mute.store = c.mute.store := congrArg Cache.store hmute
  have hthen := congrArg Cache.store hmute'
  have httl : q.cache.ttl = ttl := ttl_run _ _
  calc ((Cache.start ttl begun).run (ss ++ us)).2.store.find? k
    _ = (q.run (c.moves us)).cache.store.find? k := congrArg (·.find? k) hthen.symm
    _ = Deed.entryAfter q.cache.ttl (q.cache.store.find? k) k since := hfind k
    _ = Deed.entryAfter ttl (c.store.find? k) k since :=
      congrArg₂ (fun n (s : Store α) => Deed.entryAfter n (s.find? k) k since) httl hnow

/-- In every run the first stop takes effect and every later one is refused and changes nothing.
Once stopped, whatever steps `us` come, the sweeper stays as it is, with an empty queue. What
the store then holds for a key is what the deeds since then make of what it held: the entry of
the last write, nothing after a clear, else what was there. The writes among these deeds are
those of sets and of loads whose loader returned the value, the clears those of steps that clear,
so without these the size does not decrease. A lookup, of a step or of any of several callers
with journals of their own, reports once that an expired entry that it meets is not purged;
what runs under the lock and all other steps report nothing. Counts of entries aside, each step
of the run, before a stop or after it, is answered as in the run without its stops. -/
theorem stop_is_final (ttl : Nat) (begun : Int) (ss : List (Step α)) :
    let after (ts : List (Step α)) : Cache α := ((Cache.start ttl begun).run ts).2
    let c := after ss
    (.stop ∉ ss → (c.step .stop).1 = .stopped) ∧
    (.stop ∈ ss →
      c.step .stop = (.refused .alreadyStopped, c) ∧
      (∀ us, let d := after (ss ++ us)
        d.sweeper = c.sweeper ∧ d.sweeper.queue = [] ∧
        (∃ since, (ofSteps ttl begun (ss ++ us)).past = since ++ (ofSteps ttl begun ss).past ∧
          (∀ k, d.store.find? k = Deed.entryAfter ttl (c.store.find? k) k since) ∧
          (∀ k v now, .wrote k v now ∈ since → ∃ s ∈ us, s.Writes k v) ∧
          (.cleared ∈ since → ∃ s ∈ us, s.Clears)) ∧
        ((∀ s ∈ us, ¬s.Clears) → c.size ≤ d.size)) ∧
      (∀ k n, (c.lookupBy k n).journal = c.journal ++ (List.replicate n (c.dropped k)).flatten) ∧
      (∀ k l, (c.lockedLoad k l).2.journal = c.journal) ∧
      ∀ s, (c.step s).2.journal = c.journal ++ s.looked?.toList.flatMap c.dropped) ∧
    ∀ s, (c.step s).1.uncounted? = ((after (ss.filter (!·.isStop))).step s).1.uncounted? := by
  intro after c
  refine ⟨fun hss => ?_, fun hss => ?_, fun s => ?_⟩
  · exact Cache.step_stop_of_running ((Cache.running_run_start ttl begun ss).2 hss)
  · have hstopped : c.sweeper.running = false := by
      rw [← Bool.not_eq_true, Cache.running_run_start]
      exact fun hnot => hnot hss
    refine ⟨Cache.step_stop_of_stopped hstopped, fun us => ?_,
      Cache.journal_lookupBy_of_stopped hstopped, c.journal_lockedLoad,
      Cache.journal_step_of_stopped hstopped⟩
    intro d
    have hd : d = (c.run us).2 := Cache.run_append_snd _ ss us
    have hsweeper : d.sweeper = c.sweeper := by rw [hd, Cache.sweeper_run_of_stopped hstopped]
    obtain ⟨since, hpast, hfind, hwrote, hcleared⟩ := exists_since_of_stopped ttl begun us hstopped
    refine ⟨hsweeper, Cache.queue_run rfl _, ⟨since, hpast, hfind, hwrote, hcleared⟩, fun hus => ?_⟩
    have hkept : .cleared ∉ since := fun hmem => by
      obtain ⟨s, hs, hclears⟩ := hcleared hmem
      exact hus s hs hclears
    refine Store.size_le_of_find? fun k hk => ?_
    rw [hfind]
    exact Deed.isSome_entryAfter hkept hk
  · have halike : Cache.Alike c (after (ss.filter (!·.isStop))) :=
      alike_run_filter (faithful_start ttl begun) rfl (faithful_start ttl begun) rfl (.refl _) ss
    by_cases hs : s = .stop
    · subst hs
      rw [Cache.uncounted?_step_stop, Cache.uncounted?_step_stop]
    · exact (halike.perform hs).1

/-- Two values expire after the stop. One stays for good and is missed by a lookup, which
reports it; the other stays until a load replaces it. A load is answered as if nobody had
stopped the sweeper. -/
theorem stop_is_final_leftover :
    let ss : List (Step Nat) := [.call (.set "a" 1), .call (.set "b" 2), .stop, .advance 20]
    let us : List (Step Nat) := [.call (.get "a"), .load "b" ⟨1, .value 5⟩ none, .advance 50]
    let c := ((Cache.start 10 0).run ss).2
    let d := ((Cache.start 10 0).run (ss ++ us)).2
    .stop ∈ ss ∧ c.step .stop = (.refused .alreadyStopped, c) ∧ (∀ s ∈ us, ¬s.Clears) ∧
      c.size ≤ d.size ∧ d.sweeper.queue = [] ∧ d.store.find? "a" = some ⟨1, 10⟩ ∧
      d.store.find? "b" = some ⟨5, 31⟩ ∧
      (c.step (.call (.get "a"))).2.journal = c.journal ++ [.purgeDropped "a"] ∧
      (c.step (.load "b" ⟨1, .value 5⟩ none)).1.uncounted? =
        some (.loaded ⟨.value 5, true⟩ none) := by
  intro ss us c d
  have hss : .stop ∈ ss := by decide
  have hus : ∀ s ∈ us, ¬s.Clears := by simp [us, Step.Clears]
  obtain ⟨-, hstopped, hanswers⟩ := stop_is_final (α := Nat) 10 0 ss
  obtain ⟨hrefused, hlater, -, -, hjournal⟩ := hstopped hss
  obtain ⟨-, hqueue, -, hsize⟩ := hlater us
  have hfresh : ((Cache.start 10 0).run (ss.filter (!·.isStop))).2.live "b" = none := by decide
  refine ⟨hss, hrefused, hus, hsize hus, hqueue, by decide, by decide,
    hjournal (.call (.get "a")), ?_⟩
  rw [hanswers, Cache.step_load_of_live_eq_none _ hfresh]
  rfl

end Recorded

end ExpiringCache
