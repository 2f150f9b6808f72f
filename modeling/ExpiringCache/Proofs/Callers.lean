import ExpiringCache.Proofs.Tokens
import Mathlib.Logic.Function.Basic

/-! Any number of callers that load at the same time. A load takes two turns: a lookup
without the lock, which may already return a value, and the section under the lock, in
which the caller looks again and runs its loader if there is still nothing. Sets, lookups,
clears, the passing of time and the sweeper come between the turns in any order. Each
loader runs at most once and only while no live entry is there, and none runs within the
lifetime of a value that another one has loaded (`one_load_per_lifetime`). -/

namespace ExpiringCache

open Deed (lastEntry)

universe u

variable {α : Type u}

/-- How far the load of a caller has come. -/
inductive Phase (α : Type u) where
  | idle
  | waiting (key : String) (l : Loader α)
  | over
deriving DecidableEq, Repr

/-- What one thread does before another takes its turn. A set takes effect some time after
it settled the expiry of its value. -/
inductive Turn (α : Type u) where
  | look (caller : Nat) (key : String) (l : Loader α)
  | enter (caller : Nat)
  | set (key : String) (v : α) (ago : Nat)
  | lookup (key : String)
  | clear
  | advance (d : Nat)
  | mark (ago : Nat)
  | take
  | purge (p : Purge)
  | halt
deriving DecidableEq, Repr

/-- A set of the key, or a clear. -/
def Turn.disturbs (key : String) : Turn α → Bool
  | .set k _ _ => k = key
  | .clear => true
  | _ => false

/-- What a turn shows of a load: its loader ran, from the instant `now` on, or it ended. -/
inductive Incident (α : Type u) where
  | ran (caller : Nat) (key : String) (now : Int) (l : Loader α)
  | ended (caller : Nat) (key : String) (outcome : Outcome α)
deriving DecidableEq, Repr

/-- The loader of this caller ran. -/
def Incident.isRunOf (caller : Nat) : Incident α → Bool
  | .ran i _ _ _ => i = caller
  | _ => false

/-- A cache that callers share, each at a load of its own. -/
structure Crowd (α : Type u) where
  shared : Recorded α
  phase : Nat → Phase α

namespace Crowd

def start (ttl : Nat) (now : Int) : Crowd α := ⟨.start ttl now, fun _ => .idle⟩

abbrev cache (c : Crowd α) : Cache α := c.shared.cache

/-- A move that belongs to no load. -/
def move (c : Crowd α) (m : Move α) : Crowd α := { c with shared := c.shared.move m }

/-- A caller acts and comes to another phase of its load. -/
def act (c : Crowd α) (a : Act α) (i : Nat) (p : Phase α) : Crowd α :=
  ⟨c.shared.act a, Function.update c.phase i p⟩

/-- One turn, with what it shows of the loads. -/
def turn (c : Crowd α) : Turn α → List (Incident α) × Crowd α
  | .look i k l =>
    match c.phase i with
    | .idle =>
      match (c.cache.lookup k).1 with
      | some v => ([.ended i k (.value v)], c.act (.lookup k) i .over)
      | none => ([], c.act (.lookup k) i (.waiting k l))
    | _ => ([], c)
  | .enter i =>
    match c.phase i with
    | .waiting k l =>
      let loaded := (c.cache.lockedLoad k l).1
      (.ended i k loaded.outcome :: if loaded.ran then [.ran i k c.cache.clock l] else [],
        c.act (.lockedLoad k l) i .over)
    | _ => ([], c)
  | .set k v ago => ([], { c with shared := c.shared.put k v (c.cache.clock - ago) })
  | .lookup k => ([], c.move (.act (.lookup k)))
  | .clear => ([], c.move (.act .clear))
  | .advance d => ([], c.move (.act (.advance d)))
  | .mark ago => ([], c.move (.mark ago))
  | .take => ([], c.move .take)
  | .purge p => ([], c.move (.purge p))
  | .halt => ([], c.move .halt)

def run (c : Crowd α) (ts : List (Turn α)) : Crowd α := ts.foldl (fun c t => (c.turn t).2) c

/-- What a run shows of the loads, turn by turn. -/
def history (c : Crowd α) : List (Turn α) → List (Incident α)
  | [] => []
  | t :: ts => (c.turn t).1 ++ (c.turn t).2.history ts

@[simp] theorem run_nil (c : Crowd α) : c.run [] = c := rfl

@[simp] theorem run_cons (c : Crowd α) (t : Turn α) (ts : List (Turn α)) :
    c.run (t :: ts) = (c.turn t).2.run ts := rfl

theorem run_append (c : Crowd α) (ts us : List (Turn α)) :
    c.run (ts ++ us) = (c.run ts).run us := List.foldl_append

/-! ### What a turn does -/

variable {c : Crowd α} {i : Nat} {k : String} {l : Loader α}

theorem turn_look_of_hit (h : c.phase i = .idle) {v : α} (hit : (c.cache.lookup k).1 = some v) :
    c.turn (.look i k l) = ([.ended i k (.value v)], c.act (.lookup k) i .over) := by
  simp only [turn, h, hit]

theorem turn_look_of_miss (h : c.phase i = .idle) (miss : (c.cache.lookup k).1 = none) :
    c.turn (.look i k l) = ([], c.act (.lookup k) i (.waiting k l)) := by
  simp only [turn, h, miss]

theorem turn_look_of_phase_ne (h : c.phase i ≠ .idle) : c.turn (.look i k l) = ([], c) := by
  simp only [turn]

theorem turn_enter_of_live (h : c.phase i = .waiting k l) {e : Entry α}
    (hlive : c.cache.live k = some e) :
    c.turn (.enter i) = ([.ended i k (.value e.value)], c.act (.lockedLoad k l) i .over) := by
  have hloaded := Cache.lockedLoad_of_live_eq_some l hlive
  simp only [turn, h, hloaded, Bool.false_eq_true, if_false]

theorem turn_enter_of_absent (h : c.phase i = .waiting k l) (hlive : c.cache.live k = none) :
    c.turn (.enter i) = ([.ended i k l.outcome, .ran i k c.cache.clock l],
      c.act (.lockedLoad k l) i .over) := by
  have hloaded := Cache.lockedLoad_of_live_eq_none l hlive
  simp only [turn, h, hloaded, if_true]

theorem turn_enter_of_phase_ne (h : ∀ k l, c.phase i ≠ .waiting k l) :
    c.turn (.enter i) = ([], c) := by
  simp only [turn]

/-- A load whose turns nothing comes between is the load of a cache. -/
theorem run_look_enter (h : c.phase i = .idle) (k : String) (l : Loader α) :
    (c.run [.look i k l, .enter i]).shared = c.shared.act (.load k l) ∧
      .ended i k (c.cache.load k l).1.outcome ∈ c.history [.look i k l, .enter i] := by
  have hload := Cache.load_eq_lockedLoad c.cache k l
  rw [Recorded.act_load, run_cons, run_cons, run_nil, history, history, hload]
  cases hlive : c.cache.live k with
  | some e =>
    have hit : (c.cache.lookup k).1 = some e.value := Cache.lookup_fst_of_live_eq_some hlive
    have hstill : (c.cache.lookup k).2.live k = some e := (Cache.live_lookup _ k k).trans hlive
    have hover : ∀ m o, (c.act (.lookup k) i .over).phase i ≠ .waiting m o := by simp [act]
    rw [turn_look_of_hit h hit, turn_enter_of_phase_ne hover,
      Cache.lockedLoad_of_live_eq_some l hstill]
    exact ⟨(Recorded.act_lockedLoad_of_live_eq_some l hstill).symm, .head _⟩
  | none =>
    have miss : (c.cache.lookup k).1 = none := by rw [Cache.lookup_fst, hlive]; rfl
    have hstill : (c.cache.lookup k).2.live k = none := (Cache.live_lookup _ k k).trans hlive
    have hwaiting : (c.act (.lookup k) i (.waiting k l)).phase i = .waiting k l := by simp [act]
    rw [turn_look_of_miss h miss, turn_enter_of_absent hwaiting hstill,
      Cache.lockedLoad_of_live_eq_none l hstill]
    exact ⟨rfl, .head _⟩

/-- A loader runs in a turn under the lock, from its clock on, while no live entry is
there. -/
theorem ran_mem_turn_iff {t : Turn α} {now : Int} : .ran i k now l ∈ (c.turn t).1 ↔
    t = .enter i ∧ c.phase i = .waiting k l ∧ now = c.cache.clock ∧ c.cache.live k = none := by
  constructor
  · intro h
    cases t with
    | look j m o =>
      simp only [turn] at h
      split at h
      · split at h <;> simp at h
      · simp at h
    | enter j =>
      cases hphase : c.phase j with
      | waiting m o =>
        cases hlive : c.cache.live m with
        | some e => simp [turn_enter_of_live hphase hlive] at h
        | none =>
          rw [turn_enter_of_absent hphase hlive] at h
          obtain ⟨rfl, rfl, rfl, rfl⟩ : i = j ∧ k = m ∧ now = c.cache.clock ∧ l = o := by
            simpa using h
          exact ⟨rfl, hphase, rfl, hlive⟩
      | _ => simp [turn_enter_of_phase_ne (c := c) (i := j) (by simp [hphase])] at h
    | _ => simp [turn] at h
  · rintro ⟨rfl, hphase, rfl, hlive⟩
    simp [turn_enter_of_absent hphase hlive]

/-- The value that a loader returned is live at the end of its turn. -/
theorem live_of_ran_mem_turn {t : Turn α} {now : Int} {v : α}
    (h : .ran i k now l ∈ (c.turn t).1) (hv : l.outcome = .value v) :
    (c.turn t).2.cache.live k = some ⟨v, Time.deadline (now + l.cost) c.cache.ttl⟩ := by
  obtain ⟨rfl, hphase, rfl, hlive⟩ := ran_mem_turn_iff.1 h
  have hafter : (c.cache.lockedLoad k l).2 = (c.cache.advance l.cost).set k v := by
    rw [Cache.lockedLoad_of_live_eq_none l hlive, hv, Cache.keep]
  rw [turn_enter_of_absent hphase hlive]
  show (c.cache.lockedLoad k l).2.live k = _
  rw [hafter, Cache.live_set, if_pos rfl]
  rfl

/-- A load that ends with a value returns that of a live entry, or the one that its loader
just put in. -/
theorem live_of_ended_mem_turn {t : Turn α} {v : α} (h : .ended i k (.value v) ∈ (c.turn t).1) :
    ∃ e, e.value = v ∧ (c.cache.live k = some e ∨
      (∃ now l, .ran i k now l ∈ (c.turn t).1) ∧ (c.turn t).2.cache.live k = some e) := by
  cases t with
  | look j m o =>
    cases hphase : c.phase j with
    | idle =>
      cases hit : (c.cache.lookup m).1 with
      | some u =>
        rw [turn_look_of_hit hphase hit] at h
        obtain ⟨rfl, rfl, rfl⟩ : i = j ∧ k = m ∧ v = u := by simpa using h
        rw [Cache.lookup_fst, Option.map_eq_some_iff] at hit
        obtain ⟨e, hlive, hvalue⟩ := hit
        exact ⟨e, hvalue, .inl hlive⟩
      | none => simp [turn_look_of_miss hphase hit] at h
    | _ => simp [turn_look_of_phase_ne (c := c) (i := j) (by simp [hphase])] at h
  | enter j =>
    cases hphase : c.phase j with
    | waiting m o =>
      cases hlive : c.cache.live m with
      | some e =>
        rw [turn_enter_of_live hphase hlive] at h
        obtain ⟨rfl, rfl, rfl⟩ : i = j ∧ k = m ∧ v = e.value := by simpa using h
        exact ⟨e, rfl, .inl hlive⟩
      | none =>
        rw [turn_enter_of_absent hphase hlive] at h
        obtain ⟨rfl, rfl, houtcome⟩ : i = j ∧ k = m ∧ .value v = o.outcome := by simpa using h
        have hran : .ran i k c.cache.clock o ∈ (c.turn (.enter i)).1 :=
          ran_mem_turn_iff.2 ⟨rfl, hphase, rfl, hlive⟩
        exact ⟨_, rfl, .inr ⟨⟨_, _, hran⟩, live_of_ran_mem_turn hran houtcome.symm⟩⟩
    | _ => simp [turn_enter_of_phase_ne (c := c) (i := j) (by simp [hphase])] at h
  | _ => simp [turn] at h

/-! ### A call runs its loader at most once -/

theorem phase_turn_of_over (h : c.phase i = .over) (t : Turn α) :
    (c.turn t).2.phase i = .over := by
  have hother {j : Nat} (a : Act α) (p : Phase α) (hj : c.phase j ≠ .over) :
      (c.act a j p).phase i = .over := by
    have hne : i ≠ j := by
      rintro rfl
      exact hj h
    exact (Function.update_of_ne hne _ _).trans h
  cases t with
  | look j m o =>
    simp only [turn]
    split
    · rename_i hphase
      split <;> exact hother _ _ (by simp [hphase])
    · exact h
  | enter j =>
    simp only [turn]
    split
    · rename_i hphase
      exact hother _ _ (by simp [hphase])
    · exact h
  | _ => exact h

/-- Either the loader of a call does not run in a turn, or it runs once and the call is
over. -/
theorem countP_turn (c : Crowd α) (t : Turn α) (i : Nat) :
    (c.turn t).1.countP (Incident.isRunOf i) = 0 ∨
      (c.turn t).1.countP (Incident.isRunOf i) = 1 ∧ c.phase i ≠ .over ∧
        (c.turn t).2.phase i = .over := by
  by_cases hran : ∃ k now l, .ran i k now l ∈ (c.turn t).1
  · obtain ⟨k, now, l, hran⟩ := hran
    obtain ⟨rfl, hphase, -, hlive⟩ := ran_mem_turn_iff.1 hran
    right
    rw [turn_enter_of_absent hphase hlive]
    refine ⟨by simp [Incident.isRunOf], by simp [hphase], by simp [act]⟩
  · left
    rw [List.countP_eq_zero]
    intro x hx
    cases x with
    | ran j k now l =>
      simp only [Incident.isRunOf, decide_eq_true_eq]
      rintro rfl
      exact hran ⟨k, now, l, hx⟩
    | ended j k o => simp [Incident.isRunOf]

theorem countP_history_of_over (h : c.phase i = .over) (ts : List (Turn α)) :
    (c.history ts).countP (Incident.isRunOf i) = 0 := by
  induction ts generalizing c with
  | nil => rfl
  | cons t ts ih =>
    rw [history, List.countP_append, ih (phase_turn_of_over h t)]
    rcases c.countP_turn t i with hzero | ⟨-, hphase, -⟩
    · exact hzero
    · exact absurd h hphase

theorem countP_history_le_one (c : Crowd α) (ts : List (Turn α)) (i : Nat) :
    (c.history ts).countP (Incident.isRunOf i) ≤ 1 := by
  induction ts generalizing c with
  | nil => exact Nat.zero_le 1
  | cons t ts ih =>
    rw [history, List.countP_append]
    rcases c.countP_turn t i with hzero | ⟨hone, -, hover⟩
    · have := ih (c.turn t).2
      omega
    · have := countP_history_of_over hover ts
      omega

/-! ### What a load leaves for the others -/

/-- Turns preserve what moves and writes preserve. -/
theorem turn_induction {P : Recorded α → Prop} (move : ∀ r m, P r → P (r.move m))
    (put : ∀ r k v written, P r → P (r.put k v written)) (h : P c.shared) (t : Turn α) :
    P (c.turn t).2.shared := by
  cases t with
  | look j m o =>
    simp only [turn]
    split
    · split <;> exact move _ (.act (.lookup m)) h
    · exact h
  | enter j =>
    simp only [turn]
    split
    · exact move _ (.act (.lockedLoad _ _)) h
    · exact h
  | set m v ago => exact put _ m v _ h
  | _ => exact move _ _ h

theorem faithful_turn (h : c.shared.Faithful) (t : Turn α) : (c.turn t).2.shared.Faithful :=
  turn_induction (fun _ m h => h.move m) (fun _ k v written h => h.put k v written) h t

/-- The entry `e` is the last one written to its key, until it expires. -/
def Standing (k : String) (e : Entry α) (r : Recorded α) : Prop :=
  r.cache.clock ≤ e.expiresAt → lastEntry r.cache.ttl r.past k = some e

namespace Standing

variable {e : Entry α} {q r : Recorded α}

theorem later (h : Standing k e q) (hclock : q.cache.clock ≤ r.cache.clock)
    (hlast : lastEntry r.cache.ttl r.past k = lastEntry q.cache.ttl q.past k) :
    Standing k e r := by
  intro hlive
  rw [hlast]
  exact h (Int.le_trans hclock hlive)

/-- As long as an entry stands, nobody loads its key. -/
theorem lt_of_live_eq_none (h : Standing k e r) (hr : r.Faithful)
    (hnone : r.cache.live k = none) : e.expiresAt < r.cache.clock := by
  by_contra hle
  have hlive : r.cache.clock ≤ e.expiresAt := by omega
  have hfound : r.cache.live k = some e := hr.live_eq_some_iff.2 ⟨h hlive, hlive⟩
  exact Option.some_ne_none e (hfound.symm.trans hnone)

theorem lookup (h : Standing k e r) (m : String) : Standing k e (r.act (.lookup m)) :=
  h.later (Int.le_of_eq (Cache.clock_lookup _ m).symm) (r.lastEntry_act_lookup m k)

theorem advance (h : Standing k e r) (d : Nat) : Standing k e (r.act (.advance d)) := by
  refine h.later ?_ rfl
  show r.cache.clock ≤ r.cache.clock + d
  omega

theorem put (h : Standing k e r) {m : String} (hm : m ≠ k) (v : α) (written : Int) :
    Standing k e (r.put m v written) := by
  refine h.later (Int.le_refl _) ?_
  show lastEntry r.cache.ttl (.wrote m v written :: r.past) k = _
  rw [Deed.lastEntry_wrote, if_neg hm.symm]

/-- A load that is over by the time the entry expires is of another key. -/
theorem lockedLoad (h : Standing k e r) (hr : r.Faithful) (m : String) (l : Loader α) :
    Standing k e (r.act (.lockedLoad m l)) := by
  cases hlive : r.cache.live m with
  | some f => rwa [Recorded.act_lockedLoad_of_live_eq_some l hlive]
  | none =>
    have hadvance := h.advance l.cost
    rw [Recorded.act_lockedLoad_of_live_eq_none l hlive]
    split
    · rename_i v _
      by_cases hm : m = k
      · subst hm
        have hexpired := h.lt_of_live_eq_none hr hlive
        intro hclock
        have : r.cache.clock + l.cost ≤ e.expiresAt := hclock
        omega
      · exact hadvance.put hm v _
    · exact hadvance

/-- The sweeper writes nothing. -/
theorem move (h : Standing k e r) {m : Move α} (hm : m.act? = none) :
    Standing k e (r.move m) := by
  cases m with
  | act a => cases hm
  | mark ago => exact h.later (Int.le_refl _) (r.lastEntry_move_mark ago k)
  | take => exact h.later (Int.le_refl _) rfl
  | purge p =>
    rcases r.move_purge p with ⟨now, -, hmove⟩ | hmove
    · rw [hmove]
      exact h.later (Int.le_refl _) rfl
    · rwa [hmove]
  | halt => exact h.later (Int.le_refl _) rfl

end Standing

theorem standing_turn {e : Entry α} (hc : c.shared.Faithful) (h : Standing k e c.shared)
    {t : Turn α} (ht : t.disturbs k = false) : Standing k e (c.turn t).2.shared := by
  cases t with
  | look j m o =>
    simp only [turn]
    split
    · split <;> exact h.lookup m
    · exact h
  | enter j =>
    simp only [turn]
    split
    · exact h.lockedLoad hc _ _
    · exact h
  | set m v ago => exact h.put (by simpa [Turn.disturbs] using ht) v _
  | clear => simp [Turn.disturbs] at ht
  | lookup m => exact h.lookup m
  | advance d => exact h.advance d
  | mark ago => exact h.move rfl
  | take => exact h.move rfl
  | purge p => exact h.move rfl
  | halt => exact h.move rfl

theorem faithful_run (h : c.shared.Faithful) (ts : List (Turn α)) :
    (c.run ts).shared.Faithful := by
  induction ts generalizing c with
  | nil => exact h
  | cons t ts ih => exact ih (faithful_turn h t)

theorem standing_run {e : Entry α} (hc : c.shared.Faithful) (h : Standing k e c.shared)
    {ts : List (Turn α)} (hts : ∀ t ∈ ts, t.disturbs k = false) :
    Standing k e (c.run ts).shared := by
  induction ts generalizing c with
  | nil => exact h
  | cons t ts ih =>
    refine ih (faithful_turn hc t) (standing_turn hc h (hts t (.head _))) ?_
    intro u hu
    exact hts u (.tail _ hu)

/-- A value that a loader returned is the last one written to its key. -/
theorem standing_of_ran {t : Turn α} {now : Int} {v : α}
    (h : .ran i k now l ∈ (c.turn t).1) (hv : l.outcome = .value v) :
    Standing k ⟨v, Time.deadline (now + l.cost) c.cache.ttl⟩ (c.turn t).2.shared := by
  obtain ⟨rfl, hphase, rfl, hlive⟩ := ran_mem_turn_iff.1 h
  have hshared : (c.turn (.enter i)).2.shared =
      (c.shared.act (.advance l.cost)).act (.set k v) := by
    rw [turn_enter_of_absent hphase hlive]
    show c.shared.act (.lockedLoad k l) = _
    rw [Recorded.act_lockedLoad_of_live_eq_none l hlive, hv]
  intro _
  rw [hshared, Recorded.act_set]
  show lastEntry c.cache.ttl (.wrote k v (c.cache.clock + l.cost) :: c.shared.past) k = _
  rw [Deed.lastEntry_wrote, if_pos rfl]

theorem ttl_turn (c : Crowd α) (t : Turn α) : (c.turn t).2.cache.ttl = c.cache.ttl :=
  turn_induction (P := fun r => r.cache.ttl = c.cache.ttl)
    (fun r m h => (r.ttl_move m).trans h) (fun _ _ _ _ h => h) rfl t

theorem ttl_run (c : Crowd α) (ts : List (Turn α)) : (c.run ts).cache.ttl = c.cache.ttl := by
  induction ts generalizing c with
  | nil => rfl
  | cons t ts ih => exact (ih _).trans (c.ttl_turn t)

/-- In every run each call runs its loader at most once, and only while no live entry for
its key is there at the start of its turn under the lock. A call that returns a value
returns that of a live entry that it found, or put in. The value that a loader returned is
stored until the deadline of the instant at which the loader was done, and no other loader
for the key runs up to then, unless the key was set or everything was cleared in
between. -/
theorem one_load_per_lifetime (ttl : Nat) (begun : Int) (ts : List (Turn α)) :
    (∀ i, ((start ttl begun).history ts).countP (Incident.isRunOf i) ≤ 1) ∧
    ∀ t,
      let c := (start ttl begun).run ts
      let after := (c.turn t).2
      (∀ i k now l, .ran i k now l ∈ (c.turn t).1 →
        now = c.cache.clock ∧ c.cache.live k = none) ∧
      (∀ i k v, .ended i k (.value v) ∈ (c.turn t).1 → ∃ e, e.value = v ∧
        (c.cache.live k = some e ∨
          (∃ now l, .ran i k now l ∈ (c.turn t).1) ∧ after.cache.live k = some e)) ∧
      ∀ i k now l v, .ran i k now l ∈ (c.turn t).1 → l.outcome = .value v →
        let expiry := Time.deadline (now + l.cost) ttl
        after.cache.live k = some ⟨v, expiry⟩ ∧
        ∀ us u j later m, .ran j k later m ∈ ((after.run us).turn u).1 → later ≤ expiry →
          ∃ between ∈ us, between.disturbs k = true := by
  refine ⟨countP_history_le_one _ ts, fun t => ?_⟩
  intro c after
  have hc : c.shared.Faithful := faithful_run (Recorded.faithful_start ttl begun) ts
  have httl : c.cache.ttl = ttl := ttl_run _ ts
  refine ⟨fun i k now l hran => ?_, fun i k v hended => live_of_ended_mem_turn hended, ?_⟩
  · obtain ⟨-, -, hnow, hlive⟩ := ran_mem_turn_iff.1 hran
    exact ⟨hnow, hlive⟩
  · intro i k now l v hran hv expiry
    have hexpiry : expiry = Time.deadline (now + l.cost) c.cache.ttl := by rw [httl]
    rw [hexpiry]
    refine ⟨live_of_ran_mem_turn hran hv, fun us u j later m hlater hle => ?_⟩
    by_contra hquiet
    have hus : ∀ t ∈ us, t.disturbs k = false := by simpa using hquiet
    have hafter : after.shared.Faithful := faithful_turn hc t
    have hstanding := standing_run hafter (standing_of_ran hran hv) hus
    obtain ⟨-, -, rfl, hnone⟩ := ran_mem_turn_iff.1 hlater
    have hlt := hstanding.lt_of_live_eq_none (faithful_run hafter us) hnone
    exact absurd hle (Int.not_le.2 hlt)

/-- Two callers miss the same key. The second one loads again within the lifetime of what
the first one has loaded, since everything was cleared in between. -/
theorem one_load_per_lifetime_cleared :
    let c : Crowd Nat :=
      (start 5 0).run [.look 0 "k" ⟨2, .value 1⟩, .look 1 "k" ⟨0, .value 9⟩]
    let after := (c.turn (.enter 0)).2
    .ran 0 "k" 0 ⟨2, .value 1⟩ ∈ (c.turn (.enter 0)).1 ∧
      after.cache.live "k" = some ⟨1, 7⟩ ∧
      .ran 1 "k" 2 ⟨0, .value 9⟩ ∈ ((after.run [.clear]).turn (.enter 1)).1 ∧
      ∃ between ∈ [Turn.clear], (between : Turn Nat).disturbs "k" = true := by
  have hran : .ran 0 "k" 0 ⟨2, .value 1⟩ ∈ (((start 5 0).run [.look 0 "k" ⟨2, .value 1⟩,
      .look 1 "k" ⟨0, .value 9⟩] : Crowd Nat).turn (.enter 0)).1 := by decide
  have hagain : .ran 1 "k" 2 ⟨0, .value 9⟩ ∈ ((((start 5 0).run [.look 0 "k" ⟨2, .value 1⟩,
      .look 1 "k" ⟨0, .value 9⟩] : Crowd Nat).turn (.enter 0)).2.run [.clear] |>.turn
        (.enter 1)).1 := by decide
  obtain ⟨hlive, hlater⟩ := ((one_load_per_lifetime 5 0 _).2 (.enter 0)).2.2 0 "k" 0 _ 1 hran rfl
  exact ⟨hran, hlive, hagain, hlater _ _ _ _ _ hagain (by decide)⟩

end Crowd

end ExpiringCache
