import ExpiringCache.Proofs.Schedule
import Mathlib.Data.List.Induction
import Mathlib.Data.List.Infix
import Mathlib.Logic.Function.Basic

/-! Writers that wait for the lock. A set takes two turns: its caller settles the expiry of
the value, and later, once nobody holds the lock, the value goes in with that expiry. A
loader holds the lock from the turn in which it starts to the turn in which it is done, and
the clock moves on in between; what it returned counts from the end. So the entry of a load
expires a lifetime after it went in, but that of a set expires a lifetime after it was asked
for (`expiry_counts_from_asking`), and after a long wait it has expired before it goes in. -/

namespace ExpiringCache

universe u

variable {α : Type u}

/-- A set whose caller has settled the expiry and waits for the lock. -/
structure WaitingSet (α : Type u) where
  key : String
  value : α
  expiresAt : Int
deriving DecidableEq, Repr

/-- A cache with the key of the loader that holds the lock, and the sets that wait for it. -/
structure Writers (α : Type u) where
  cache : Cache α
  loading : Option String
  waiting : Nat → Option (WaitingSet α)

/-- What happens in one go. All but the first of a set and the passing of time need the lock,
and nothing comes of them while a loader has it. -/
inductive WriterTurn (α : Type u) where
  | ask (caller : Nat) (key : String) (v : α)
  | put (caller : Nat)
  | enter (key : String)
  | leave (outcome : Outcome α)
  | lookup (key : String)
  | clear
  | purge (p : Purge)
  | advance (d : Nat)
deriving DecidableEq, Repr

namespace Writers

def start (ttl : Nat) (now : Int) : Writers α := ⟨.start ttl now, none, fun _ => none⟩

/-- What a turn does to the cache while nobody holds the lock. -/
def free (c : Cache α) : WriterTurn α → Cache α
  | .lookup k => (c.lookup k).2
  | .clear => c.clear
  | .purge p => { c with store := c.store.purge p }
  | _ => c

def turn (w : Writers α) : WriterTurn α → Writers α
  | .ask i k v =>
    match w.waiting i with
    | none => { w with waiting := Function.update w.waiting i (some ⟨k, v, w.cache.expiry⟩) }
    | some _ => w
  | .advance d => { w with cache := w.cache.advance d }
  | .leave o =>
    match w.loading with
    | some k => { w with cache := w.cache.keep k o, loading := none }
    | none => w
  | .put i =>
    match w.loading, w.waiting i with
    | none, some s =>
      { w with
        cache := w.cache.write s.key s.value s.expiresAt
        waiting := Function.update w.waiting i none }
    | _, _ => w
  | .enter k =>
    match w.loading, w.cache.live k with
    | none, none => { w with loading := some k }
    | _, _ => w
  | t =>
    match w.loading with
    | none => { w with cache := free w.cache t }
    | some _ => w

def run (w : Writers α) (ts : List (WriterTurn α)) : Writers α := ts.foldl turn w

/-- The entry that a turn puts in. -/
def inserted? (w : Writers α) : WriterTurn α → Option (String × Entry α)
  | .put i =>
    match w.loading, w.waiting i with
    | none, some s => some (s.key, ⟨s.value, s.expiresAt⟩)
    | _, _ => none
  | .leave (.value v) => w.loading.map fun k => (k, ⟨v, w.cache.expiry⟩)
  | _ => none

@[simp] theorem run_nil (w : Writers α) : w.run [] = w := rfl

@[simp] theorem run_cons (w : Writers α) (t : WriterTurn α) (ts : List (WriterTurn α)) :
    w.run (t :: ts) = (w.turn t).run ts := rfl

theorem run_append (w : Writers α) (ts us : List (WriterTurn α)) :
    w.run (ts ++ us) = (w.run ts).run us := List.foldl_append

theorem run_concat (w : Writers α) (ts : List (WriterTurn α)) (t : WriterTurn α) :
    w.run (ts ++ [t]) = (w.run ts).turn t := run_append w ts [t]

/-! ### What a turn does -/

variable {w : Writers α} {i : Nat} {k : String}

theorem turn_ask_of_free (h : w.waiting i = none) (k : String) (v : α) : w.turn (.ask i k v) =
    { w with waiting := Function.update w.waiting i (some ⟨k, v, w.cache.expiry⟩) } := by
  simp only [turn, h]

theorem turn_put_of_free (hfree : w.loading = none) {s : WaitingSet α}
    (hs : w.waiting i = some s) : w.turn (.put i) =
      { w with
        cache := w.cache.write s.key s.value s.expiresAt
        waiting := Function.update w.waiting i none } := by
  simp only [turn, hfree, hs]

theorem turn_enter_of_absent (hfree : w.loading = none) (hnone : w.cache.live k = none) :
    w.turn (.enter k) = { w with loading := some k } := by
  simp only [turn, hfree, hnone]

theorem turn_leave_of_loading (h : w.loading = some k) (o : Outcome α) :
    w.turn (.leave o) = { w with cache := w.cache.keep k o, loading := none } := by
  simp only [turn, h]

/-- A set that nothing comes between is the set of a cache. -/
theorem run_ask_put (hfree : w.loading = none) (hi : w.waiting i = none) (k : String) (v : α) :
    (w.run [.ask i k v, .put i]).cache = w.cache.set k v := by
  rw [run_cons, run_cons, run_nil, turn_ask_of_free hi,
    turn_put_of_free (by exact hfree) (Function.update_self i _ _)]
  rfl

/-- A loader during which nobody else does anything is the load of a cache. -/
theorem run_enter_leave (hfree : w.loading = none) (l : Loader α)
    (hnone : w.cache.live k = none) :
    (w.run [.enter k, .advance l.cost, .leave l.outcome]).cache = (w.cache.lockedLoad k l).2 := by
  rw [run_cons, run_cons, run_cons, run_nil, turn_enter_of_absent hfree hnone,
    turn_leave_of_loading (by rfl), Cache.lockedLoad_of_live_eq_none l hnone]
  rfl

/-- A load during which another thread makes a set, when the loader has taken its time, is one
of these runs. -/
theorem run_load_during_set (hfree : w.loading = none) (hi : w.waiting i = none)
    (l : Loader α) (hnone : w.cache.live k = none) (j : String) (v : α) :
    (w.run [.lookup k, .enter k, .advance l.cost, .ask i j v, .leave l.outcome, .put i]).cache =
      (w.cache.loadDuring k l (some (.set j v))).2 := by
  have hlookup : w.turn (.lookup k) = { w with cache := (w.cache.lookup k).2 } := by
    simp only [turn, hfree, free]
  have hstill : (w.cache.lookup k).2.live k = none := (w.cache.live_lookup k k).trans hnone
  have hran : (w.cache.load k l).1.ran = true := Cache.load_ran_iff_live.2 hnone
  -- keeping what was loaded moves neither the clock nor the lifetime
  have hexpiry : (((w.cache.lookup k).2.advance l.cost).keep k l.outcome).expiry =
      ((w.cache.lookup k).2.advance l.cost).expiry := by
    rw [Cache.expiry, Cache.clock_keep, Cache.ttl_keep, Cache.expiry]
  have hload : (w.cache.loadDuring k l (some (.set j v))).2 =
      (((w.cache.lookup k).2.advance l.cost).keep k l.outcome).write j v
        ((w.cache.lookup k).2.advance l.cost).expiry := by
    simp only [Cache.loadDuring, hran, if_true]
    rw [← hexpiry, Cache.load_of_live_eq_none l hnone]
    rfl
  rw [hload, run_cons, run_cons, run_cons, hlookup, turn_enter_of_absent (by exact hfree) hstill,
    run_cons, turn_ask_of_free (by exact hi), run_cons, turn_leave_of_loading (by rfl),
    run_cons, run_nil, turn_put_of_free (by rfl) (Function.update_self i _ _)]
  rfl

/-! ### What goes in -/

theorem inserted?_eq_some_iff {t : WriterTurn α} {e : Entry α} :
    w.inserted? t = some (k, e) ↔
      (∃ i s, t = .put i ∧ w.loading = none ∧ w.waiting i = some s ∧ s.key = k ∧
        e = ⟨s.value, s.expiresAt⟩) ∨
      ∃ v, t = .leave (.value v) ∧ w.loading = some k ∧ e = ⟨v, w.cache.expiry⟩ := by
  constructor
  · intro h
    unfold inserted? at h
    split at h
    · rename_i i
      split at h
      · rename_i s hfree hs
        cases h
        exact .inl ⟨i, s, rfl, hfree, hs, rfl, rfl⟩
      · cases h
    · rename_i v
      obtain ⟨j, hloading, hentry⟩ := Option.map_eq_some_iff.1 h
      cases hentry
      exact .inr ⟨v, rfl, hloading, rfl⟩
    · cases h
  · rintro (⟨i, s, rfl, hfree, hs, rfl, rfl⟩ | ⟨v, rfl, hloading, rfl⟩)
    · simp only [inserted?, hfree, hs]
    · simp only [inserted?, hloading, Option.map_some]

/-- A turn that puts an entry in does nothing else to the cache. -/
theorem cache_turn_of_inserted {t : WriterTurn α} {e : Entry α}
    (h : w.inserted? t = some (k, e)) :
    (w.turn t).cache = w.cache.write k e.value e.expiresAt := by
  rcases inserted?_eq_some_iff.1 h with ⟨i, s, rfl, hfree, hs, rfl, rfl⟩ | ⟨v, rfl, hloading, rfl⟩
  · rw [turn_put_of_free hfree hs]
  · rw [turn_leave_of_loading hloading]
    rfl

/-- What a turn makes of the cache. -/
theorem cache_turn (w : Writers α) (t : WriterTurn α) :
    (∃ k e, w.inserted? t = some (k, e) ∧
      (w.turn t).cache = w.cache.write k e.value e.expiresAt) ∨
    (∃ d, t = .advance d ∧ (w.turn t).cache = w.cache.advance d) ∨
    (w.turn t).cache = free w.cache t ∨ (w.turn t).cache = w.cache := by
  cases hinserted : w.inserted? t with
  | some b => exact .inl ⟨b.1, b.2, rfl, cache_turn_of_inserted hinserted⟩
  | none =>
    right
    cases t with
    | ask i k v =>
      simp only [turn]
      split <;> exact .inr (.inr rfl)
    | put i =>
      simp only [turn]
      split
      · rename_i s hfree hs
        simp only [inserted?, hfree, hs, reduceCtorEq] at hinserted
      · exact .inr (.inr rfl)
    | enter k =>
      simp only [turn]
      split <;> exact .inr (.inr rfl)
    | leave o =>
      simp only [turn]
      split
      · rename_i k hloading
        cases o with
        | value v => simp only [inserted?, hloading, Option.map_some, reduceCtorEq] at hinserted
        | failure reason => exact .inr (.inr rfl)
        | panic reason => exact .inr (.inr rfl)
      · exact .inr (.inr rfl)
    | advance d => exact .inl ⟨d, rfl, rfl⟩
    | _ =>
      simp only [turn]
      split
      · exact .inr (.inl rfl)
      · exact .inr (.inr rfl)

theorem clock_free (c : Cache α) (t : WriterTurn α) : (free c t).clock = c.clock := by
  cases t with
  | lookup k => exact c.clock_lookup k
  | _ => rfl

theorem ttl_free (c : Cache α) (t : WriterTurn α) : (free c t).ttl = c.ttl := by
  cases t with
  | lookup k => exact c.ttl_lookup k
  | _ => rfl

theorem find?_of_find?_free {c : Cache α} {t : WriterTurn α} {e : Entry α}
    (h : (free c t).store.find? k = some e) : c.store.find? k = some e := by
  cases t with
  | lookup j => rwa [free, Cache.store_lookup] at h
  | clear => cases h
  | purge p =>
    rw [free, Store.find?_purge, Option.filter_eq_some_iff] at h
    exact h.1
  | _ => exact h

theorem clock_le_turn (w : Writers α) (t : WriterTurn α) :
    w.cache.clock ≤ (w.turn t).cache.clock := by
  rcases w.cache_turn t with ⟨k, e, -, h⟩ | ⟨d, -, h⟩ | h | h
  · exact Int.le_of_eq (congrArg Cache.clock h).symm
  · rw [h]
    show w.cache.clock ≤ w.cache.clock + d
    omega
  · exact Int.le_of_eq ((congrArg Cache.clock h).trans (clock_free _ t)).symm
  · exact Int.le_of_eq (congrArg Cache.clock h).symm

@[simp] theorem ttl_turn (w : Writers α) (t : WriterTurn α) :
    (w.turn t).cache.ttl = w.cache.ttl := by
  rcases w.cache_turn t with ⟨k, e, -, h⟩ | ⟨d, -, h⟩ | h | h
  · rw [h, Cache.write]
  · rw [h, Cache.advance]
  · rw [h, ttl_free]
  · rw [h]

/-- What is found after a turn was found before, or the turn put it in. -/
theorem find?_turn {t : WriterTurn α} {e : Entry α}
    (he : (w.turn t).cache.store.find? k = some e) :
    w.cache.store.find? k = some e ∨ w.inserted? t = some (k, e) := by
  rcases w.cache_turn t with ⟨j, f, hinserted, h⟩ | ⟨d, -, h⟩ | h | h
  · rw [h, Cache.write, Store.find?_insert] at he
    split at he
    · rename_i hk
      cases he
      exact .inr (hk ▸ hinserted)
    · exact .inl he
  · rw [h] at he
    exact .inl he
  · rw [h] at he
    exact .inl (find?_of_find?_free he)
  · rw [h] at he
    exact .inl he

/-! ### How long a set has waited -/

/-- A set that waits after a turn has waited before, or was asked for just now. -/
theorem waiting_turn {t : WriterTurn α} {s : WaitingSet α} (h : (w.turn t).waiting i = some s) :
    w.waiting i = some s ∨
      t = .ask i s.key s.value ∧ w.waiting i = none ∧ s.expiresAt = w.cache.expiry := by
  cases t with
  | ask j k v =>
    simp only [turn] at h
    split at h
    · rename_i hnone
      simp only [Function.update_apply] at h
      split at h
      · rename_i hi
        subst hi
        cases h
        exact .inr ⟨rfl, hnone, rfl⟩
      · exact .inl h
    · exact .inl h
  | put j =>
    simp only [turn] at h
    split at h
    · simp only [Function.update_apply] at h
      split at h
      · cases h
      · exact .inl h
    · exact .inl h
  | advance d => exact .inl h
  | _ =>
    simp only [turn] at h
    split at h <;> exact .inl h

/-- In a run from `q`, the caller `i` asked for the set `s` at the instant `asked`, and it has
waited ever since. -/
def AskedAt (q : Writers α) (ts : List (WriterTurn α)) (i : Nat) (s : WaitingSet α)
    (asked : Int) : Prop :=
  ∃ before since, ts = before ++ .ask i s.key s.value :: since ∧
    (q.run before).cache.clock = asked ∧ (q.run before).waiting i = none ∧
    ∀ mid, mid <+: since → (q.run (before ++ .ask i s.key s.value :: mid)).waiting i = some s

theorem ttl_run (w : Writers α) (ts : List (WriterTurn α)) :
    (w.run ts).cache.ttl = w.cache.ttl := by
  induction ts generalizing w with
  | nil => rfl
  | cons t ts ih => rw [run_cons, ih, ttl_turn]

/-- A set that waits counts from the instant at which its caller asked for it. -/
theorem askedAt_of_waiting {q : Writers α} (hq : q.waiting = fun _ => none)
    {ts : List (WriterTurn α)} {s : WaitingSet α} (h : (q.run ts).waiting i = some s) :
    ∃ asked, AskedAt q ts i s asked ∧ asked ≤ (q.run ts).cache.clock ∧
      s.expiresAt = Time.deadline asked q.cache.ttl := by
  induction ts using List.reverseRecOn with
  | nil =>
    rw [run_nil, hq] at h
    cases h
  | append_singleton ts t ih =>
    -- the last turn is the asking itself, or the set was waiting before it and still is
    have hwaits := h
    rw [run_concat] at h
    rcases waiting_turn h with hbefore | ⟨rfl, hnone, hexpiry⟩
    · obtain ⟨asked, ⟨before, since, rfl, hasked, hnone, hsince⟩, hle, hexpiry⟩ := ih hbefore
      refine ⟨asked, ⟨before, since ++ [t], by simp, hasked, hnone, fun mid hmid => ?_⟩, ?_,
        hexpiry⟩
      · rcases List.prefix_concat_iff.1 hmid with rfl | hmid
        · simpa using hwaits
        · exact hsince mid hmid
      · rw [run_concat]
        exact Int.le_trans hle (clock_le_turn _ t)
    · refine ⟨(q.run ts).cache.clock, ⟨ts, [], rfl, rfl, hnone, fun mid hmid => ?_⟩, ?_, ?_⟩
      · rw [List.prefix_nil.1 hmid]
        exact hwaits
      · rw [run_concat]
        exact clock_le_turn _ _
      · rw [hexpiry, Cache.expiry, ttl_run]

/-- At every moment of every run, what is found in the cache after a turn was found there
before or is what the turn put in. An entry that a turn puts in expires a lifetime after some
instant that is not after the clock. That is the clock itself, if the entry comes from a load.
If it comes from a set, it is the clock at which the caller asked, however long the set has
waited since. A lookup at the clock at which the entry went in finds it exactly if the
lifetime is not over by then. -/
theorem expiry_counts_from_asking (ttl : Nat) (begun : Int) (ts : List (WriterTurn α))
    (t : WriterTurn α) :
    let w : Writers α := (start ttl begun).run ts
    let after := w.turn t
    (∀ k e, after.cache.store.find? k = some e →
      w.cache.store.find? k = some e ∨ w.inserted? t = some (k, e)) ∧
    ∀ k e, w.inserted? t = some (k, e) →
      after.cache.store.find? k = some e ∧ after.cache.clock = w.cache.clock ∧
      ∃ asked ≤ w.cache.clock, e.expiresAt = Time.deadline asked ttl ∧
        (after.cache.lookup k).1 =
          (if w.cache.clock ≤ Time.deadline asked ttl then some e.value else none) ∧
        (asked = w.cache.clock ∧ t = .leave (.value e.value) ∨
          ∃ i, t = .put i ∧ AskedAt (start ttl begun) ts i ⟨k, e.value, e.expiresAt⟩ asked) := by
  intro w after
  refine ⟨fun k e => find?_turn, fun k e hinserted => ?_⟩
  have hcache : after.cache = w.cache.write k e.value e.expiresAt :=
    cache_turn_of_inserted hinserted
  have hclock : after.cache.clock = w.cache.clock := by rw [hcache, Cache.write]
  have hfound : after.cache.store.find? k = some e := by
    rw [hcache, Cache.write, Store.find?_insert, if_pos rfl]
  have hlookup : (after.cache.lookup k).1 =
      if w.cache.clock ≤ e.expiresAt then some e.value else none := by
    rw [Cache.lookup_fst_of_find? hfound, hclock]
  refine ⟨hfound, hclock, ?_⟩
  rcases inserted?_eq_some_iff.1 hinserted with
    ⟨i, s, rfl, -, hs, rfl, rfl⟩ | ⟨v, rfl, -, rfl⟩
  · obtain ⟨asked, hasked, hle, hexpiry⟩ := askedAt_of_waiting rfl hs
    have hexpiry : s.expiresAt = Time.deadline asked ttl := hexpiry
    exact ⟨asked, hle, hexpiry, hexpiry ▸ hlookup, .inr ⟨i, rfl, hasked⟩⟩
  · have hexpiry : w.cache.expiry = Time.deadline w.cache.clock ttl := by
      rw [Cache.expiry, ttl_run]
      rfl
    exact ⟨w.cache.clock, Int.le_refl _, hexpiry, hexpiry ▸ hlookup, .inl ⟨rfl, rfl⟩⟩

/-- A set has waited for a loader that took longer than the lifetime. The value that was
loaded is live, and what replaces it has expired. -/
example :
    let w : Writers Nat :=
      (start 1 0).run [.enter "k", .ask 0 "k" 2, .advance 3, .leave (.value 1)]
    w.cache.live "k" = some ⟨1, 4⟩ ∧ w.inserted? (.put 0) = some ("k", ⟨2, 1⟩) ∧
      ((w.turn (.put 0)).cache.lookup "k").1 = none := by
  decide

end Writers

end ExpiringCache
