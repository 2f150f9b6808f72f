import ExpiringCache.Proofs.Past

/-! A cache whose sweeper works at a pace of its own. Between any two acts of the callers
the sweeper may mark what has expired, at an instant that it read a while before, take a
request off its queue, or carry out a purge that was asked for at any time, as often as it
likes; it may be halted, and nothing has to happen at all. A run goes on from every state
that it comes through (`follows_run`). -/

namespace ExpiringCache

universe u

variable {α : Type u}

inductive Move (α : Type u) where
  | act (a : Act α)
  | mark (ago : Nat)
  | take
  | purge (p : Purge)
  | halt
deriving DecidableEq, Repr

/-- The act that a move is, unless the sweeper makes it. -/
def Move.act? : Move α → Option (Act α)
  | .act a => some a
  | _ => none

namespace Cache

/-- The sweeper is stopped, whatever it has left undone. -/
def halt (c : Cache α) : Cache α :=
  { c with
    sweeper := { c.sweeper with running := false }
    journal := c.journal ++ [.sweeperStopped] }

/-- What the callers of a cache are answered while nobody sweeps it. -/
def answers (c : Cache α) : List (Act α) → List (Reply α)
  | [] => []
  | a :: as => (c.act a).1 :: (c.act a).2.answers as

end Cache

namespace Recorded

/-- What a move adds to the record. -/
def deeds (r : Recorded α) : Move α → List (Deed α)
  | .act a => r.cache.deeds a
  | .mark ago =>
    let now := r.cache.clock - ago
    (r.cache.store.mark now).map (.asked · now) ++ [.swept now]
  | _ => []

/-- What a move makes of the cache. Only purges that were asked for are carried out. -/
def effect (r : Recorded α) : Move α → Cache α
  | .act a => (r.cache.act a).2
  | .mark ago =>
    let nextSweep := Time.deadline (r.cache.clock - ago) r.cache.sweeper.interval
    { r.cache with sweeper := { r.cache.sweeper with nextSweep } }
  | .take =>
    let queue := r.cache.sweeper.queue.tail
    { r.cache with sweeper := { r.cache.sweeper with queue } }
  | .purge p =>
    if r.past.any (Deed.asks p) then { r.cache with store := r.cache.store.purge p } else r.cache
  | .halt => r.cache.halt

def move (r : Recorded α) (m : Move α) : Recorded α := ⟨r.effect m, r.deeds m ++ r.past⟩

def run (r : Recorded α) (ms : List (Move α)) : Recorded α := ms.foldl move r

@[simp] theorem run_nil (r : Recorded α) : r.run [] = r := rfl

@[simp] theorem run_cons (r : Recorded α) (m : Move α) (ms : List (Move α)) :
    r.run (m :: ms) = (r.move m).run ms := rfl

theorem run_append (r : Recorded α) (ms ns : List (Move α)) :
    r.run (ms ++ ns) = (r.run ms).run ns := List.foldl_append

/-- What the callers are answered in a run. -/
def answers (r : Recorded α) : List (Move α) → List (Reply α)
  | [] => []
  | .act a :: ms => (r.cache.act a).1 :: (r.move (.act a)).answers ms
  | m :: ms => (r.move m).answers ms

/-- The same history with another store. -/
def withStore (r : Recorded α) (s : Store α) : Recorded α := ⟨{ r.cache with store := s }, r.past⟩

theorem move_purge_of_asked {r : Recorded α} {p : Purge} {now : Int}
    (h : .asked p now ∈ r.past) :
    r.move (.purge p) = r.withStore (r.cache.store.purge p) := by
  rw [move, effect, if_pos (Deed.any_asks_iff.2 ⟨now, h⟩)]
  rfl

/-- A purge that nobody asked for is not carried out. -/
theorem move_purge (r : Recorded α) (p : Purge) :
    (∃ now, .asked p now ∈ r.past ∧
      r.move (.purge p) = r.withStore (r.cache.store.purge p)) ∨ r.move (.purge p) = r := by
  by_cases hp : ∃ now, .asked p now ∈ r.past
  · obtain ⟨now, hp⟩ := hp
    exact .inl ⟨now, hp, move_purge_of_asked hp⟩
  · right
    rw [move, effect, if_neg fun ha => hp (Deed.any_asks_iff.1 ha)]
    rfl

/-- A mark writes nothing. -/
theorem lastEntry_move_mark (r : Recorded α) (ago : Nat) (k : String) :
    Deed.lastEntry (r.move (.mark ago)).cache.ttl (r.move (.mark ago)).past k =
      Deed.lastEntry r.cache.ttl r.past k := by
  simp [move, effect, deeds, Deed.lastEntry, Deed.lastWrite]

/-- The sweeper writes nothing. -/
theorem lastWrite_move_of_sweeper {r : Recorded α} {k : String} {m : Move α} (hm : m.act? = none) :
    Deed.lastWrite (r.move m).past k = Deed.lastWrite r.past k := by
  cases m with
  | act a => cases hm
  | mark ago => simp [move, deeds, Deed.lastWrite]
  | _ => rfl

theorem lastWrite_run_of_sweeper {r : Recorded α} {k : String} {ms : List (Move α)}
    (hms : ∀ m ∈ ms, m.act? = none) :
    Deed.lastWrite (r.run ms).past k = Deed.lastWrite r.past k := by
  induction ms generalizing r with
  | nil => rfl
  | cons m ms ih =>
    rw [run_cons, ih fun n hn => hms n (.tail _ hn), lastWrite_move_of_sweeper (hms m (.head _))]

/-- A purge is asked for by a look at the entry that it is for, after that has expired. -/
theorem seen_of_asked_mem_deeds {r : Recorded α} {m : Move α} {p : Purge} {now : Int}
    (h : .asked p now ∈ r.deeds m) : now ≤ r.cache.clock ∧ p.token < now ∧
      ∃ e, r.cache.store.find? p.key = some e ∧ e.expiresAt = p.token := by
  cases m with
  | act a =>
    obtain ⟨rfl, k, hk⟩ := Cache.request?_of_asked_mem_deeds h
    obtain ⟨-, rfl, e, hfind, hexpired, htoken⟩ := Cache.request?_eq_some_iff.1 hk
    exact ⟨Int.le_refl _, by omega, e, hfind, htoken⟩
  | mark ago =>
    simp only [deeds, List.mem_append, List.mem_map, List.mem_singleton, reduceCtorEq, or_false,
      Deed.asked.injEq] at h
    obtain ⟨q, hq, rfl, rfl⟩ := h
    obtain ⟨e, hfind, hexpired, htoken⟩ := Store.look_eq_expired_iff.1 (Store.mem_mark_iff.1 hq)
    exact ⟨by omega, by omega, e, hfind, htoken⟩
  | take => cases h
  | purge q => cases h
  | halt => cases h

/-- Moves preserve what the acts of the callers and the moves of the sweeper preserve. -/
theorem move_induction {P : Recorded α → Prop} (act : ∀ r a, P r → P (r.act a))
    (mark : ∀ r ago, P r → P (r.move (.mark ago))) (take : ∀ r, P r → P (r.move .take))
    (purge : ∀ r p now, .asked p now ∈ r.past → P r →
      P (r.withStore (r.cache.store.purge p)))
    (halt : ∀ r, P r → P (r.move .halt)) (r : Recorded α) (m : Move α) (h : P r) :
    P (r.move m) := by
  cases m with
  | act a => exact act r a h
  | mark ago => exact mark r ago h
  | take => exact take r h
  | purge p =>
    rcases r.move_purge p with ⟨now, hp, hmove⟩ | hmove
    · rw [hmove]
      exact purge r p now hp h
    · rwa [hmove]
  | halt => exact halt r h

theorem run_induction {P : Recorded α → Prop} (step : ∀ r m, P r → P (r.move m))
    {r : Recorded α} (h : P r) (ms : List (Move α)) : P (r.run ms) := by
  induction ms generalizing r with
  | nil => exact h
  | cons m ms ih => exact ih (step r m h)

/-! ### Later states of a run -/

/-- The state `r` comes after `q`: its record goes on from that of `q`, and what was
written since was written since. -/
def Follows (q r : Recorded α) : Prop :=
  ∃ since, r.past = since ++ q.past ∧ q.cache.clock ≤ r.cache.clock ∧
    r.cache.ttl = q.cache.ttl ∧ ∀ k v now, .wrote k v now ∈ since → q.cache.clock ≤ now

theorem Follows.refl (r : Recorded α) : Follows r r :=
  ⟨[], rfl, Int.le_refl _, rfl, fun _ _ _ h => nomatch h⟩

theorem Follows.clock_le {q r : Recorded α} (h : Follows q r) : q.cache.clock ≤ r.cache.clock := by
  obtain ⟨-, -, hclock, -, -⟩ := h
  exact hclock

theorem Follows.ttl_eq {q r : Recorded α} (h : Follows q r) : r.cache.ttl = q.cache.ttl := by
  obtain ⟨-, -, -, httl, -⟩ := h
  exact httl

/-- What happens next adds to what happened since. -/
theorem Follows.cons {q r s : Recorded α} (h : Follows q r) {ds : List (Deed α)}
    (hpast : s.past = ds ++ r.past) (hclock : r.cache.clock ≤ s.cache.clock)
    (httl : s.cache.ttl = r.cache.ttl)
    (hwrote : ∀ k v now, .wrote k v now ∈ ds → r.cache.clock ≤ now) : Follows q s := by
  obtain ⟨since, hr, hqr, httl', hsince⟩ := h
  refine ⟨ds ++ since, by rw [hpast, hr, List.append_assoc], by omega, httl.trans httl', ?_⟩
  intro k v now hmem
  rcases List.mem_append.1 hmem with hmem | hmem
  · have := hwrote k v now hmem
    omega
  · exact hsince k v now hmem

/-- A step that adds nothing to the record. -/
theorem Follows.quiet {q r s : Recorded α} (h : Follows q r) (hpast : s.past = r.past)
    (hclock : r.cache.clock ≤ s.cache.clock) (httl : s.cache.ttl = r.cache.ttl) :
    Follows q s := by
  refine h.cons (hpast.trans (List.nil_append _).symm) hclock httl ?_
  intro k v now hmem
  cases hmem

theorem Follows.act {q r : Recorded α} (h : Follows q r) (a : Act α) : Follows q (r.act a) := by
  refine act_induction (fun r k v h => ?_) (fun r k h => ?_) (fun r h => ?_) (fun r d h => ?_) r a h
  · refine h.cons rfl (Int.le_refl _) rfl fun j u now hmem => ?_
    cases List.mem_singleton.1 hmem
    exact Int.le_refl _
  · refine h.cons rfl (Int.le_of_eq (Cache.clock_lookup _ k).symm) (Cache.ttl_lookup _ k) ?_
    intro j u now hmem
    simp [Cache.deeds, Cache.lookDeeds] at hmem
  · exact h.cons rfl (Int.le_refl _) rfl fun j u now hmem => by cases List.mem_singleton.1 hmem
  · refine h.quiet rfl ?_ rfl
    simp only [Recorded.act, Cache.act, Cache.advance]
    omega

theorem Follows.move {q r : Recorded α} (h : Follows q r) (m : Move α) :
    Follows q (r.move m) := by
  refine move_induction (fun r a h => h.act a) (fun r ago h => ?_) (fun r h => ?_)
    (fun r p now _ h => ?_) (fun r h => ?_) r m h
  · refine h.cons rfl (Int.le_refl _) rfl fun j u now hmem => ?_
    simp [deeds] at hmem
  · exact h.quiet rfl (Int.le_refl _) rfl
  · exact h.quiet rfl (Int.le_refl _) rfl
  · exact h.quiet rfl (Int.le_refl _) rfl

@[simp] theorem ttl_move (r : Recorded α) (m : Move α) : (r.move m).cache.ttl = r.cache.ttl :=
  ((Follows.refl r).move m).ttl_eq

theorem follows_run (r : Recorded α) (ms : List (Move α)) : Follows r (r.run ms) :=
  run_induction (fun _ m h => h.move m) (.refl r) ms

theorem ttl_run (r : Recorded α) (ms : List (Move α)) : (r.run ms).cache.ttl = r.cache.ttl :=
  (follows_run r ms).ttl_eq

end Recorded

end ExpiringCache
