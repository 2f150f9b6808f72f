import ExpiringCache.Proofs.Schedule
import Mathlib.Data.Finset.Card
import Mathlib.Data.Finset.Dedup

/-! What is in the store while the sweeper runs. After every step, the sweeper settled, the
store holds the entry of the last write to each key, provided that it had not expired at
the last sweep and that no look has met it expired since it was written
(`store_after_steps`). The sweeper sweeps as soon as an interval has passed since the last
sweep, so an entry stays for less than an interval after it has expired, and the size is
bounded by what was written lately. -/

namespace ExpiringCache

universe u

variable {α : Type u}

namespace Store

/-- The keys that have an entry. -/
def keys (s : Store α) : Finset String := (s.bindings.map (·.1)).toFinset

theorem mem_keys {s : Store α} {k : String} : k ∈ s.keys ↔ ∃ e, s.find? k = some e := by
  simp [keys, find?_eq_some_iff]

theorem nodup_keys (s : Store α) : (s.bindings.map (·.1)).Nodup := by
  rw [List.Nodup, List.pairwise_map]
  exact s.ordered.imp String.ne_of_lt

theorem card_keys (s : Store α) : s.keys.card = s.size := by
  rw [keys, List.toFinset_card_of_nodup s.nodup_keys, List.length_map, size]

theorem size_le_of_find? {s t : Store α}
    (h : ∀ k, (s.find? k).isSome = true → (t.find? k).isSome = true) : s.size ≤ t.size := by
  rw [← card_keys, ← card_keys]
  refine Finset.card_le_card fun k hk => ?_
  rw [mem_keys, ← Option.isSome_iff_exists] at hk ⊢
  exact h k hk

/-- No key is marked twice. -/
theorem nodup_mark (s : Store α) (now : Int) : (s.mark now).Nodup := by
  have hkeys : (s.mark now).map (·.key) = (s.bindings.filter (·.2.isExpired now)).map (·.1) := by
    rw [mark, List.map_map]
    rfl
  refine List.Nodup.of_map (·.key) ?_
  rw [hkeys]
  exact s.nodup_keys.sublist (List.filter_sublist.map _)

/-- The bindings of `s` whose keys have no entry in `t`. -/
def missingFrom (s t : Store α) : List (String × Entry α) :=
  s.bindings.filter fun b => (t.find? b.1).isNone

/-- What was removed is what is missing from the rest. -/
theorem perm_missingFrom {s t : Store α} {removed : List (String × Entry α)}
    (h : (removed ++ t.bindings).Perm s.bindings) : removed.Perm (s.missingFrom t) := by
  have hkeys : ((removed ++ t.bindings).map (·.1)).Nodup := (h.map _).nodup_iff.2 s.nodup_keys
  rw [List.map_append, List.nodup_append] at hkeys
  have hremoved : removed.filter (fun b => (t.find? b.1).isNone) = removed := by
    apply List.filter_eq_self.2
    intro b hb
    rw [Option.isNone_iff_eq_none, find?_eq_none_iff]
    intro e he
    exact hkeys.2.2 _ (List.mem_map_of_mem hb) _ (List.mem_map_of_mem he) rfl
  have hleft : t.bindings.filter (fun b => (t.find? b.1).isNone) = [] := by
    apply List.filter_eq_nil_iff.2
    intro b hb
    rw [find?_eq_some_iff.2 hb]
    simp
  have hfilter := h.filter fun b => (t.find? b.1).isNone
  rwa [List.filter_append, hremoved, hleft, List.append_nil] at hfilter

theorem isEmpty_iff (s : Store α) : s.isEmpty = true ↔ s.size = 0 := by
  rw [isEmpty, List.isEmpty_iff, size, List.length_eq_zero_iff]

end Store

namespace Deed

/-- A look without the lock has met the entry `e` of `k` expired since it was written. -/
def Met (past : List (Deed α)) (k : String) (e : Entry α) : Prop :=
  ∃ now ∈ looksSince past k, e.expiresAt < now

/-- The last write to `k` made the entry `e`, which had not expired at the last sweep and
was not met expired by a look since it was written. -/
def Keeps (ttl : Nat) (begun : Int) (past : List (Deed α)) (k : String) (e : Entry α) : Prop :=
  lastEntry ttl past k = some e ∧ lastSweep begun past ≤ e.expiresAt ∧
    ∀ now ∈ looksSince past k, now ≤ e.expiresAt

/-- The keys that were written after the instant `t`. -/
def keysWrittenAfter (t : Int) (past : List (Deed α)) : Finset String :=
  (past.filterMap fun
    | .wrote k _ now => if t < now then some k else none
    | _ => none).toFinset

theorem mem_keysWrittenAfter {t : Int} {past : List (Deed α)} {k : String} {v : α}
    {now : Int} (h : .wrote k v now ∈ past) (ht : t < now) : k ∈ keysWrittenAfter t past := by
  rw [keysWrittenAfter, List.mem_toFinset, List.mem_filterMap]
  exact ⟨_, h, by simp [ht]⟩

end Deed

namespace Cache

theorem sweeper_settle {c : Cache α} (h : c.sweeper.running = true) :
    c.settle.sweeper =
      { c.sweeper with
        nextSweep := if c.sweeper.nextSweep ≤ c.clock then
          Time.deadline c.clock c.sweeper.interval else c.sweeper.nextSweep
        queue := [] } := Sweeper.fst_settle h c.store c.clock

theorem find?_settle {c : Cache α} (h : c.sweeper.running = true) {k : String} {e : Entry α} :
    c.settle.store.find? k = some e ↔
      c.store.find? k = some e ∧ ⟨k, e.expiresAt⟩ ∉ c.sweeper.queue ∧
        (c.sweeper.nextSweep ≤ c.clock → c.clock ≤ e.expiresAt) := by
  show (c.sweeper.settle c.store c.clock).2.find? k = some e ↔ _
  rw [Sweeper.find?_settle h, Option.filter_eq_some_iff, decide_eq_true_iff]

end Cache

namespace Recorded

open Deed (lastEntry lastSweep looksSince Met Keeps)

/-! The sweeper's turn is neither a write nor a look. -/

section Settle

variable (r : Recorded α) (k : String)

theorem lastEntry_settleDeeds_append (ttl : Nat) :
    lastEntry ttl (r.settleDeeds ++ r.past) k = lastEntry ttl r.past k := by
  rw [settleDeeds]
  split
  · simp [deeds, lastEntry, Deed.lastWrite]
  · rfl

theorem met_settleDeeds_append (e : Entry α) :
    Met (r.settleDeeds ++ r.past) k e ↔ Met r.past k e := by
  rw [settleDeeds]
  split
  · simp [deeds, Met, looksSince]
  · rfl

end Settle

/-- The sweeper runs on schedule, and the store holds the entries of last writes that had
not expired at the last sweep, those aside that were met expired and whose purge is not in
the queue anymore. What the queue holds for a last write was asked for when its entry was
met expired. -/
structure Exact (begun : Int) (r : Recorded α) : Prop where
  faithful : r.Faithful
  running : r.cache.sweeper.running = true
  interval : r.cache.sweeper.interval = Sweeper.intervalFor r.cache.ttl
  nextSweep : r.cache.sweeper.nextSweep =
    Time.deadline (lastSweep begun r.past) r.cache.sweeper.interval
  swept : lastSweep begun r.past ≤ r.cache.clock
  found : ∀ k e, r.cache.store.find? k = some e ↔ lastEntry r.cache.ttl r.past k = some e ∧
    lastSweep begun r.past ≤ e.expiresAt ∧
    (Met r.past k e → ⟨k, e.expiresAt⟩ ∈ r.cache.sweeper.queue)
  met : ∀ k e, lastEntry r.cache.ttl r.past k = some e →
    ⟨k, e.expiresAt⟩ ∈ r.cache.sweeper.queue → Met r.past k e

namespace Exact

variable {begun : Int} {r : Recorded α}

theorem token_lt (h : r.Exact begun) {p : Purge} (hp : p ∈ r.cache.sweeper.queue) :
    p.token < r.cache.clock := by
  obtain ⟨now, hasked⟩ := h.faithful.queued p hp
  obtain ⟨hpassed, hnow⟩ := h.faithful.asked p now hasked
  omega

theorem set (h : r.Exact begun) (k : String) (v : α) : (r.act (.set k v)).Exact begun := by
  have hlast (j : String) : lastEntry r.cache.ttl (r.act (.set k v)).past j =
      if j = k then some ⟨v, r.cache.expiry⟩ else lastEntry r.cache.ttl r.past j :=
    Deed.lastEntry_wrote _ _ k j v _
  have hlooks (j : String) : looksSince (r.act (.set k v)).past j =
      if j = k then [] else looksSince r.past j := rfl
  have hlate : r.cache.clock ≤ r.cache.expiry := Time.le_deadline _ _
  have hswept := h.swept
  refine ⟨h.faithful.act _, h.running, h.interval, h.nextSweep, h.swept, fun j e => ?_,
    fun j e he hq => ?_⟩
  · show (r.cache.set k v).store.find? j = some e ↔
      lastEntry r.cache.ttl (r.act (.set k v)).past j = some e ∧ _
    rw [Cache.find?_set, hlast, Met, hlooks]
    split
    · simp only [List.not_mem_nil, false_and, exists_false, false_implies, and_true,
        Option.some.injEq]
      refine ⟨?_, fun he => he.1⟩
      rintro rfl
      exact ⟨rfl, Int.le_trans hswept hlate⟩
    · exact h.found j e
  · change lastEntry r.cache.ttl (r.act (.set k v)).past j = some e at he
    rw [hlast] at he
    rw [Met, hlooks]
    split at he
    · -- the new entry expires after every token that is in the queue
      have := h.token_lt hq
      cases he
      simp only at this
      omega
    · rename_i hj
      rw [if_neg hj]
      exact h.met j e he hq

theorem clear (h : r.Exact begun) : (r.act .clear).Exact begun := by
  refine ⟨h.faithful.act _, h.running, h.interval, h.nextSweep, h.swept, fun j e => ?_,
    fun j e he => ?_⟩
  · constructor
    · intro he
      cases he
    · rintro ⟨he, -⟩
      cases he
  · cases he

theorem advance (h : r.Exact begun) (d : Nat) : (r.act (.advance d)).Exact begun := by
  refine ⟨h.faithful.act _, h.running, h.interval, h.nextSweep, ?_, h.found, h.met⟩
  have := h.swept
  show lastSweep begun r.past ≤ r.cache.clock + d
  omega

theorem lookup (h : r.Exact begun) (k : String) : (r.act (.lookup k)).Exact begun := by
  have hsweeper := r.cache.sweeper_lookup k
  have hlast (j : String) := r.lastEntry_act_lookup k j
  have hswept := r.lastSweep_act_lookup k begun
  have hmet (j : String) (e : Entry α) : Met (r.act (.lookup k)).past j e ↔
      j = k ∧ e.expiresAt < r.cache.clock ∨ Met r.past j e := by
    rw [Met, looksSince_act_lookup]
    by_cases hj : j = k <;> simp [hj, Met]
  have hqueue (p : Purge) : p ∈ (r.act (.lookup k)).cache.sweeper.queue ↔
      p ∈ r.cache.sweeper.queue ∨ r.cache.request? k = some p := Cache.mem_queue_lookup_iff
  refine ⟨h.faithful.act _, ?_, ?_, ?_, ?_, fun j e => ?_, fun j e he hq => ?_⟩
  · show (r.cache.lookup k).2.sweeper.running = true
    rw [hsweeper]
    exact h.running
  · show (r.cache.lookup k).2.sweeper.interval = Sweeper.intervalFor (r.cache.lookup k).2.ttl
    rw [hsweeper, Cache.ttl_lookup]
    exact h.interval
  · show (r.cache.lookup k).2.sweeper.nextSweep =
      Time.deadline (lastSweep begun (r.act (.lookup k)).past) (r.cache.lookup k).2.sweeper.interval
    rw [hsweeper, hswept]
    exact h.nextSweep
  · show _ ≤ (r.cache.lookup k).2.clock
    rw [hswept, Cache.clock_lookup]
    exact h.swept
  · show (r.cache.lookup k).2.store.find? j = some e ↔ _
    rw [Cache.store_lookup, hlast, hswept, hmet, hqueue]
    constructor
    · intro he
      obtain ⟨hentry, hle, hq⟩ := (h.found j e).1 he
      refine ⟨hentry, hle, ?_⟩
      rintro (⟨rfl, hexpired⟩ | hm)
      · exact .inr (Cache.request?_eq_some_iff.2 ⟨h.running, rfl, e, he, hexpired, rfl⟩)
      · exact .inl (hq hm)
    · rintro ⟨hentry, hle, hq⟩
      rw [h.found]
      refine ⟨hentry, hle, fun hm => ?_⟩
      rcases hq (.inr hm) with hq | hrequest
      · exact hq
      · -- what the purge was asked for is in the store, and it is `e`
        obtain ⟨-, rfl, f, hf, -, -⟩ := Cache.request?_eq_some_iff.1 hrequest
        obtain ⟨hlastf, -, hqf⟩ := (h.found j f).1 hf
        obtain rfl : f = e := Option.some.inj (hlastf.symm.trans hentry)
        exact hqf hm
  · rw [hlast] at he
    rw [hqueue] at hq
    rw [hmet]
    rcases hq with hq | hrequest
    · exact .inr (h.met j e he hq)
    · obtain ⟨-, hj, f, -, hexpired, htoken⟩ := Cache.request?_eq_some_iff.1 hrequest
      simp only at hj htoken
      exact .inl ⟨hj, by omega⟩

theorem act (h : r.Exact begun) (a : Act α) : (r.act a).Exact begun :=
  act_induction (fun _ k v h => h.set k v) (fun _ k h => h.lookup k) (fun _ h => h.clear)
    (fun _ d h => h.advance d) r a h

theorem acts (h : r.Exact begun) (as : List (Act α)) : (r.run (as.map .act)).Exact begun := by
  induction as generalizing r with
  | nil => exact h
  | cons a as ih => exact ih (h.act a)

/-- A sweep that is due is the last one. -/
theorem lastSweep_settle (h : r.Exact begun) :
    lastSweep begun (r.settleDeeds ++ r.past) =
      if r.cache.sweeper.nextSweep ≤ r.cache.clock then r.cache.clock
      else lastSweep begun r.past := by
  rw [settleDeeds]
  by_cases hdue : r.cache.sweeper.nextSweep ≤ r.cache.clock
  · simp [h.running, hdue, deeds, lastSweep]
  · simp [hdue]

end Exact

/-- The sweeper has had its turn: its queue is empty, and it swept at the clock or the next
sweep is still to come. -/
structure Settled (begun : Int) (r : Recorded α) : Prop where
  exact : r.Exact begun
  queue : r.cache.sweeper.queue = []
  fresh : lastSweep begun r.past = r.cache.clock ∨
    r.cache.clock < Time.deadline (lastSweep begun r.past) r.cache.sweeper.interval

theorem Exact.settle {begun : Int} {r : Recorded α} (h : r.Exact begun) :
    (r.run r.cache.settleMoves).Settled begun := by
  have hfaithful : (r.run r.cache.settleMoves).Faithful := h.faithful.run _
  rw [run_settleMoves h.faithful] at hfaithful ⊢
  have hsweeper := Cache.sweeper_settle h.running
  have hswept := h.lastSweep_settle
  have hqueue : r.cache.settle.sweeper.queue = [] := by rw [hsweeper]
  refine ⟨⟨hfaithful, ?_, ?_, ?_, ?_, fun k e => ?_, fun k e _ hq => ?_⟩, hqueue, ?_⟩
  · rw [hsweeper]
    exact h.running
  · rw [hsweeper]
    exact h.interval
  · show r.cache.settle.sweeper.nextSweep = Time.deadline _ r.cache.settle.sweeper.interval
    rw [hsweeper, hswept]
    split
    · rfl
    · exact h.nextSweep
  · show _ ≤ r.cache.clock
    rw [hswept]
    have := h.swept
    split <;> omega
  · show r.cache.settle.store.find? k = some e ↔
      lastEntry r.cache.ttl (r.settleDeeds ++ r.past) k = some e ∧ _
    rw [Cache.find?_settle h.running, lastEntry_settleDeeds_append, met_settleDeeds_append,
      hswept, hqueue, h.found]
    constructor
    · rintro ⟨⟨hentry, hle, hq⟩, hnot, hdue⟩
      refine ⟨hentry, ?_, fun hm => absurd (hq hm) hnot⟩
      split
      · exact hdue ‹_›
      · exact hle
    · rintro ⟨hentry, hle, hunmet⟩
      have hnot : ⟨k, e.expiresAt⟩ ∉ r.cache.sweeper.queue := by
        intro hq
        cases hunmet (h.met k e hentry hq)
      have := h.swept
      refine ⟨⟨hentry, ?_, fun hm => absurd (hunmet hm) List.not_mem_nil⟩, hnot, fun hdue => ?_⟩
      · split at hle <;> omega
      · rwa [if_pos hdue] at hle
  · change _ ∈ r.cache.settle.sweeper.queue at hq
    rw [hqueue] at hq
    cases hq
  · show lastSweep begun (r.settleDeeds ++ r.past) = r.cache.clock ∨ r.cache.clock <
      Time.deadline (lastSweep begun (r.settleDeeds ++ r.past)) r.cache.settle.sweeper.interval
    rw [hswept, hsweeper]
    split
    · exact .inl rfl
    · right
      rw [← h.nextSweep]
      omega

theorem Settled.start (ttl : Nat) (begun : Int) :
    (start ttl begun : Recorded α).Settled begun where
  exact :=
    { faithful := faithful_start ttl begun
      running := rfl
      interval := rfl
      nextSweep := rfl
      swept := Int.le_refl _
      found := by
        intro k e
        constructor
        · intro he
          cases he
        · rintro ⟨he, -⟩
          cases he
      met := fun k e he => nomatch he }
  queue := rfl
  fresh := .inl rfl

theorem Settled.step {begun : Int} {r : Recorded α} (h : r.Settled begun) {c : Cache α}
    (hc : r.cache.mute = c.mute) {s : Step α} (hs : s ≠ .stop) :
    (r.run (c.stepMoves s)).Settled begun := by
  have hacts := mute_run_acts hc hs
  rw [Cache.stepMoves_of_ne_stop c hs, run_append, ← Cache.settleMoves_congr hacts]
  exact (h.exact.acts _).settle

theorem Settled.steps {begun : Int} {r : Recorded α} (h : r.Settled begun) {c : Cache α}
    (hc : r.cache.mute = c.mute) {ss : List (Step α)} (hss : ∀ s ∈ ss, s ≠ .stop) :
    (r.run (c.moves ss)).Settled begun := by
  induction ss generalizing r c with
  | nil => exact h
  | cons s ss ih =>
    rw [Cache.moves, run_append]
    refine ih (h.step hc (hss s (.head _))) ?_ fun t ht => hss t (.tail _ ht)
    exact mute_run_stepMoves h.exact.faithful hc s

namespace Settled

variable {begun : Int} {r : Recorded α}

theorem find?_eq_some_iff (h : r.Settled begun) {k : String} {e : Entry α} :
    r.cache.store.find? k = some e ↔ Keeps r.cache.ttl begun r.past k e := by
  rw [h.exact.found, h.queue]
  simp [Keeps, Met]

/-- The next sweep removes an entry before it is an interval past its expiry. -/
theorem clock_sub_lt (h : r.Settled begun) {k : String} {e : Entry α}
    (he : r.cache.store.find? k = some e) :
    r.cache.clock - e.expiresAt < Sweeper.intervalFor r.cache.ttl := by
  obtain ⟨-, hswept, -⟩ := h.find?_eq_some_iff.1 he
  have hpos := Sweeper.intervalFor_pos r.cache.ttl
  have hnext := Time.deadline_le_add (lastSweep begun r.past) r.cache.sweeper.interval
  have hinterval := h.exact.interval
  rcases h.fresh with hfresh | hfresh
  · omega
  · omega

/-- As long as deadlines are exact, all that the store holds was written lately. -/
theorem size_le (h : r.Settled begun)
    (hexact : ∀ k v w, .wrote k v w ∈ r.past → w + r.cache.ttl ≤ Time.latest) :
    r.cache.size ≤ (Deed.keysWrittenAfter
      (r.cache.clock - (r.cache.ttl + Sweeper.intervalFor r.cache.ttl)) r.past).card := by
  rw [Cache.size, ← Store.card_keys]
  apply Finset.card_le_card
  intro k hk
  obtain ⟨e, he⟩ := Store.mem_keys.1 hk
  have hlate := h.clock_sub_lt he
  obtain ⟨w, hw, rfl⟩ := Option.map_eq_some_iff.1 (h.exact.faithful.stored k e he)
  have hwrote := Deed.mem_of_lastWrite_eq_some hw
  refine Deed.mem_keysWrittenAfter hwrote ?_
  have hexpiry := Time.deadline_eq_add (hexact k w.1 w.2 hwrote)
  simp only at hlate
  omega

end Settled

/-- Let the sweeper run until it is idle after each step, none of which stops it. After the
last step the last sweep was at the clock, or the clock has not reached the instant an
interval after it. The store holds the entries that the record keeps, one for each key, and
its size is the number of these keys, as callers are told. An entry is less than an
interval past its expiry. As long as deadlines are exact, no more keys are stored than were
written within a lifetime and an interval. -/
theorem store_after_steps (ttl : Nat) (begun : Int) (ss : List (Step α))
    (h : ∀ s ∈ ss, s ≠ .stop) :
    let c := ((Cache.start ttl begun).run ss).2
    let past := ((start ttl begun).run ((Cache.start ttl begun).moves ss)).past
    let interval := Sweeper.intervalFor ttl
    (lastSweep begun past = c.clock ∨
      c.clock < Time.deadline (lastSweep begun past) interval) ∧
    (∀ k e, c.store.find? k = some e ↔ Keeps ttl begun past k e) ∧
    (∃ keys : Finset String, (∀ k, k ∈ keys ↔ ∃ e, Keeps ttl begun past k e) ∧
      c.size = keys.card ∧ (c.step (.call .size)).1 = .answered (.count keys.card) ∧
      (c.step .isEmpty).1 = .empty (keys.card = 0)) ∧
    (∀ k e, c.store.find? k = some e → c.clock - e.expiresAt < interval ∧
      (2 ≤ ttl → c.clock - e.expiresAt < (ttl / 2 : Nat))) ∧
    ((∀ k v w, .wrote k v w ∈ past → w + ttl ≤ Time.latest) →
      c.size ≤ (Deed.keysWrittenAfter (c.clock - (ttl + interval)) past).card) := by
  intro c past interval
  let r : Recorded α := (start ttl begun).run ((Cache.start ttl begun).moves ss)
  have hr : r.Settled begun := (Settled.start ttl begun).steps rfl h
  have hmute : r.cache.mute = c.mute := mute_run_moves (faithful_start ttl begun) rfl ss
  have httl : r.cache.ttl = ttl := ttl_run _ _
  have hclock : r.cache.clock = c.clock := by
    show r.cache.mute.clock = c.mute.clock
    rw [hmute]
  have hstore : r.cache.store = c.store := by
    show r.cache.mute.store = c.mute.store
    rw [hmute]
  have hfind (k : String) (e : Entry α) :
      c.store.find? k = some e ↔ Keeps ttl begun past k e := by
    rw [← hstore, hr.find?_eq_some_iff, httl]
  refine ⟨?_, hfind, ⟨c.store.keys, fun k => ?_, ?_, ?_, ?_⟩, fun k e he => ?_, fun hexact => ?_⟩
  · have hfresh := hr.fresh
    rw [hr.exact.interval, httl, hclock] at hfresh
    exact hfresh
  · rw [Store.mem_keys]
    exact exists_congr fun e => hfind k e
  · exact (Store.card_keys c.store).symm
  · rw [Store.card_keys]
    rfl
  · rw [Store.card_keys]
    have hempty : c.store.isEmpty = decide (c.store.size = 0) := by
      rw [Bool.eq_iff_iff, Store.isEmpty_iff, decide_eq_true_iff]
    exact congrArg Reply.empty hempty
  · rw [← hstore] at he
    have hlt := hr.clock_sub_lt he
    rw [httl, hclock] at hlt
    refine ⟨hlt, fun httl2 => ?_⟩
    have hhalf := Sweeper.intervalFor_le_half httl2
    omega
  · have hsize := hr.size_le (by rwa [httl])
    rw [httl, hclock, Cache.size, hstore] at hsize
    exact hsize

/-- A value expires between two sweeps. Its entry is still there, one nanosecond late. -/
theorem store_after_steps_late :
    let ss : List (Step Nat) := [.call (.set "a" 1), .advance 7, .advance 4]
    let c := ((Cache.start 10 0).run ss).2
    (∀ s ∈ ss, s ≠ .stop) ∧ c.clock = 11 ∧ c.store.find? "a" = some ⟨1, 10⟩ ∧
      c.clock - 10 < 5 ∧ c.size ≤ 1 := by
  intro ss c
  have hss : ∀ s ∈ ss, s ≠ .stop := by decide
  have hfind : c.store.find? "a" = some ⟨1, 10⟩ := by decide
  obtain ⟨-, -, -, hlate, hsize⟩ := store_after_steps 10 0 ss hss
  have hpast : ((start 10 0).run ((Cache.start 10 0).moves ss)).past =
      [.swept 7, .wrote "a" 1 0] := by decide
  rw [hpast] at hsize
  refine ⟨hss, by decide, hfind, (hlate "a" _ hfind).1, hsize ?_⟩
  intro k v w hwrote
  obtain ⟨-, -, rfl⟩ : k = "a" ∧ v = 1 ∧ w = 0 := by simpa using hwrote
  decide

end Recorded

end ExpiringCache
