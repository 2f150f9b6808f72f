import ExpiringCache.Proofs.Interleaving

/-! What the token of a purge is worth. At every moment of every run the store holds
nothing but the entries of last writes and misses none that is still live, and the token of
every purge has passed (`Faithful`). A write makes an entry that does not expire before the
instant of the write, so no entry written after a purge was asked for carries its token:
the purge removes the entry that was seen or nothing. -/

namespace ExpiringCache.Recorded

open Deed (lastEntry)

universe u

variable {α : Type u}

/-- The store agrees with the record as far as entries are live, purges were only asked for
what had expired, and nothing is in the queue that was not asked for. -/
structure Faithful (r : Recorded α) : Prop where
  stored : ∀ k e, r.cache.store.find? k = some e → lastEntry r.cache.ttl r.past k = some e
  kept : ∀ k e, lastEntry r.cache.ttl r.past k = some e → r.cache.clock ≤ e.expiresAt →
    r.cache.store.find? k = some e
  asked : ∀ p now, .asked p now ∈ r.past → p.token < now ∧ now ≤ r.cache.clock
  queued : ∀ p ∈ r.cache.sweeper.queue, ∃ now, .asked p now ∈ r.past

theorem faithful_start (ttl : Nat) (now : Int) : Faithful (start ttl now : Recorded α) where
  stored := fun _ _ h => nomatch h
  kept := fun _ _ h => nomatch h
  asked := fun _ _ h => nomatch h
  queued := fun _ h => nomatch h

namespace Faithful

variable {r : Recorded α}

theorem live_eq_some_iff (h : r.Faithful) {k : String} {e : Entry α} :
    r.cache.live k = some e ↔
      lastEntry r.cache.ttl r.past k = some e ∧ r.cache.clock ≤ e.expiresAt := by
  rw [Cache.live_eq_some_iff]
  exact and_congr_left fun hlive => ⟨h.stored k e, fun he => h.kept k e he hlive⟩

theorem put (h : r.Faithful) (k : String) (v : α) (written : Int) :
    (r.put k v written).Faithful where
  stored j e he := by
    change (r.cache.store.insert k ⟨v, Time.deadline written r.cache.ttl⟩).find? j = some e at he
    change lastEntry r.cache.ttl (.wrote k v written :: r.past) j = some e
    rw [Store.find?_insert] at he
    rw [Deed.lastEntry_wrote]
    split at he
    · rwa [if_pos ‹_›]
    · rw [if_neg ‹_›]
      exact h.stored j e he
  kept j e he hlive := by
    change lastEntry r.cache.ttl (.wrote k v written :: r.past) j = some e at he
    change (r.cache.store.insert k ⟨v, Time.deadline written r.cache.ttl⟩).find? j = some e
    rw [Deed.lastEntry_wrote] at he
    rw [Store.find?_insert]
    split at he
    · rwa [if_pos ‹_›]
    · rw [if_neg ‹_›]
      exact h.kept j e he hlive
  asked p now hp := by
    rcases List.mem_cons.1 hp with heq | hp
    · cases heq
    · exact h.asked p now hp
  queued p hp := (h.queued p hp).imp fun _ => .tail _

theorem lookup (h : r.Faithful) (k : String) : (r.act (.lookup k)).Faithful := by
  have hstore : (r.act (.lookup k)).cache.store = r.cache.store := Cache.store_lookup _ k
  have hclock : (r.act (.lookup k)).cache.clock = r.cache.clock := Cache.clock_lookup _ k
  have hlast (j : String) := r.lastEntry_act_lookup k j
  refine ⟨fun j e he => ?_, fun j e he hlive => ?_, fun p now hp => ?_, fun p hp => ?_⟩
  · rw [hlast]
    exact h.stored j e (hstore ▸ he)
  · rw [hstore]
    exact h.kept j e (hlast j ▸ he) (hclock ▸ hlive)
  · rw [hclock]
    rcases List.mem_append.1 hp with hp | hp
    · obtain ⟨hnow, hpassed, -⟩ := seen_of_asked_mem_deeds (m := .act (.lookup k)) hp
      exact ⟨hpassed, hnow⟩
    · exact h.asked p now hp
  · rcases Cache.mem_queue_lookup_iff.1 hp with hp | hp
    · exact (h.queued p hp).imp fun _ => List.mem_append_right _
    · refine ⟨r.cache.clock, List.mem_append_left _ ?_⟩
      exact Cache.asked_mem_lookDeeds_iff.2 ⟨rfl, hp⟩

theorem clear (h : r.Faithful) : (r.act .clear).Faithful where
  stored := fun _ _ he => nomatch he
  kept := fun _ _ he => nomatch he
  asked p now hp := by
    rcases List.mem_cons.1 hp with heq | hp
    · cases heq
    · exact h.asked p now hp
  queued p hp := (h.queued p hp).imp fun _ => .tail _

theorem advance (h : r.Faithful) (d : Nat) : (r.act (.advance d)).Faithful := by
  have hclock : (r.act (.advance d)).cache.clock = r.cache.clock + d := rfl
  refine ⟨h.stored, fun j e he hlive => h.kept j e he ?_, fun p now hp => ?_, h.queued⟩
  · omega
  · have := h.asked p now hp
    omega

theorem act (h : r.Faithful) (a : Act α) : (r.act a).Faithful :=
  act_induction (fun _ k v h => h.put k v _) (fun _ k h => h.lookup k) (fun _ h => h.clear)
    (fun _ d h => h.advance d) r a h

theorem mark (h : r.Faithful) (ago : Nat) : (r.move (.mark ago)).Faithful := by
  have hlast (j : String) : lastEntry r.cache.ttl (r.move (.mark ago)).past j =
      lastEntry r.cache.ttl r.past j := r.lastEntry_move_mark ago j
  refine ⟨fun j e he => (hlast j).trans (h.stored j e he),
    fun j e he hlive => h.kept j e ((hlast j).symm.trans he) hlive, fun p now hp => ?_,
    fun p hp => (h.queued p hp).imp fun _ => List.mem_append_right _⟩
  rcases List.mem_append.1 hp with hp | hp
  · obtain ⟨hnow, hpassed, -⟩ := seen_of_asked_mem_deeds hp
    exact ⟨hpassed, hnow⟩
  · exact h.asked p now hp

theorem purge (h : r.Faithful) {p : Purge} {now : Int} (hp : .asked p now ∈ r.past) :
    (r.withStore (r.cache.store.purge p)).Faithful where
  stored k e he := by
    change (r.cache.store.purge p).find? k = some e at he
    rw [Store.find?_purge] at he
    exact h.stored k e (Option.filter_eq_some_iff.1 he).1
  kept k e he hlive := by
    change (r.cache.store.purge p).find? k = some e
    rw [Store.find?_purge, Option.filter_eq_some_iff]
    refine ⟨h.kept k e he hlive, decide_eq_true ?_⟩
    rintro ⟨-, ht⟩
    have hpassed := h.asked p now hp
    have : r.cache.clock ≤ e.expiresAt := hlive
    omega
  asked := h.asked
  queued := h.queued

theorem move (h : r.Faithful) (m : Move α) : (r.move m).Faithful :=
  move_induction (fun _ a h => h.act a) (fun _ ago h => h.mark ago)
    (fun _ h => ⟨h.stored, h.kept, h.asked, fun p hp => h.queued p (List.mem_of_mem_tail hp)⟩)
    (fun _ _ _ hp h => h.purge hp) (fun _ h => ⟨h.stored, h.kept, h.asked, h.queued⟩) r m h

theorem run (h : r.Faithful) (ms : List (Move α)) : (r.run ms).Faithful :=
  run_induction (fun _ m h => h.move m) h ms

end Faithful

theorem faithful_run (ttl : Nat) (now : Int) (ms : List (Move α)) :
    ((start ttl now).run ms).Faithful :=
  (faithful_start ttl now).run ms

/-- An entry found later on was written since, and then it does not expire before the
earlier clock, or it is the entry of before, and its key was left alone since. -/
theorem Faithful.find?_of_later {q r : Recorded α} (hq : q.Faithful) (hr : r.Faithful)
    {since : List (Deed α)} (hpast : r.past = since ++ q.past)
    (httl : r.cache.ttl = q.cache.ttl)
    (hwrote : ∀ k v w, .wrote k v w ∈ since → q.cache.clock ≤ w) {k : String} {e f : Entry α}
    (he : q.cache.store.find? k = some e) (hf : r.cache.store.find? k = some f) :
    q.cache.clock ≤ f.expiresAt ∨
      f = e ∧ (∀ v w, .wrote k v w ∉ since) ∧ .cleared ∉ since := by
  obtain ⟨w, hw, rfl⟩ := Option.map_eq_some_iff.1 (hr.stored k f hf)
  rw [hpast] at hw
  rcases Deed.lastWrite_append_eq_some hw with hmem | ⟨hnone, hcleared, hw⟩
  · left
    exact Int.le_trans (hwrote k w.1 w.2 hmem) (Time.le_deadline w.2 r.cache.ttl)
  · right
    have hlast := hq.stored k e he
    rw [lastEntry, hw, ← httl] at hlast
    exact ⟨Option.some.inj hlast, hnone, hcleared⟩

/-- A purge of a key is asked for at the instant `now` of a look that met the entry `seen`
expired. From then on every entry written to the key expires at `now` or later and every
entry found there is `seen` itself, its key not written and nothing cleared since, or one
of those. Carried out at any later moment, the purge removes `seen` or nothing. -/
theorem purge_removes_only_seen (ttl : Nat) (begun : Int) (before : List (Move α)) (m : Move α)
    (p : Purge) (now : Int) (h : .asked p now ∈ ((start ttl begun).run before).deeds m) :
    let q := (start ttl begun).run before
    ∃ seen, q.cache.store.find? p.key = some seen ∧ seen.expiresAt = p.token ∧
      p.token < now ∧ now ≤ q.cache.clock ∧
      ∀ after,
        let r := (start ttl begun).run (before ++ m :: after)
        let store := r.cache.store
        ∃ since, r.past = since ++ q.past ∧
          let untouched := (∀ v w, .wrote p.key v w ∉ since) ∧ .cleared ∉ since
          (∀ v w, .wrote p.key v w ∈ since → now ≤ Time.deadline w ttl) ∧
          (∀ e, store.find? p.key = some e → now ≤ e.expiresAt ∨ e = seen ∧ untouched) ∧
          (store.purge p = store ∨
            untouched ∧ store.find? p.key = some seen ∧ store.purge p = store.erase p.key) := by
  intro q
  obtain ⟨hnow, hpassed, seen, hseen, htoken⟩ := seen_of_asked_mem_deeds h
  refine ⟨seen, hseen, htoken, hpassed, hnow, fun after => ?_⟩
  intro r store
  have hlater : Follows q r := by
    show Follows _ ((start ttl begun).run (before ++ m :: after))
    rw [run_append]
    exact follows_run q (m :: after)
  obtain ⟨since, hpast, -, httl, hwrote⟩ := hlater
  refine ⟨since, hpast, ?_⟩
  intro untouched
  have hfound (e : Entry α) (he : store.find? p.key = some e) :
      now ≤ e.expiresAt ∨ e = seen ∧ untouched := by
    have hq : q.Faithful := faithful_run ttl begun before
    have hr : r.Faithful := faithful_run ttl begun (before ++ m :: after)
    refine (hq.find?_of_later hr hpast httl hwrote hseen he).imp_left fun hle => ?_
    exact Int.le_trans hnow hle
  refine ⟨fun v w hmem => ?_, hfound, ?_⟩
  · have hwritten := hwrote p.key v w hmem
    have hdeadline := Time.le_deadline w ttl
    exact Int.le_trans hnow (Int.le_trans hwritten hdeadline)
  · cases htarget : store.target? p with
    | none =>
      left
      rw [Store.purge, htarget]
      rfl
    | some e =>
      obtain ⟨he, hexpiry⟩ := Store.target?_eq_some_iff.1 htarget
      right
      rcases hfound e he with hle | ⟨rfl, huntouched⟩
      · omega
      · refine ⟨huntouched, he, ?_⟩
        rw [Store.purge, htarget]
        rfl

/-- A load meets an expired value and replaces it. The purge that it asked for leaves the
new value alone. -/
theorem purge_removes_only_seen_reloaded :
    let q := (start 5 0 : Recorded Nat).run [.act (.set "k" 1), .act (.advance 6)]
    let m : Move Nat := .act (.load "k" ⟨3, .value 2⟩)
    .asked ⟨"k", 5⟩ 6 ∈ q.deeds m ∧ q.cache.store.find? "k" = some ⟨1, 5⟩ ∧
      (q.run [m]).cache.store.find? "k" = some ⟨2, 14⟩ ∧
      (q.run [m]).cache.store.purge ⟨"k", 5⟩ = (q.run [m]).cache.store := by
  intro q m
  have hasked : .asked ⟨"k", 5⟩ 6 ∈ q.deeds m := by decide
  obtain ⟨seen, hseen, -, -, -, hafter⟩ := purge_removes_only_seen 5 0
    [.act (.set "k" 1), .act (.advance 6)] m ⟨"k", 5⟩ 6 hasked
  have hbefore : q.cache.store.find? "k" = some ⟨1, 5⟩ := by decide
  have hreloaded : (q.run [m]).cache.store.find? "k" = some ⟨2, 14⟩ := by decide
  refine ⟨hasked, hbefore, hreloaded, ?_⟩
  obtain ⟨since, -, -, -, hpurge⟩ := hafter []
  refine hpurge.resolve_right ?_
  rintro ⟨-, hfind, -⟩
  have hsame : (⟨2, 14⟩ : Entry Nat) = ⟨1, 5⟩ :=
    Option.some.inj (hreloaded.symm.trans (hfind.trans (hseen.symm.trans hbefore)))
  exact absurd hsame (by decide)

end ExpiringCache.Recorded
