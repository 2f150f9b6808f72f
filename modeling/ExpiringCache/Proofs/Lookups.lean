import ExpiringCache.Proofs.Schedule

/-! Lookups follow the history of writes. Whatever the sweeper does and whenever, a lookup
returns exactly the value of the last write to its key whose lifetime is not over, and a
loader runs exactly if there is none. What the callers are answered is therefore what they
would be answered by a cache that nobody sweeps. -/

namespace ExpiringCache.Recorded

open Deed (Lasts lastEntry)

universe u

variable {α : Type u}

theorem Faithful.live_iff_lasts {r : Recorded α} (h : r.Faithful) {k : String} {v : α} :
    (∃ e, r.cache.live k = some e ∧ e.value = v) ↔
      Lasts r.cache.ttl r.past r.cache.clock k v := by
  simp only [h.live_eq_some_iff, lastEntry, Option.map_eq_some_iff]
  constructor
  · rintro ⟨_, ⟨⟨⟨u, w⟩, hw, rfl⟩, hlive⟩, rfl⟩
    exact ⟨w, hw, hlive⟩
  · rintro ⟨w, hw, hlive⟩
    exact ⟨_, ⟨⟨(v, w), hw, rfl⟩, hlive⟩, rfl⟩

theorem Faithful.lookup_eq_some_iff {r : Recorded α} (h : r.Faithful) {k : String} {v : α} :
    (r.cache.lookup k).1 = some v ↔ Lasts r.cache.ttl r.past r.cache.clock k v := by
  rw [← h.live_iff_lasts, Cache.lookup_fst, Option.map_eq_some_iff]

theorem Faithful.live_eq_none_iff {r : Recorded α} (h : r.Faithful) {k : String} :
    r.cache.live k = none ↔ ¬∃ v, Lasts r.cache.ttl r.past r.cache.clock k v := by
  rw [Option.eq_none_iff_forall_ne_some]
  simp only [← h.live_iff_lasts]
  constructor
  · rintro hnone ⟨v, e, he, -⟩
    exact hnone e he
  · intro hlasts e he
    exact hlasts ⟨e.value, e, he, rfl⟩

/-- No caller notices what the sweeper does. -/
theorem Faithful.alike_move {r : Recorded α} (h : r.Faithful) {m : Move α}
    (hm : m.act? = none) : Cache.Alike r.cache (r.move m).cache := by
  cases m with
  | act a => cases hm
  | mark ago => exact ⟨rfl, rfl, fun _ => rfl⟩
  | take => exact ⟨rfl, rfl, fun _ => rfl⟩
  | purge p =>
    rcases r.move_purge p with ⟨now, hp, hmove⟩ | hmove
    · rw [hmove]
      have := h.asked p now hp
      exact r.cache.alike_purge (by omega)
    · rw [hmove]
      exact .refl _
  | halt => exact ⟨rfl, rfl, fun _ => rfl⟩

theorem Faithful.alike_run {r : Recorded α} (h : r.Faithful) {ms : List (Move α)}
    (hms : ∀ m ∈ ms, m.act? = none) : Cache.Alike r.cache (r.run ms).cache := by
  induction ms generalizing r with
  | nil => exact .refl _
  | cons m ms ih =>
    exact (h.alike_move (hms m (.head _))).trans (ih (h.move m) fun n hn => hms n (.tail _ hn))

theorem answers_eq_of_alike {r : Recorded α} (hr : r.Faithful) {c : Cache α}
    (h : Cache.Alike r.cache c) (ms : List (Move α)) :
    r.answers ms = c.answers (ms.filterMap Move.act?) := by
  induction ms generalizing r c with
  | nil => rfl
  | cons m ms ih =>
    -- a move of the sweeper is skipped on the right, and leaves the left alike
    have hsweeper (hm : m.act? = none) : (r.move m).answers ms =
        c.answers ((m :: ms).filterMap Move.act?) := by
      rw [List.filterMap_cons_none hm]
      exact ih (hr.move m) ((hr.alike_move hm).symm.trans h)
    cases m with
    | act a =>
      obtain ⟨hanswer, hafter⟩ := h.act a
      have hkeep : (.act a :: ms).filterMap Move.act? = a :: ms.filterMap Move.act? := rfl
      rw [hkeep, answers, Cache.answers, hanswer]
      exact congrArg _ (ih (hr.act a) hafter)
    | mark ago => exact hsweeper rfl
    | take => exact hsweeper rfl
    | purge p => exact hsweeper rfl
    | halt => exact hsweeper rfl

/-- At every moment of every run a lookup returns `v` exactly if the last write to its key
since everything was cleared wrote `v` and its lifetime is not over, and a loader runs
exactly if there is no such `v`, after a lookup of its own or later under the lock. What
the callers are answered does not depend on what the sweeper does in between. A run of
steps, the sweeper settled after each, is one of these runs. -/
theorem lookup_eq_some_iff_lasts (ttl : Nat) (begun : Int) :
    (∀ ms : List (Move α),
      let r := (start ttl begun).run ms
      (∀ k v, (r.cache.lookup k).1 = some v ↔ Lasts ttl r.past r.cache.clock k v) ∧
      (∀ k l, (r.cache.load k l).1.ran = true ↔ ¬∃ v, Lasts ttl r.past r.cache.clock k v) ∧
      (∀ k l,
        (r.cache.lockedLoad k l).1.ran = true ↔ ¬∃ v, Lasts ttl r.past r.cache.clock k v) ∧
      (start ttl begun).answers ms = (Cache.start ttl begun).answers (ms.filterMap Move.act?)) ∧
    ∀ ss : List (Step α),
      ((start ttl begun).run ((Cache.start ttl begun).moves ss)).cache.mute =
        ((Cache.start ttl begun).run ss).2.mute := by
  refine ⟨fun ms => ?_, mute_run_moves (faithful_start ttl begun) rfl⟩
  intro r
  have hr : r.Faithful := faithful_run ttl begun ms
  have httl : r.cache.ttl = ttl := ttl_run _ ms
  refine ⟨fun k v => ?_, fun k l => ?_, fun k l => ?_, ?_⟩
  · rw [hr.lookup_eq_some_iff, httl]
  · rw [Cache.load_ran_iff_live, hr.live_eq_none_iff, httl]
  · rw [Cache.lockedLoad_ran_iff_live, hr.live_eq_none_iff, httl]
  · exact answers_eq_of_alike (faithful_start ttl begun) (.refl _) ms

end ExpiringCache.Recorded
