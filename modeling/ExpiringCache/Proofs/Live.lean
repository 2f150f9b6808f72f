import ExpiringCache.Cache.Lemmas

/-! The live entries of a cache. Lookups and loads read nothing else of its store
(`lookup_fst`, `lockedLoad_of_live_eq_some`, `lockedLoad_of_live_eq_none`), so two caches
with one lifetime, one clock and the same live entries are alike: each answers as the other
does and they stay alike. A purge whose token has passed leaves every cache alike to what
it was. -/

namespace ExpiringCache.Cache

universe u

variable {α : Type u}

/-- The entry of a key, unless it has expired. -/
def live (c : Cache α) (k : String) : Option (Entry α) :=
  (c.store.find? k).filter fun e => c.clock ≤ e.expiresAt

theorem live_eq_some_iff {c : Cache α} {k : String} {e : Entry α} :
    c.live k = some e ↔ c.store.find? k = some e ∧ c.clock ≤ e.expiresAt := by
  simp [live, Option.filter_eq_some_iff]

theorem live_eq_none_iff {c : Cache α} {k : String} :
    c.live k = none ↔ ∀ e, c.store.find? k = some e → e.expiresAt < c.clock := by
  simp only [Option.eq_none_iff_forall_ne_some, ne_eq, live_eq_some_iff, not_and, Int.not_le]

theorem look_of_live_eq_some {c : Cache α} {k : String} {e : Entry α} (h : c.live k = some e) :
    c.store.look k c.clock = .live e.value := by
  obtain ⟨hfind, hlive⟩ := live_eq_some_iff.1 h
  exact Store.look_eq_live_iff.2 ⟨e, hfind, hlive, rfl⟩

theorem look_ne_live_of_live_eq_none {c : Cache α} {k : String} (h : c.live k = none) (v : α) :
    c.store.look k c.clock ≠ .live v := by
  intro hlook
  obtain ⟨e, hfind, hlive, -⟩ := Store.look_eq_live_iff.1 hlook
  have := live_eq_none_iff.1 h e hfind
  omega

/-! ### What operations read of the store -/

theorem lookup_fst (c : Cache α) (k : String) : (c.lookup k).1 = (c.live k).map (·.value) := by
  ext v
  rw [lookup_eq_some_iff]
  simp only [Option.map_eq_some_iff, live_eq_some_iff, and_assoc]

theorem lookup_fst_of_live_eq_some {c : Cache α} {k : String} {e : Entry α}
    (h : c.live k = some e) : (c.lookup k).1 = some e.value := by
  rw [lookup_fst, h]
  rfl

/-- A lookup of a stored entry finds it until it expires. -/
theorem lookup_fst_of_find? {c : Cache α} {k : String} {e : Entry α}
    (h : c.store.find? k = some e) :
    (c.lookup k).1 = if c.clock ≤ e.expiresAt then some e.value else none := by
  rw [lookup_fst, live, h]
  split <;> simp [Option.filter, *]

theorem lockedLoad_of_live_eq_some {c : Cache α} {k : String} {e : Entry α} (l : Loader α)
    (h : c.live k = some e) : c.lockedLoad k l = (⟨.value e.value, false⟩, c) :=
  lockedLoad_of_live l (look_of_live_eq_some h)

/-- Puts in what a loader returned; a failure or a panic leaves nothing. -/
def keep (c : Cache α) (k : String) : Outcome α → Cache α
  | .value v => c.set k v
  | _ => c

theorem lockedLoad_of_live_eq_none {c : Cache α} {k : String} (l : Loader α)
    (h : c.live k = none) :
    c.lockedLoad k l = (⟨l.outcome, true⟩, (c.advance l.cost).keep k l.outcome) := by
  have hmiss := look_ne_live_of_live_eq_none h
  unfold lockedLoad
  split
  · rename_i v hv
    exact absurd hv (hmiss v)
  · simp only
    split
    · rename_i v hv
      rw [hv, keep]
    · rename_i houtcome
      rw [keep]
      exact houtcome

/-- What runs under the lock changes nothing but the clock and the store. -/
theorem exists_lockedLoad_eq (c : Cache α) (k : String) (l : Loader α) :
    ∃ clock store, (c.lockedLoad k l).2 = { c with clock, store } := by
  cases h : c.live k with
  | some e => exact ⟨c.clock, c.store, by rw [lockedLoad_of_live_eq_some l h]⟩
  | none =>
    rw [lockedLoad_of_live_eq_none l h]
    cases l.outcome <;> exact ⟨_, _, rfl⟩

@[simp] theorem ttl_lockedLoad (c : Cache α) (k : String) (l : Loader α) :
    (c.lockedLoad k l).2.ttl = c.ttl := by
  obtain ⟨clock, store, h⟩ := c.exists_lockedLoad_eq k l
  rw [h]

@[simp] theorem sweeper_lockedLoad (c : Cache α) (k : String) (l : Loader α) :
    (c.lockedLoad k l).2.sweeper = c.sweeper := by
  obtain ⟨clock, store, h⟩ := c.exists_lockedLoad_eq k l
  rw [h]

@[simp] theorem journal_lockedLoad (c : Cache α) (k : String) (l : Loader α) :
    (c.lockedLoad k l).2.journal = c.journal := by
  obtain ⟨clock, store, h⟩ := c.exists_lockedLoad_eq k l
  rw [h]

@[simp] theorem live_lookup (c : Cache α) (k j : String) : (c.lookup k).2.live j = c.live j := by
  rw [live, live, store_lookup, clock_lookup]

/-- A load is a lookup and then the section under the lock, which changes nothing after a
hit. -/
theorem load_eq_lockedLoad (c : Cache α) (k : String) (l : Loader α) :
    c.load k l = (c.lookup k).2.lockedLoad k l := by
  cases h : c.live k with
  | none => exact load_of_lookup_eq_none l (by rw [lookup_fst, h]; rfl)
  | some e =>
    rw [load_of_lookup_eq_some l (lookup_fst_of_live_eq_some h),
      lockedLoad_of_live_eq_some l ((live_lookup c k k).trans h)]

@[simp] theorem ttl_keep (c : Cache α) (k : String) (o : Outcome α) :
    (c.keep k o).ttl = c.ttl := by
  cases o <;> rfl

@[simp] theorem clock_keep (c : Cache α) (k : String) (o : Outcome α) :
    (c.keep k o).clock = c.clock := by
  cases o <;> rfl

/-- A load that misses is the lookup, the time of its loader, and what it leaves. -/
theorem load_of_live_eq_none {c : Cache α} {k : String} (l : Loader α) (h : c.live k = none) :
    c.load k l =
      (⟨l.outcome, true⟩, ((c.lookup k).2.advance l.cost).keep k l.outcome) := by
  rw [load_eq_lockedLoad, lockedLoad_of_live_eq_none l ((live_lookup c k k).trans h)]

/-- Under the lock a loader runs exactly if no live entry is there. -/
theorem lockedLoad_ran_iff_live {c : Cache α} {k : String} {l : Loader α} :
    (c.lockedLoad k l).1.ran = true ↔ c.live k = none := by
  cases h : c.live k with
  | none => simp [lockedLoad_of_live_eq_none l h]
  | some e => simp [lockedLoad_of_live_eq_some l h]

theorem load_ran_iff_live {c : Cache α} {k : String} {l : Loader α} :
    (c.load k l).1.ran = true ↔ c.live k = none := by
  rw [load_eq_lockedLoad, lockedLoad_ran_iff_live, live_lookup]

theorem live_set (c : Cache α) (k j : String) (v : α) :
    (c.set k v).live j = if j = k then some ⟨v, c.expiry⟩ else c.live j := by
  rw [live, find?_set]
  split
  · exact Option.filter_eq_some_iff.2 ⟨rfl, decide_eq_true (Time.le_deadline c.clock c.ttl)⟩
  · rfl

theorem live_advance (c : Cache α) (d : Nat) (k : String) :
    (c.advance d).live k = (c.live k).filter fun e => c.clock + d ≤ e.expiresAt := by
  ext e
  simp only [live_eq_some_iff, Option.filter_eq_some_iff, decide_eq_true_eq, advance]
  constructor
  · rintro ⟨hfind, hlive⟩
    exact ⟨⟨hfind, by omega⟩, hlive⟩
  · rintro ⟨⟨hfind, -⟩, hlive⟩
    exact ⟨hfind, hlive⟩

/-! ### Caches that no caller can tell apart -/

/-- Nothing that the callers of two caches get or do from now on differs. -/
structure Alike (c d : Cache α) : Prop where
  ttl : c.ttl = d.ttl
  clock : c.clock = d.clock
  live : ∀ k, c.live k = d.live k

namespace Alike

variable {c d : Cache α}

theorem refl (c : Cache α) : Alike c c := ⟨rfl, rfl, fun _ => rfl⟩

theorem symm (h : Alike c d) : Alike d c := ⟨h.ttl.symm, h.clock.symm, fun k => (h.live k).symm⟩

theorem trans {e : Cache α} (h : Alike c d) (h' : Alike d e) : Alike c e :=
  ⟨h.ttl.trans h'.ttl, h.clock.trans h'.clock, fun k => (h.live k).trans (h'.live k)⟩

theorem lookup (h : Alike c d) (k : String) :
    (c.lookup k).1 = (d.lookup k).1 ∧ Alike (c.lookup k).2 (d.lookup k).2 := by
  refine ⟨by rw [lookup_fst, lookup_fst, h.live], ?_, ?_, fun j => ?_⟩
  · rw [ttl_lookup, ttl_lookup, h.ttl]
  · rw [clock_lookup, clock_lookup, h.clock]
  · rw [live_lookup, live_lookup, h.live]

theorem set (h : Alike c d) (k : String) (v : α) : Alike (c.set k v) (d.set k v) := by
  refine ⟨h.ttl, h.clock, fun j => ?_⟩
  rw [live_set, live_set, h.live, expiry, expiry, h.clock, h.ttl]

theorem clear (h : Alike c d) : Alike c.clear d.clear := ⟨h.ttl, h.clock, fun _ => rfl⟩

theorem advance (h : Alike c d) (n : Nat) : Alike (c.advance n) (d.advance n) := by
  refine ⟨h.ttl, congrArg (· + (n : Int)) h.clock, fun j => ?_⟩
  rw [live_advance, live_advance, h.live, h.clock]

theorem keep (h : Alike c d) (k : String) (o : Outcome α) : Alike (c.keep k o) (d.keep k o) := by
  cases o with
  | value v => exact h.set k v
  | failure _ => exact h
  | panic _ => exact h

theorem lockedLoad (h : Alike c d) (k : String) (l : Loader α) :
    (c.lockedLoad k l).1 = (d.lockedLoad k l).1 ∧
      Alike (c.lockedLoad k l).2 (d.lockedLoad k l).2 := by
  cases hlive : c.live k with
  | some e =>
    rw [lockedLoad_of_live_eq_some l hlive, lockedLoad_of_live_eq_some l (h.live k ▸ hlive)]
    exact ⟨rfl, h⟩
  | none =>
    rw [lockedLoad_of_live_eq_none l hlive, lockedLoad_of_live_eq_none l (h.live k ▸ hlive)]
    exact ⟨rfl, (h.advance l.cost).keep k l.outcome⟩

theorem load (h : Alike c d) (k : String) (l : Loader α) :
    (c.load k l).1 = (d.load k l).1 ∧ Alike (c.load k l).2 (d.load k l).2 := by
  rw [load_eq_lockedLoad, load_eq_lockedLoad]
  exact (h.lookup k).2.lockedLoad k l

end Alike

/-- A purge of an entry that has expired is not seen by anyone. -/
theorem alike_purge (c : Cache α) {p : Purge} (h : p.token < c.clock) :
    Alike c { c with store := c.store.purge p } := by
  refine ⟨rfl, rfl, fun k => ?_⟩
  ext e
  rw [live_eq_some_iff, live_eq_some_iff, Store.find?_purge, Option.filter_eq_some_iff]
  refine and_congr_left fun hlive => (and_iff_left ?_).symm
  rw [decide_eq_true_iff]
  rintro ⟨-, ht⟩
  have : c.clock ≤ e.expiresAt := hlive
  omega

end ExpiringCache.Cache
