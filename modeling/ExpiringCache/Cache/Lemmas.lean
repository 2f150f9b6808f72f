import ExpiringCache.Cache.Basic

/-! What the operations of a cache do to its clock and to the entry found for a key. A
lookup returns a value exactly if a live entry holds it (`lookup_eq_some_iff`), and it
changes neither the clock nor the store. -/

namespace ExpiringCache.Cache

universe u

variable {α : Type u}

/-! ### Lookups -/

@[simp] theorem clock_schedule (c : Cache α) (p : Purge) : (c.schedule p).clock = c.clock := rfl

@[simp] theorem store_schedule (c : Cache α) (p : Purge) : (c.schedule p).store = c.store := rfl

@[simp] theorem ttl_schedule (c : Cache α) (p : Purge) : (c.schedule p).ttl = c.ttl := rfl

@[simp] theorem clock_lookup (c : Cache α) (k : String) : (c.lookup k).2.clock = c.clock := by
  unfold lookup
  split <;> rfl

@[simp] theorem store_lookup (c : Cache α) (k : String) : (c.lookup k).2.store = c.store := by
  unfold lookup
  split <;> rfl

@[simp] theorem ttl_lookup (c : Cache α) (k : String) : (c.lookup k).2.ttl = c.ttl := by
  unfold lookup
  split <;> rfl

theorem lookup_eq_some_iff {c : Cache α} {k : String} {v : α} :
    (c.lookup k).1 = some v ↔ ∃ e, c.store.find? k = some e ∧ c.clock ≤ e.expiresAt ∧
      e.value = v := by
  rw [← Store.look_eq_live_iff]
  unfold lookup
  split <;> simp_all

/-! ### Writes -/

@[simp] theorem find?_set (c : Cache α) (k j : String) (v : α) :
    (c.set k v).store.find? j =
      if j = k then some ⟨v, Time.deadline c.clock c.ttl⟩ else c.store.find? j :=
  c.store.find?_insert k j _

@[simp] theorem find?_clear (c : Cache α) (k : String) : c.clear.store.find? k = none := rfl

/-- A value that was just set is found. -/
theorem lookup_set (c : Cache α) (k : String) (v : α) :
    ((c.set k v).lookup k).1 = some v :=
  lookup_eq_some_iff.2 ⟨_, (c.find?_set k k v).trans (if_pos rfl), Time.le_deadline _ _, rfl⟩

/-! ### Loads -/

/-- Under the lock, a live entry is returned and nothing changes. -/
theorem lockedLoad_of_live {c : Cache α} {k : String} {v : α} (l : Loader α)
    (h : c.store.look k c.clock = .live v) : c.lockedLoad k l = (⟨.value v, false⟩, c) := by
  simp [lockedLoad, h]

theorem load_of_lookup_eq_some {c : Cache α} {k : String} {v : α} (l : Loader α)
    (h : (c.lookup k).1 = some v) : c.load k l = (⟨.value v, false⟩, (c.lookup k).2) := by
  unfold load
  split <;> simp_all

theorem load_of_lookup_eq_none {c : Cache α} {k : String} (l : Loader α)
    (h : (c.lookup k).1 = none) : c.load k l = (c.lookup k).2.lockedLoad k l := by
  unfold load
  split <;> simp_all

/-! ### The sweeper's turn -/

@[simp] theorem clock_settle (c : Cache α) : c.settle.clock = c.clock := rfl

@[simp] theorem ttl_settle (c : Cache α) : c.settle.ttl = c.ttl := rfl

@[simp] theorem journal_settle (c : Cache α) : c.settle.journal = c.journal := rfl

end ExpiringCache.Cache
