import ExpiringCache.Cache.Step
import ExpiringCache.Proofs.Live

/-! A cache with the record of what happened to it. The acts of its callers are the
operations that one caller makes in one go; each adds to the record what a bystander with
a clock would note, and nothing that only the store could tell. The last write of a key,
the looks at it since then and the last sweep are read off the record. Whatever sets,
lookups, clears and the passing of time preserve, every act preserves (`act_induction`):
a load is made of these. -/

namespace ExpiringCache

universe u

variable {α : Type u}

/-- Something that happened to a cache. A look is one without the lock; a purge is asked
for at the instant at which its entry was seen expired. -/
inductive Deed (α : Type u) where
  | wrote (key : String) (v : α) (now : Int)
  | cleared
  | looked (key : String) (now : Int)
  | asked (p : Purge) (now : Int)
  | swept (now : Int)
deriving DecidableEq, Repr

namespace Deed

/-- The value of the last write to a key since everything was cleared, and when it was
written. Records run backwards, the latest deed first. -/
def lastWrite : List (Deed α) → String → Option (α × Int)
  | [], _ => none
  | .wrote j v now :: past, k => if k = j then some (v, now) else lastWrite past k
  | .cleared :: _, _ => none
  | _ :: past, k => lastWrite past k

/-- The entry that the last write to a key made, when entries live for `ttl`. -/
def lastEntry (ttl : Nat) (past : List (Deed α)) (k : String) : Option (Entry α) :=
  (lastWrite past k).map fun w => ⟨w.1, Time.deadline w.2 ttl⟩

/-- The last write to a key wrote `v`, and its lifetime is not over at `now`. -/
def Lasts (ttl : Nat) (past : List (Deed α)) (now : Int) (k : String) (v : α) : Prop :=
  ∃ w, lastWrite past k = some (v, w) ∧ now ≤ Time.deadline w ttl

/-- When a key was looked at since it was last written. -/
def looksSince : List (Deed α) → String → List Int
  | [], _ => []
  | .wrote j _ _ :: past, k => if k = j then [] else looksSince past k
  | .cleared :: _, _ => []
  | .looked j now :: past, k => if k = j then now :: looksSince past k else looksSince past k
  | _ :: past, k => looksSince past k

/-- The instant of the last sweep, `start` if there has been none. -/
def lastSweep (start : Int) : List (Deed α) → Int
  | [] => start
  | .swept now :: _ => now
  | _ :: past => lastSweep start past

/-- The deed asks for this purge. -/
def asks (p : Purge) : Deed α → Bool
  | .asked q _ => q = p
  | _ => false

@[simp] theorem lastEntry_wrote (ttl : Nat) (past : List (Deed α)) (k j : String) (v : α)
    (now : Int) : lastEntry ttl (.wrote k v now :: past) j =
      if j = k then some ⟨v, Time.deadline now ttl⟩ else lastEntry ttl past j := by
  rw [lastEntry, lastWrite]
  split <;> rfl

theorem any_asks_iff {past : List (Deed α)} {p : Purge} :
    past.any (asks p) = true ↔ ∃ now, .asked p now ∈ past := by
  rw [List.any_eq_true]
  constructor
  · rintro ⟨d, hd, hp⟩
    cases d with
    | asked q now =>
      obtain rfl : q = p := by simpa [asks] using hp
      exact ⟨now, hd⟩
    | _ => cases hp
  · rintro ⟨now, hd⟩
    exact ⟨_, hd, by simp [asks]⟩

theorem mem_of_lastWrite_eq_some {past : List (Deed α)} {k : String} {v : α} {now : Int}
    (h : lastWrite past k = some (v, now)) : .wrote k v now ∈ past := by
  induction past with
  | nil => cases h
  | cons d past ih =>
    cases d with
    | wrote j u n =>
      rw [lastWrite] at h
      split at h
      · rename_i hk
        cases h
        exact hk ▸ .head _
      · exact .tail _ (ih h)
    | cleared => cases h
    | looked j n => exact .tail _ (ih h)
    | asked p n => exact .tail _ (ih h)
    | swept n => exact .tail _ (ih h)

section Asked

variable (ps : List Purge) (now : Int) (past : List (Deed α))

/-! Asking for purges is neither a write nor a look nor a sweep. -/

@[simp] theorem lastWrite_map_asked_append (k : String) :
    lastWrite (ps.map (.asked · now) ++ past) k = lastWrite past k := by
  induction ps with
  | nil => rfl
  | cons p ps ih => exact ih

@[simp] theorem looksSince_map_asked_append (k : String) :
    looksSince (ps.map (.asked · now) ++ past) k = looksSince past k := by
  induction ps with
  | nil => rfl
  | cons p ps ih => exact ih

@[simp] theorem lastSweep_map_asked_append (start : Int) :
    lastSweep start (ps.map (.asked · now) ++ past) = lastSweep start past := by
  induction ps with
  | nil => rfl
  | cons p ps ih => exact ih

end Asked

/-- The last write of a key is one of the latest deeds, or these neither wrote the key nor
cleared. -/
theorem lastWrite_append_eq_some {since past : List (Deed α)} {k : String} {w : α × Int}
    (h : lastWrite (since ++ past) k = some w) :
    .wrote k w.1 w.2 ∈ since ∨
      ((∀ v now, .wrote k v now ∉ since) ∧ .cleared ∉ since ∧ lastWrite past k = some w) := by
  induction since with
  | nil => exact .inr ⟨by simp, by simp, h⟩
  | cons d since ih =>
    cases d with
    | wrote j v now =>
      rw [List.cons_append, lastWrite] at h
      split at h
      · rename_i hk
        cases h
        exact .inl (hk ▸ .head _)
      · rename_i hk
        refine (ih h).imp (.tail _) fun ⟨hwrote, hcleared, hw⟩ => ⟨?_, by simpa using hcleared, hw⟩
        intro u n hmem
        rcases List.mem_cons.1 hmem with heq | hmem
        · cases heq
          exact hk rfl
        · exact hwrote u n hmem
    | cleared => cases h
    | looked j now => simpa using ih h
    | asked p now => simpa using ih h
    | swept now => simpa using ih h

end Deed

/-! ### Acts of the callers -/

/-- What a caller does to a cache in one go. The section of a load that runs under the
lock is an act of its own, for callers that looked a while before. -/
inductive Act (α : Type u) where
  | set (key : String) (v : α)
  | lookup (key : String)
  | load (key : String) (l : Loader α)
  | lockedLoad (key : String) (l : Loader α)
  | clear
  | advance (d : Nat)
deriving DecidableEq, Repr

namespace Cache

def act (c : Cache α) : Act α → Reply α × Cache α
  | .set k v => (.answered .done, c.set k v)
  | .lookup k => (.answered (.found (c.lookup k).1), (c.lookup k).2)
  | .load k l => (.loaded (c.load k l).1 none, (c.load k l).2)
  | .lockedLoad k l => (.loaded (c.lockedLoad k l).1 none, (c.lockedLoad k l).2)
  | .clear => (.answered .done, c.clear)
  | .advance d => (.advanced, c.advance d)

/-- The purge that a lookup of a key asks the sweeper for. -/
def request? (c : Cache α) (k : String) : Option Purge :=
  match c.store.look k c.clock with
  | .expired e => if c.sweeper.running then some ⟨k, e⟩ else none
  | _ => none

/-- All that a lookup does is to queue the purge that it asks for. -/
theorem sweeper_lookup (c : Cache α) (k : String) : (c.lookup k).2.sweeper =
    { c.sweeper with queue := c.sweeper.queue ++ (c.request? k).toList } := by
  unfold lookup request?
  cases c.store.look k c.clock with
  | live v => simp
  | absent => simp
  | expired e =>
    simp only [schedule, Sweeper.schedule]
    generalize c.sweeper = w
    obtain ⟨interval, nextSweep, queue, running⟩ := w
    cases running <;> simp

theorem mem_queue_lookup_iff {c : Cache α} {k : String} {p : Purge} :
    p ∈ (c.lookup k).2.sweeper.queue ↔ p ∈ c.sweeper.queue ∨ c.request? k = some p := by
  rw [sweeper_lookup]
  simp

theorem request?_eq_some_iff {c : Cache α} {k : String} {p : Purge} :
    c.request? k = some p ↔ c.sweeper.running = true ∧ p.key = k ∧
      ∃ e, c.store.find? k = some e ∧ e.expiresAt < c.clock ∧ e.expiresAt = p.token := by
  rw [← Store.look_eq_expired_iff]
  obtain ⟨j, t⟩ := p
  unfold request?
  cases hlook : c.store.look k c.clock with
  | live v => simp
  | absent => simp
  | expired e =>
    cases c.sweeper.running
    · simp
    · simp [@eq_comm _ k]

def lookDeeds (c : Cache α) (k : String) : List (Deed α) :=
  (c.request? k).toList.map (.asked · c.clock) ++ [.looked k c.clock]

/-- A load writes what its loader returned, at the instant at which the loader was done. -/
def loadDeeds (c : Cache α) (k : String) (l : Loader α) : List (Deed α) :=
  match (c.lockedLoad k l).1 with
  | ⟨.value v, true⟩ => [.wrote k v (c.clock + l.cost)]
  | _ => []

/-- What an act adds to the record. -/
def deeds (c : Cache α) : Act α → List (Deed α)
  | .set k v => [.wrote k v c.clock]
  | .lookup k => c.lookDeeds k
  | .load k l => (c.lookup k).2.loadDeeds k l ++ c.lookDeeds k
  | .lockedLoad k l => c.loadDeeds k l
  | .clear => [.cleared]
  | .advance _ => []

theorem asked_mem_lookDeeds_iff {c : Cache α} {k : String} {p : Purge} {now : Int} :
    .asked p now ∈ c.lookDeeds k ↔ now = c.clock ∧ c.request? k = some p := by
  simp only [lookDeeds, List.mem_append, List.mem_map, Option.mem_toList, List.mem_singleton,
    reduceCtorEq, or_false, Deed.asked.injEq]
  constructor
  · rintro ⟨q, hq, rfl, rfl⟩
    exact ⟨rfl, hq⟩
  · rintro ⟨rfl, hp⟩
    exact ⟨p, hp, rfl, rfl⟩

theorem asked_not_mem_loadDeeds {c : Cache α} {k : String} {l : Loader α} {p : Purge}
    {now : Int} : .asked p now ∉ c.loadDeeds k l := by
  unfold loadDeeds
  split <;> simp

/-- A load writes if it finds nothing live and its loader returns a value. -/
theorem wrote_mem_loadDeeds_iff {c : Cache α} {j k : String} {l : Loader α} {v : α} {now : Int} :
    .wrote k v now ∈ c.loadDeeds j l ↔
      k = j ∧ c.live j = none ∧ l.outcome = .value v ∧ now = c.clock + l.cost := by
  cases hlive : c.live j with
  | some e => simp [loadDeeds, lockedLoad_of_live_eq_some l hlive]
  | none =>
    rw [loadDeeds, lockedLoad_of_live_eq_none l hlive]
    cases l.outcome with
    | value u => simp [@eq_comm _ v]
    | failure reason => simp
    | panic reason => simp

/-- A purge is asked for at the clock, by a lookup. -/
theorem request?_of_asked_mem_deeds {c : Cache α} {a : Act α} {p : Purge} {now : Int}
    (h : .asked p now ∈ c.deeds a) : now = c.clock ∧ ∃ k, c.request? k = some p := by
  cases a with
  | set k v => simp [deeds] at h
  | lookup k => exact (asked_mem_lookDeeds_iff.1 h).imp_right fun hp => ⟨k, hp⟩
  | load k l =>
    rcases List.mem_append.1 h with h | h
    · exact absurd h asked_not_mem_loadDeeds
    · exact (asked_mem_lookDeeds_iff.1 h).imp_right fun hp => ⟨k, hp⟩
  | lockedLoad k l => exact absurd h asked_not_mem_loadDeeds
  | clear => simp [deeds] at h
  | advance d => simp [deeds] at h

theorem Alike.act {c d : Cache α} (h : Alike c d) (a : Act α) :
    (c.act a).1 = (d.act a).1 ∧ Alike (c.act a).2 (d.act a).2 := by
  cases a with
  | set k v => exact ⟨rfl, h.set k v⟩
  | lookup k =>
    obtain ⟨hfound, hafter⟩ := h.lookup k
    exact ⟨by rw [Cache.act, Cache.act, hfound], hafter⟩
  | load k l =>
    obtain ⟨hloaded, hafter⟩ := h.load k l
    exact ⟨by rw [Cache.act, Cache.act, hloaded], hafter⟩
  | lockedLoad k l =>
    obtain ⟨hloaded, hafter⟩ := h.lockedLoad k l
    exact ⟨by rw [Cache.act, Cache.act, hloaded], hafter⟩
  | clear => exact ⟨rfl, h.clear⟩
  | advance n => exact ⟨rfl, h.advance n⟩

end Cache

/-- A cache and the record of what happened to it. -/
structure Recorded (α : Type u) where
  cache : Cache α
  past : List (Deed α)
deriving DecidableEq

namespace Recorded

def start (ttl : Nat) (now : Int) : Recorded α := ⟨.start ttl now, []⟩

def act (r : Recorded α) (a : Act α) : Recorded α :=
  ⟨(r.cache.act a).2, r.cache.deeds a ++ r.past⟩

/-- A write whose expiry was settled at the instant `written`, maybe before it took effect. -/
def put (r : Recorded α) (k : String) (v : α) (written : Int) : Recorded α :=
  ⟨r.cache.write k v (Time.deadline written r.cache.ttl), .wrote k v written :: r.past⟩

theorem act_set (r : Recorded α) (k : String) (v : α) :
    r.act (.set k v) = r.put k v r.cache.clock := rfl

theorem act_load (r : Recorded α) (k : String) (l : Loader α) :
    r.act (.load k l) = (r.act (.lookup k)).act (.lockedLoad k l) := by
  simp only [act, Cache.act, Cache.deeds, Cache.load_eq_lockedLoad, List.append_assoc]

theorem act_lockedLoad_of_live_eq_some {r : Recorded α} {k : String} {e : Entry α}
    (l : Loader α) (h : r.cache.live k = some e) : r.act (.lockedLoad k l) = r := by
  simp only [act, Cache.act, Cache.deeds, Cache.loadDeeds,
    Cache.lockedLoad_of_live_eq_some l h, List.nil_append]

theorem act_lockedLoad_of_live_eq_none {r : Recorded α} {k : String} (l : Loader α)
    (h : r.cache.live k = none) : r.act (.lockedLoad k l) =
      match l.outcome with
      | .value v => (r.act (.advance l.cost)).act (.set k v)
      | _ => r.act (.advance l.cost) := by
  simp only [act, Cache.act, Cache.deeds, Cache.loadDeeds, Cache.lockedLoad_of_live_eq_none l h]
  cases l.outcome <;> rfl

/-! A lookup writes nothing and sweeps nothing; it is a look at its key. -/

section Lookup

variable (r : Recorded α) (k j : String)

theorem lastEntry_act_lookup :
    Deed.lastEntry (r.act (.lookup k)).cache.ttl (r.act (.lookup k)).past j =
      Deed.lastEntry r.cache.ttl r.past j := by
  simp [act, Cache.act, Cache.deeds, Cache.lookDeeds, Deed.lastEntry, Deed.lastWrite]

theorem looksSince_act_lookup : Deed.looksSince (r.act (.lookup k)).past j =
    if j = k then r.cache.clock :: Deed.looksSince r.past j else Deed.looksSince r.past j := by
  simp [act, Cache.deeds, Cache.lookDeeds, Deed.looksSince]

theorem lastSweep_act_lookup (start : Int) :
    Deed.lastSweep start (r.act (.lookup k)).past = Deed.lastSweep start r.past := by
  simp [act, Cache.deeds, Cache.lookDeeds, Deed.lastSweep]

end Lookup

theorem lastWrite_act_lookup (r : Recorded α) (k j : String) :
    Deed.lastWrite (r.act (.lookup k)).past j = Deed.lastWrite r.past j := by
  simp [act, Cache.deeds, Cache.lookDeeds, Deed.lastWrite]

theorem lastWrite_act_load_of_live {r : Recorded α} {k : String} {e : Entry α} (l : Loader α)
    (hlive : r.cache.live k = some e) :
    Deed.lastWrite (r.act (.load k l)).past k = Deed.lastWrite r.past k := by
  have hstill : (r.act (.lookup k)).cache.live k = some e :=
    (Cache.live_lookup r.cache k k).trans hlive
  rw [act_load, act_lockedLoad_of_live_eq_some l hstill, lastWrite_act_lookup]

theorem lastWrite_act_load_of_absent {r : Recorded α} {k : String} (l : Loader α)
    (hnone : r.cache.live k = none) :
    Deed.lastWrite (r.act (.load k l)).past k =
      match l.outcome with
      | .value v => some (v, r.cache.clock + l.cost)
      | _ => Deed.lastWrite r.past k := by
  have hstill : (r.act (.lookup k)).cache.live k = none :=
    (Cache.live_lookup r.cache k k).trans hnone
  have hclock : (r.act (.lookup k)).cache.clock = r.cache.clock := Cache.clock_lookup _ k
  have hset (q : Recorded α) (v : α) :
      Deed.lastWrite (q.act (.set k v)).past k = some (v, q.cache.clock) := if_pos rfl
  have hadvance (q : Recorded α) (d : Nat) :
      (q.act (.advance d)).cache.clock = q.cache.clock + d ∧ (q.act (.advance d)).past = q.past :=
    ⟨rfl, rfl⟩
  rw [act_load, act_lockedLoad_of_live_eq_none l hstill]
  cases l.outcome with
  | value v => rw [hset, (hadvance _ _).1, hclock]
  | failure reason => rw [(hadvance _ _).2, lastWrite_act_lookup]
  | panic reason => rw [(hadvance _ _).2, lastWrite_act_lookup]

/-- Acts preserve what sets, lookups, clears and the passing of time preserve. -/
theorem act_induction {P : Recorded α → Prop}
    (set : ∀ r k v, P r → P (r.act (.set k v))) (lookup : ∀ r k, P r → P (r.act (.lookup k)))
    (clear : ∀ r, P r → P (r.act .clear)) (advance : ∀ r d, P r → P (r.act (.advance d)))
    (r : Recorded α) (a : Act α) (h : P r) : P (r.act a) := by
  have lockedLoad (r : Recorded α) (k : String) (l : Loader α) (h : P r) :
      P (r.act (.lockedLoad k l)) := by
    cases hlive : r.cache.live k with
    | some e => rwa [act_lockedLoad_of_live_eq_some l hlive]
    | none =>
      rw [act_lockedLoad_of_live_eq_none l hlive]
      split
      · exact set _ k _ (advance r l.cost h)
      · exact advance r l.cost h
  cases a with
  | set k v => exact set r k v h
  | lookup k => exact lookup r k h
  | load k l =>
    rw [act_load]
    exact lockedLoad _ k l (lookup r k h)
  | lockedLoad k l => exact lockedLoad r k l h
  | clear => exact clear r h
  | advance d => exact advance r d h

end Recorded

end ExpiringCache
