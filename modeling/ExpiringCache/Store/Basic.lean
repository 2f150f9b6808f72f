/-! A store of entries by key, each with the instant it expires at. The bindings are kept
in the order of their keys, so a store is determined by what it holds for each key
(`Store.ext_find?`). Looking a key up at an instant finds a live entry, an expired one or
none. Entries leave by a purge, which names the expiry that it expects and removes nothing
else, or all at once. A sweep first marks what has expired and then purges it mark by
mark. -/

namespace ExpiringCache

universe u

variable {α : Type u}

structure Entry (α : Type u) where
  value : α
  expiresAt : Int
deriving DecidableEq, Repr

/-- An entry is still live at the very instant it expires at. -/
def Entry.isExpired (e : Entry α) (now : Int) : Bool := e.expiresAt < now

/-- A request to remove the entry of a key, if its expiry is still the one that the
requester saw. -/
structure Purge where
  key : String
  token : Int
deriving DecidableEq, Repr

/-- What a look at a key finds. An expired entry shows its expiry, the token that a purge
of it needs. -/
inductive Finding (α : Type u) where
  | live (value : α)
  | expired (expiresAt : Int)
  | absent
deriving DecidableEq, Repr

/-- Entries by key, in the order of the keys. -/
structure Store (α : Type u) where
  bindings : List (String × Entry α)
  ordered : bindings.Pairwise fun a b => a.1 < b.1
deriving DecidableEq

namespace Store

theorem eq_of_bindings {s t : Store α} (h : s.bindings = t.bindings) : s = t := by
  cases s
  cases t
  simp_all

def empty : Store α := ⟨[], .nil⟩

instance : Inhabited (Store α) := ⟨empty⟩

/-- The number of entries, expired ones included. -/
def size (s : Store α) : Nat := s.bindings.length

def isEmpty (s : Store α) : Bool := s.bindings.isEmpty

def find? (s : Store α) (key : String) : Option (Entry α) :=
  (s.bindings.find? fun b => b.1 == key).map (·.2)

/-- The bindings that satisfy a test. -/
def filter (p : String × Entry α → Bool) (s : Store α) : Store α :=
  ⟨s.bindings.filter p, s.ordered.filter p⟩

def erase (s : Store α) (key : String) : Store α := s.filter fun b => b.1 != key

/-- Puts an entry in, in place of the one the key has. -/
def insert (s : Store α) (key : String) (e : Entry α) : Store α where
  bindings := (s.bindings.filter (·.1 < key)) ++ (key, e) :: s.bindings.filter (key < ·.1)
  ordered := by
    rw [List.pairwise_append, List.pairwise_cons]
    refine ⟨s.ordered.filter _, ⟨?_, s.ordered.filter _⟩, ?_⟩
    · intro b hb
      simpa using (List.mem_filter.1 hb).2
    · intro a ha b hb
      have hlt : a.1 < key := by simpa using (List.mem_filter.1 ha).2
      rcases List.mem_cons.1 hb with rfl | hb
      · exact hlt
      · exact String.lt_trans hlt (by simpa using (List.mem_filter.1 hb).2)

def look (s : Store α) (key : String) (now : Int) : Finding α :=
  match s.find? key with
  | some e => if e.isExpired now then .expired e.expiresAt else .live e.value
  | none => .absent

/-- The entry that a purge would remove. -/
def target? (s : Store α) (p : Purge) : Option (Entry α) :=
  (s.find? p.key).filter fun e => e.expiresAt == p.token

def purge (s : Store α) (p : Purge) : Store α :=
  if (s.target? p).isSome then s.erase p.key else s

/-- Carries out purges in turn: the bindings that they remove and the store they leave. -/
def purgeEach (s : Store α) : List Purge → List (String × Entry α) × Store α
  | [] => ([], s)
  | p :: ps =>
    let rest := (s.purge p).purgeEach ps
    (((s.target? p).map fun e => (p.key, e)).toList ++ rest.1, rest.2)

/-- The requests that remove every entry expired at `now`; marking removes nothing. -/
def mark (s : Store α) (now : Int) : List Purge :=
  (s.bindings.filter (·.2.isExpired now)).map fun b => ⟨b.1, b.2.expiresAt⟩

/-- Marks at `now` and purges mark by mark. -/
def sweep (s : Store α) (now : Int) : List (String × Entry α) × Store α :=
  s.purgeEach (s.mark now)

end Store

end ExpiringCache
