import ExpiringCache.Cache.Basic

/-! Several callers that load one key together. All of them look the key up before any of
them can take the lock; if it is absent they then take the lock one after the other. Each
looks again there, so a value that one of them has loaded serves the rest, and after a
failure the next one runs its own loader. -/

namespace ExpiringCache

universe u

variable {α : Type u}

/-- How many loaders ran, and what each caller got in the order of the lock. -/
structure Raced (α : Type u) where
  loads : Nat
  results : List (Outcome α)
deriving DecidableEq, Repr

namespace Cache

/-- The lookups of `n` callers, none of which changes what the next one finds. -/
def lookupBy (c : Cache α) (key : String) : Nat → Cache α
  | 0 => c
  | n + 1 => (c.lookup key).2.lookupBy key n

/-- `n` callers under the lock in turn, when `runs` loaders have run before them. Each run
of a loader takes the next turn of the script. -/
def lockedLoads (c : Cache α) (key : String) (script : Script (Loader α)) (runs : Nat) :
    Nat → Raced α × Cache α
  | 0 => (⟨runs, []⟩, c)
  | n + 1 =>
    let (first, c) := c.lockedLoad key (script.nth runs)
    let (others, c) := c.lockedLoads key script (if first.ran then runs + 1 else runs) n
    (⟨others.loads, first.outcome :: others.results⟩, c)

/-- The callers keep journals of their own. -/
def race (c : Cache α) (key : String) (n : Nat) (script : Script (Loader α)) :
    Raced α × Cache α :=
  let waiting := { c.lookupBy key n with journal := c.journal }
  match (c.lookup key).1 with
  | some v => (⟨0, List.replicate n (.value v)⟩, waiting)
  | none => waiting.lockedLoads key script 0 n

end Cache

end ExpiringCache
