/-! Instants and durations, and the deadline of a duration. An instant is a whole number
of nanoseconds on either side of a fixed zero, a duration a number of nanoseconds from
zero up, and both have a largest value. A deadline is the exact sum wherever an instant
can hold it; past that it saturates, first at a century, then at the instant it counts
from. Main statements: a deadline never lies before the instant it counts from
(`le_deadline`), never after the exact sum (`deadline_le_add`), and is a valid instant
whenever that instant is (`deadline_isInstant`). -/

namespace ExpiringCache.Time

/-- One second in nanoseconds. -/
abbrev second : Nat := 1000000000

/-- One millisecond in nanoseconds. -/
abbrev millisecond : Nat := 1000000

/-- The first instant that can be represented: its whole seconds are a signed number of 64
bits. -/
def earliest : Int := -9223372036854775808 * second

/-- The last instant that can be represented. -/
def latest : Int := 9223372036854775808 * second - 1

/-- The longest duration that can be represented: its whole seconds are an unsigned number
of 64 bits. -/
def longest : Nat := 18446744073709551616 * second - 1

/-- Where a deadline saturates when the exact one cannot be represented: a hundred years
of 365 days. -/
def century : Nat := 100 * 365 * 24 * 60 * 60 * second

def IsInstant (t : Int) : Prop := earliest ≤ t ∧ t ≤ latest

def IsDuration (d : Nat) : Prop := d ≤ longest

instance (t : Int) : Decidable (IsInstant t) := inferInstanceAs (Decidable (_ ∧ _))

instance (d : Nat) : Decidable (IsDuration d) := inferInstanceAs (Decidable (_ ≤ _))

/-- The instant `after` later than `now`. One that is out of range counts at most
`century` instead, and `now` itself stands in where that is out of range too. -/
def deadline (now : Int) (after : Nat) : Int :=
  if now + after ≤ latest then now + after
  else if now + (min after century : Nat) ≤ latest then now + (min after century : Nat)
  else now

theorem deadline_eq_add {now : Int} {after : Nat} (h : now + after ≤ latest) :
    deadline now after = now + after := if_pos h

theorem le_deadline (now : Int) (after : Nat) : now ≤ deadline now after := by
  unfold deadline
  split
  · omega
  · split <;> omega

theorem deadline_le_add (now : Int) (after : Nat) : deadline now after ≤ now + after := by
  unfold deadline
  split
  · omega
  · split <;> omega

theorem deadline_isInstant {now : Int} (h : IsInstant now) (after : Nat) :
    IsInstant (deadline now after) := by
  have hle := le_deadline now after
  obtain ⟨h₁, h₂⟩ := h
  refine ⟨by omega, ?_⟩
  unfold deadline
  split
  · assumption
  · split <;> assumption

end ExpiringCache.Time
