import ExpiringCache.Json.Reader

/-! Numerals: an optional minus, digits without a leading zero, and optionally a fraction
and an exponent. Reading one only finds its parts. What is missing at the end of the text
is reported as the caller says; anywhere else the numeral is malformed. -/

namespace ExpiringCache.Json

/-- The parts of a numeral. No fraction is an empty one; an exponent has its sign and its
digits. -/
structure Numeral where
  negative : Bool
  whole : List Char
  fraction : List Char
  exponent : Option (Bool × List Char)
deriving DecidableEq, Repr

def readMinus : List Char → Bool × List Char
  | '-' :: cs => (true, cs)
  | cs => (false, cs)

def readWhole (atEnd : Cause) : Reader (List Char)
  | [] => .error (.here atEnd [])
  | '0' :: cs =>
    if (cs.head?.any Char.isDigit) then .error (.next .invalidNumber cs) else .ok (['0'], cs)
  | c :: cs =>
    if c.isDigit then .ok (c :: cs.takeWhile Char.isDigit, cs.dropWhile Char.isDigit)
    else .error ⟨.invalidNumber, c :: cs, 1⟩

def readFraction (atEnd : Cause) : Reader (List Char)
  | '.' :: cs =>
    match cs.takeWhile Char.isDigit with
    | [] => .error (.next (if cs.isEmpty then atEnd else .invalidNumber) cs)
    | digits => .ok (digits, cs.dropWhile Char.isDigit)
  | cs => .ok ([], cs)

/-- The sign of an exponent: whether it is negative. -/
def readSign : List Char → Bool × List Char
  | '-' :: cs => (true, cs)
  | '+' :: cs => (false, cs)
  | cs => (false, cs)

def readExponent (atEnd : Cause) (cs : List Char) :
    Except Fault (Option (Bool × List Char) × List Char) :=
  match cs with
  | [] => .ok (none, [])
  | c :: cs =>
    if c = 'e' ∨ c = 'E' then
      let (negative, cs) := readSign cs
      match cs with
      | [] => .error (.here atEnd [])
      | c :: cs =>
        if c.isDigit then
          .ok (some (negative, c :: cs.takeWhile Char.isDigit), cs.dropWhile Char.isDigit)
        else .error ⟨.invalidNumber, c :: cs, 1⟩
    else .ok (none, c :: cs)

def readNumeral (atEnd : Cause) (cs : List Char) : Except Fault (Numeral × List Char) := do
  let (whole, r) ← readWhole atEnd (readMinus cs).2
  let (fraction, r) ← readFraction atEnd r
  let (exponent, r) ← readExponent atEnd r
  return (⟨(readMinus cs).1, whole, fraction, exponent⟩, r)

private theorem length_readMinus_le (cs : List Char) : (readMinus cs).2.length ≤ cs.length := by
  unfold readMinus
  split
  · exact Nat.le_succ _
  · exact Nat.le_refl _

private theorem length_readSign_le (cs : List Char) : (readSign cs).2.length ≤ cs.length := by
  unfold readSign
  split
  · exact Nat.le_succ _
  · exact Nat.le_succ _
  · exact Nat.le_refl _

private theorem length_dropDigits_le (cs : List Char) :
    (cs.dropWhile Char.isDigit).length ≤ cs.length := (List.dropWhile_sublist _).length_le

private theorem length_readWhole_lt {atEnd : Cause} {cs ds r : List Char}
    (h : readWhole atEnd cs = .ok (ds, r)) : r.length < cs.length := by
  unfold readWhole at h
  split at h
  · cases h
  · split at h
    · cases h
    · cases h
      exact Nat.lt_succ_self _
  · split at h
    · cases h
      exact Nat.lt_succ_of_le (length_dropDigits_le _)
    · cases h

private theorem length_readFraction_le {atEnd : Cause} {cs ds r : List Char}
    (h : readFraction atEnd cs = .ok (ds, r)) : r.length ≤ cs.length := by
  unfold readFraction at h
  split at h
  · split at h
    · cases h
    · cases h
      exact Nat.le_succ_of_le (length_dropDigits_le _)
  · cases h
    exact Nat.le_refl _

private theorem length_readExponent_le {atEnd : Cause} {cs r : List Char}
    {e : Option (Bool × List Char)} (h : readExponent atEnd cs = .ok (e, r)) :
    r.length ≤ cs.length := by
  unfold readExponent at h
  split at h
  · cases h
    exact Nat.le_refl _
  · rename_i c cs
    have hsign := length_readSign_le cs
    split at h
    · simp only at h
      split at h
      · cases h
      · rename_i hcs
        rw [hcs, List.length_cons] at hsign
        split at h
        · cases h
          rename_i ds _
          have := length_dropDigits_le ds
          rw [List.length_cons]
          omega
        · cases h
    · cases h
      exact Nat.le_refl _

theorem length_readNumeral_lt {atEnd : Cause} {cs r : List Char} {n : Numeral}
    (h : readNumeral atEnd cs = .ok (n, r)) : r.length < cs.length := by
  obtain ⟨⟨whole, cs₁⟩, h₁, h⟩ := bind_eq_ok h
  obtain ⟨⟨fraction, cs₂⟩, h₂, h⟩ := bind_eq_ok h
  obtain ⟨⟨exponent, cs₃⟩, h₃, h⟩ := bind_eq_ok h
  cases h
  have := length_readMinus_le cs
  have := length_readWhole_lt h₁
  have := length_readFraction_le h₂
  have := length_readExponent_le h₃
  omega

end ExpiringCache.Json
