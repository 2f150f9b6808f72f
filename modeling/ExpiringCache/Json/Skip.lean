import ExpiringCache.Json.Numeral
import ExpiringCache.Json.Text

/-! Skipping a value, however deep it is nested. The open brackets are kept in a list, so
depth costs no recursion, and what is needed next is either a value, the first item of a
bracket or its end, an item, or what may follow a value. -/

namespace ExpiringCache.Json

def Bracket.closing : Bracket → Char
  | .list => ']'
  | .object => '\x7d'

/-- Skips the literal, number or string that the text begins with. -/
def skipScalar (cs : List Char) : Except Fault (List Char) :=
  match cs with
  | 'n' :: r => skipWord ['u', 'l', 'l'] r
  | 't' :: r => skipWord ['r', 'u', 'e'] r
  | 'f' :: r => skipWord ['a', 'l', 's', 'e'] r
  | '"' :: r => skipText r
  | c :: _ =>
    if c = '-' ∨ c.isDigit then (readNumeral .invalidNumber cs).map (·.2)
    else .error (.next .expectedValue cs)
  | [] => .error (.here .endInValue [])

theorem length_skipScalar_lt {cs r : List Char} (h : skipScalar cs = .ok r) :
    r.length < cs.length := by
  unfold skipScalar at h
  split at h
  · exact Nat.lt_succ_of_le (length_skipWord_le h)
  · exact Nat.lt_succ_of_le (length_skipWord_le h)
  · exact Nat.lt_succ_of_le (length_skipWord_le h)
  · exact Nat.lt_succ_of_lt (length_skipText_lt h)
  · split at h
    · obtain ⟨⟨n, q⟩, hq, hr⟩ := map_eq_ok h
      cases hr
      exact length_readNumeral_lt hq
    · cases h
  · cases h

/-- Skips a key with the colon after it. -/
def skipKey (cs : List Char) : Except Fault (List Char) :=
  match skipBlank cs with
  | [] => .error (.here (.endIn .object) [])
  | '"' :: r => skipText r >>= skipColon
  | r => .error (.next .keyNotString r)

theorem length_skipKey_lt {cs r : List Char} (h : skipKey cs = .ok r) :
    r.length < cs.length := by
  unfold skipKey at h
  split at h
  · cases h
  · obtain ⟨q, hq, h⟩ := bind_eq_ok h
    have := length_lt_of_skipBlank_eq_cons ‹_›
    have := length_skipText_lt hq
    have := length_skipColon_lt h
    omega
  · cases h

/-- What is needed next. -/
inductive Need where
  | value
  | start (b : Bracket)
  | item (b : Bracket)
  | more
deriving DecidableEq, Repr

/-- How often the need can still change before a character is read. -/
def Need.rank : Need → Nat
  | value | more => 0
  | item _ => 1
  | start _ => 2

/-- Skips to the end of the value that is under way; `stack` holds the brackets open
around what is needed, innermost first. -/
def skipFrom (need : Need) (stack : List Bracket) (cs : List Char) : Except Fault (List Char) :=
  match need with
  | .value =>
    match _ : skipBlank cs with
    | [] => .error (.here .endInValue [])
    | '[' :: r => skipFrom (.start .list) stack r
    | '\x7b' :: r => skipFrom (.start .object) stack r
    | c :: r =>
      match _ : skipScalar (c :: r) with
      | .ok r => skipFrom .more stack r
      | .error e => .error e
  | .start b =>
    match _ : skipBlank cs with
    | [] => .error (.here (.endIn b) [])
    | c :: r =>
      if c = b.closing then skipFrom .more stack r else skipFrom (.item b) stack (c :: r)
  | .item .list => skipFrom .value (.list :: stack) cs
  | .item .object =>
    match _ : skipKey cs with
    | .ok r => skipFrom .value (.object :: stack) r
    | .error e => .error e
  | .more =>
    match stack with
    | [] => .ok cs
    | b :: stack =>
      match _ : skipBlank cs with
      | [] => .error (.here (.endIn b) [])
      | c :: r =>
        if c = ',' then skipFrom (.item b) stack r
        else if c = b.closing then skipFrom .more stack r
        else .error (.next (.expectedCommaOrEnd b) (c :: r))
termination_by 4 * cs.length + need.rank
decreasing_by
  all_goals simp only [Need.rank, List.length_cons]
  · have := length_lt_of_skipBlank_eq_cons ‹_›
    omega
  · have := length_lt_of_skipBlank_eq_cons ‹_›
    omega
  · have := length_lt_of_skipBlank_eq_cons ‹_›
    have := length_skipScalar_lt ‹_›
    rw [List.length_cons] at this
    omega
  · have := length_lt_of_skipBlank_eq_cons ‹_›
    omega
  · have := length_lt_of_skipBlank_eq_cons ‹_›
    omega
  · omega
  · have := length_skipKey_lt ‹_›
    omega
  · have := length_lt_of_skipBlank_eq_cons ‹_›
    omega
  · have := length_lt_of_skipBlank_eq_cons ‹_›
    omega

/-- Skips a value. -/
def skipValue (cs : List Char) : Except Fault (List Char) := skipFrom .value [] cs

theorem length_skipFrom_le {need : Need} {stack : List Bracket} {cs r : List Char}
    (h : skipFrom need stack cs = .ok r) : r.length ≤ cs.length := by
  fun_induction skipFrom need stack cs with
  | case1 | case5 | case6 | case11 | case13 | case16 => cases h
  | case2 _ _ _ hcs ih | case3 _ _ _ hcs ih | case7 _ _ _ _ hcs ih | case14 _ _ _ _ hcs ih =>
    exact Nat.le_of_lt (Nat.lt_of_le_of_lt (ih h) (length_lt_of_skipBlank_eq_cons hcs))
  | case15 _ _ _ _ hcs _ ih =>
    exact Nat.le_of_lt (Nat.lt_of_le_of_lt (ih h) (length_lt_of_skipBlank_eq_cons hcs))
  | case4 _ _ _ _ _ _ hcs _ hscalar ih =>
    have := length_lt_of_skipBlank_eq_cons hcs
    have := length_skipScalar_lt hscalar
    rw [List.length_cons] at this
    have := ih h
    omega
  | case8 _ _ _ _ _ hcs _ ih =>
    have := length_lt_of_skipBlank_eq_cons hcs
    have := ih h
    rw [List.length_cons] at this
    omega
  | case9 _ _ ih => exact ih h
  | case10 _ _ _ hkey ih => exact Nat.le_trans (ih h) (Nat.le_of_lt (length_skipKey_lt hkey))
  | case12 =>
    cases h
    exact Nat.le_refl _

theorem length_skipValue_le {cs r : List Char} (h : skipValue cs = .ok r) :
    r.length ≤ cs.length := length_skipFrom_le h

end ExpiringCache.Json
