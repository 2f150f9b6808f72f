import ExpiringCache.Json.Reader

/-! Strings of a JSON document, read from just after the opening quote. A character stands
for itself, or is written by an escape: one letter, or `u` with the four hexadecimal digits of
a UTF-16 code unit. A character beyond the first plane takes two units, a leading and a
trailing one. A string that is only skipped need not pair its units. In a string that is
written only the quote, the backslash and the control characters below the space are escaped,
the last by a letter where there is one; every other character stands for itself. -/

namespace ExpiringCache.Json

/-! ### Reading -/

def hexValue? (c : Char) : Option Nat :=
  if '0' ≤ c ∧ c ≤ '9' then some (c.toNat - 48)
  else if 'a' ≤ c ∧ c ≤ 'f' then some (c.toNat - 87)
  else if 'A' ≤ c ∧ c ≤ 'F' then some (c.toNat - 55)
  else none

/-- The code unit that the first four characters write. -/
def readUnit (cs : List Char) : Except Fault Nat :=
  if byteSize (cs.take 4) < 4 then .error (.here .endInString [])
  else
    match cs.take 4 |>.mapM hexValue? with
    | some ds => .ok (ds.foldl (fun n d => 16 * n + d) 0)
    | none => .error ⟨.invalidEscape, cs, 4⟩

def isLeading (u : Nat) : Bool := 0xd800 ≤ u && u < 0xdc00

def isTrailing (u : Nat) : Bool := 0xdc00 ≤ u && u < 0xe000

/-- The character of a leading and a trailing unit. -/
def pairedChar (u v : Nat) : Char := .ofNat (0x10000 + (u - 0xd800) * 0x400 + (v - 0xdc00))

/-- The character that one letter after a backslash stands for. -/
def letterEscape? : Char → Option Char
  | '"' => some '"'
  | '\\' => some '\\'
  | '/' => some '/'
  | 'b' => some '\x08'
  | 'f' => some '\x0c'
  | 'n' => some '\n'
  | 'r' => some '\r'
  | 't' => some '\t'
  | _ => none

/-- The trailing unit that has to follow a leading one, written as an escape of its own. -/
def readTrailing : List Char → Except Fault Nat
  | [] | ['\\'] => .error (.here .endInString [])
  | '\\' :: 'u' :: cs => do
    let v ← readUnit cs
    if isTrailing v then return v else .error (.here .loneSurrogate (cs.drop 4))
  | '\\' :: cs | cs => .error ⟨.unpairedSurrogate, cs, 1⟩

/-- What stands after a backslash: the character, and how many characters write it. -/
def readEscape : List Char → Except Fault (Char × Nat)
  | [] => .error (.here .endInString [])
  | 'u' :: cs => do
    let u ← readUnit cs
    if isTrailing u then .error (.here .loneSurrogate (cs.drop 4))
    else if isLeading u then return (pairedChar u (← readTrailing (cs.drop 4)), 11)
    else return (.ofNat u, 5)
  | c :: cs =>
    match letterEscape? c with
    | some d => .ok (d, 1)
    | none => .error ⟨.invalidEscape, c :: cs, 1⟩

/-- The characters of a string. -/
def readText (cs : List Char) : Except Fault (List Char × List Char) :=
  match cs with
  | [] => .error (.here .endInString [])
  | c :: cs =>
    if c = '"' then .ok ([], cs)
    else if c = '\\' then
      match readEscape cs with
      | .ok (d, n) => (readText (cs.drop n)).map fun r => (d :: r.1, r.2)
      | .error e => .error e
    else if c.toNat < 32 then .error ⟨.controlCharacter, c :: cs, 1⟩
    else (readText cs).map fun r => (c :: r.1, r.2)
termination_by cs.length
decreasing_by all_goals simp only [List.length_cons, List.length_drop]; omega

theorem length_readText_lt {cs s r : List Char} (h : readText cs = .ok (s, r)) :
    r.length < cs.length := by
  fun_induction readText cs generalizing s with
  | case1 => cases h
  | case2 cs => cases h; exact Nat.lt_succ_self _
  | case3 cs d n _ _ ih =>
    obtain ⟨q, hq, hr⟩ := map_eq_ok h
    cases hr
    have := ih hq
    rw [List.length_drop] at this
    rw [List.length_cons]
    omega
  | case4 => cases h
  | case5 => cases h
  | case6 c cs _ _ _ ih =>
    obtain ⟨q, hq, hr⟩ := map_eq_ok h
    cases hr
    exact Nat.lt_succ_of_lt (ih hq)

/-- How many characters the escape after a backslash takes. -/
def skipEscape : List Char → Except Fault Nat
  | [] => .error (.here .endInString [])
  | 'u' :: cs => (readUnit cs).map fun _ => 5
  | c :: cs =>
    match letterEscape? c with
    | some _ => .ok 1
    | none => .error ⟨.invalidEscape, c :: cs, 1⟩

/-- What follows a string. -/
def skipText (cs : List Char) : Except Fault (List Char) :=
  match cs with
  | [] => .error (.here .endInString [])
  | c :: cs =>
    if c = '"' then .ok cs
    else if c = '\\' then
      match skipEscape cs with
      | .ok n => skipText (cs.drop n)
      | .error e => .error e
    else if c.toNat < 32 then .error (.here .controlCharacter (c :: cs))
    else skipText cs
termination_by cs.length
decreasing_by all_goals simp only [List.length_cons, List.length_drop]; omega

theorem length_skipText_lt {cs r : List Char} (h : skipText cs = .ok r) :
    r.length < cs.length := by
  fun_induction skipText cs with
  | case1 => cases h
  | case2 cs => cases h; exact Nat.lt_succ_self _
  | case3 cs n _ _ ih =>
    have := ih h
    rw [List.length_drop] at this
    rw [List.length_cons]
    omega
  | case4 => cases h
  | case5 => cases h
  | case6 c cs _ _ _ ih => exact Nat.lt_succ_of_lt (ih h)

/-! ### Writing -/

/-- A hexadecimal digit, in lower case. -/
def hexDigit (n : Nat) : Char :=
  if n < 10 then Char.ofNat (48 + n) else Char.ofNat (87 + n)

def escapeChar (c : Char) : List Char :=
  match c with
  | '"' => ['\\', '"']
  | '\\' => ['\\', '\\']
  | '\x08' => ['\\', 'b']
  | '\x0c' => ['\\', 'f']
  | '\n' => ['\\', 'n']
  | '\r' => ['\\', 'r']
  | '\t' => ['\\', 't']
  | c =>
    if c.toNat < 32 then
      ['\\', 'u', '0', '0', hexDigit (c.toNat / 16), hexDigit (c.toNat % 16)]
    else [c]

def quoteChars (cs : List Char) : List Char := '"' :: cs.flatMap escapeChar ++ ['"']

def quote (s : String) : String := String.ofList (quoteChars s.toList)

end ExpiringCache.Json
