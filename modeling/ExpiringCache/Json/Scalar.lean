import ExpiringCache.Json.Number
import ExpiringCache.Json.Text

/-! Reading a value of which only the kind is expected. A scalar is read whole; of a list or
an object nothing is read beyond its kind. -/

namespace ExpiringCache.Json

/-- What the text begins with. -/
def readFound (cs : List Char) : Except Fault (Found × List Char) :=
  match cs with
  | [] => .error (.here .endInValue [])
  | 'n' :: r => (skipWord ['u', 'l', 'l'] r).map fun r => (.null, r)
  | 't' :: r => (skipWord ['r', 'u', 'e'] r).map fun r => (.boolean true, r)
  | 'f' :: r => (skipWord ['a', 'l', 's', 'e'] r).map fun r => (.boolean false, r)
  | '"' :: r => (readText r).map fun t => (.text (String.ofList t.1), t.2)
  | '[' :: _ => .ok (.sequence, cs)
  | '\x7b' :: _ => .ok (.map, cs)
  | c :: _ =>
    if c = '-' ∨ c.isDigit then
      (readNumber cs).map fun
        | (.integer n, r) => (.integer n, r)
        | (.float x, r) => (.float x, r)
    else .error (.next .expectedValue cs)

theorem length_readFound_le {cs r : List Char} {f : Found} (h : readFound cs = .ok (f, r)) :
    r.length ≤ cs.length := by
  unfold readFound at h
  split at h
  · cases h
  · obtain ⟨q, hq, hr⟩ := map_eq_ok h
    cases hr
    exact Nat.le_succ_of_le (length_skipWord_le hq)
  · obtain ⟨q, hq, hr⟩ := map_eq_ok h
    cases hr
    exact Nat.le_succ_of_le (length_skipWord_le hq)
  · obtain ⟨q, hq, hr⟩ := map_eq_ok h
    cases hr
    exact Nat.le_succ_of_le (length_skipWord_le hq)
  · obtain ⟨q, hq, hr⟩ := map_eq_ok h
    cases hr
    exact Nat.le_succ_of_le (Nat.le_of_lt (length_readText_lt hq))
  · cases h
    exact Nat.le_refl _
  · cases h
    exact Nat.le_refl _
  · split at h
    · obtain ⟨⟨n, q⟩, hq, hr⟩ := map_eq_ok h
      have := length_readNumber_lt hq
      cases n <;> cases hr <;> exact Nat.le_of_lt this
    · cases h

/-- A value of one kind, read off what was found; `expected` names the kind. -/
def readAs {β : Type} (expected : String) (value? : Found → Option β) : Reader β := fun cs => do
  let (found, r) ← readFound (skipBlank cs)
  match value? found with
  | some v => return (v, r)
  | none => .error (.here (.wrongType found expected) r)

/-- An integer that 64 bits hold with its sign. -/
def readInteger : Reader Int := fun cs => do
  let (n, r) ← readAs "i64" (fun | .integer n => some n | _ => none) cs
  if -9223372036854775808 ≤ n ∧ n ≤ 9223372036854775807 then return (n, r)
  else .error (.here (.wrongValue (.integer n) "i64") r)

def readString : Reader String := readAs "a string" fun | .text s => some s | _ => none

theorem length_readAs_le {β : Type} {expected : String} {value? : Found → Option β}
    {cs r : List Char} {v : β} (h : readAs expected value? cs = .ok (v, r)) :
    r.length ≤ cs.length := by
  obtain ⟨⟨f, q⟩, hq, h⟩ := bind_eq_ok h
  have := length_readFound_le hq
  have := length_skipBlank_le cs
  simp only at h
  split at h
  · cases h
    omega
  · cases h

theorem length_readInteger_le {cs r : List Char} {n : Int} (h : readInteger cs = .ok (n, r)) :
    r.length ≤ cs.length := by
  obtain ⟨⟨m, q⟩, hq, h⟩ := bind_eq_ok h
  simp only at h
  split at h
  · cases h
    exact length_readAs_le hq
  · cases h

theorem length_readString_le {cs r : List Char} {s : String} (h : readString cs = .ok (s, r)) :
    r.length ≤ cs.length := length_readAs_le h

end ExpiringCache.Json
