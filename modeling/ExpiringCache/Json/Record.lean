import ExpiringCache.Json.Scalar
import ExpiringCache.Json.Skip

/-! Reading a record of one field. It is written as an object that holds the field once,
among any other members, which are skipped, or as a list of the field's value alone. A
member's key counts as what its escapes stand for. -/

namespace ExpiringCache.Json

/-- The field of a record: the record's name, the key, and the reader of the value. -/
structure Field (β : Type) where
  record : String
  key : String
  read : Reader β
  length_read_le : ∀ {cs r v}, read cs = .ok (v, r) → r.length ≤ cs.length

/-- What a refusal says was expected in place of the record. -/
def Field.expectation {β : Type} (f : Field β) : String := "struct " ++ f.record

variable {β : Type}

/-- The next key of an object, or none at its end. -/
def readKey (isFirst : Bool) (cs : List Char) : Except Fault (Option (List Char) × List Char) :=
  match skipBlank cs with
  | [] => .error (.here (.endIn .object) [])
  | '\x7d' :: r => .ok (none, r)
  | c :: r =>
    if isFirst then
      if c = '"' then (readText r).map fun t => (some t.1, t.2)
      else .error (.next .keyNotString (c :: r))
    else if c = ',' then
      match skipBlank r with
      | [] => .error (.here .endInValue [])
      | '\x7d' :: r => .error (.next .trailingComma ('\x7d' :: r))
      | '"' :: r => (readText r).map fun t => (some t.1, t.2)
      | r => .error (.next .keyNotString r)
    else .error (.next (.expectedCommaOrEnd .object) (c :: r))

theorem length_readKey_lt {isFirst : Bool} {cs r : List Char} {k : Option (List Char)}
    (h : readKey isFirst cs = .ok (k, r)) : r.length < cs.length := by
  unfold readKey at h
  split at h
  · cases h
  · cases h
    exact length_lt_of_skipBlank_eq_cons ‹_›
  · have hcs := length_lt_of_skipBlank_eq_cons ‹_›
    split at h
    · split at h
      · obtain ⟨t, ht, hr⟩ := map_eq_ok h
        cases hr
        exact Nat.lt_trans (length_readText_lt ht) hcs
      · cases h
    · split at h
      · split at h
        · cases h
        · cases h
        · obtain ⟨t, ht, hr⟩ := map_eq_ok h
          cases hr
          have := length_lt_of_skipBlank_eq_cons ‹_›
          have := length_readText_lt ht
          omega
        · cases h
      · cases h

/-- Where a fault of the object's content is reported: past the blanks, and past the end
of the object if it follows. -/
def skipEnd (cs : List Char) : List Char :=
  match skipBlank cs with
  | '\x7d' :: r => r
  | r => r

/-- Reads the members up to the end of the object; `found` is the field's value if it has
been read. -/
def readMembers (f : Field β) (found : Option β) (isFirst : Bool) (cs : List Char) :
    Except Fault (β × List Char) :=
  match _ : readKey isFirst cs with
  | .error e => .error e
  | .ok (none, r) =>
    match found with
    | some v => .ok (v, r)
    | none => .error (.here (.missingField f.key) r)
  | .ok (some key, r) =>
    if key = f.key.toList then
      if found.isSome then .error (.here (.duplicateField f.key) (skipEnd r))
      else
        match _ : skipColon r >>= f.read with
        | .error e => .error e
        | .ok (v, r) => readMembers f (some v) false r
    else
      match _ : skipColon r >>= skipValue with
      | .error e => .error e
      | .ok r => readMembers f found false r
termination_by cs.length
decreasing_by
  · have := length_readKey_lt ‹_›
    obtain ⟨q, hq, h⟩ := bind_eq_ok ‹_›
    have := length_skipColon_lt hq
    have := f.length_read_le h
    omega
  · have := length_readKey_lt ‹_›
    obtain ⟨q, hq, h⟩ := bind_eq_ok ‹_›
    have := length_skipColon_lt hq
    have := length_skipValue_le h
    omega

/-- Reads the only element of a list up to its end. -/
def readElement (f : Field β) (cs : List Char) : Except Fault (β × List Char) :=
  match skipBlank cs with
  | [] => .error (.here (.endIn .list) [])
  | ']' :: r => .error (.here (.wrongLength 0 (f.expectation ++ " with 1 element")) r)
  | r => do
    let (v, r) ← f.read r
    match skipBlank r with
    | [] => .error (.here (.endIn .list) [])
    | ']' :: r => return (v, r)
    | ',' :: r =>
      match skipBlank r with
      | ']' :: r => .error (.next .trailingComma (']' :: r))
      | r => .error (.next .trailingText r)
    | r => .error (.next .trailingText r)

/-- Reads the record. -/
def readRecord (f : Field β) (cs : List Char) : Except Fault (β × List Char) :=
  match skipBlank cs with
  | '\x7b' :: r => readMembers f none true r
  | '[' :: r => readElement f r
  | r => do
    let (found, r) ← readFound r
    .error (.here (.wrongType found f.expectation) r)

/-- Reads a document that holds the record and nothing else. -/
def readDocument (f : Field β) (cs : List Char) : Except Fault β := do
  let (v, r) ← readRecord f cs
  match skipBlank r with
  | [] => return v
  | r => .error (.next .trailingText r)

/-- The field's value in a text, or why and where the text is refused. -/
def parse (f : Field β) (text : String) : Except Refusal β :=
  (readDocument f text.toList).mapError fun e => e.locate text.toList

end ExpiringCache.Json
