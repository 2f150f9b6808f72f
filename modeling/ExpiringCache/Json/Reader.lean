import ExpiringCache.Json.Fault

/-! Readers, and the parts of a document that have no content of their own. -/

namespace ExpiringCache.Json

/-- A reader takes something off the front of a text and returns what is left. -/
abbrev Reader (β : Type) := List Char → Except Fault (β × List Char)

theorem map_eq_ok {ε β γ : Type} {f : β → γ} {x : Except ε β} {c : γ} (h : x.map f = .ok c) :
    ∃ b, x = .ok b ∧ f b = c := by
  cases x with
  | error e => cases h
  | ok b => exact ⟨b, rfl, Except.ok.inj h⟩

theorem bind_eq_ok {ε β γ : Type} {f : β → Except ε γ} {x : Except ε β} {c : γ}
    (h : (x >>= f) = .ok c) : ∃ b, x = .ok b ∧ f b = .ok c := by
  cases x with
  | error e => cases h
  | ok b => exact ⟨b, rfl, h⟩

/-- The characters that may stand between the parts of a document. -/
def isBlank (c : Char) : Bool := c == ' ' || c == '\t' || c == '\n' || c == '\r'

def skipBlank (cs : List Char) : List Char := cs.dropWhile isBlank

theorem length_skipBlank_le (cs : List Char) : (skipBlank cs).length ≤ cs.length :=
  (List.dropWhile_sublist _).length_le

theorem length_lt_of_skipBlank_eq_cons {cs r : List Char} {c : Char}
    (h : skipBlank cs = c :: r) : r.length < cs.length := by
  have := length_skipBlank_le cs
  rw [h, List.length_cons] at this
  exact this

/-- Reads the rest of a word whose first letter has been read. -/
def skipWord : List Char → List Char → Except Fault (List Char)
  | [], cs => .ok cs
  | _ :: _, [] => .error (.here .endInValue [])
  | w :: ws, c :: cs => if c = w then skipWord ws cs else .error ⟨.expectedLiteral, c :: cs, 1⟩

theorem length_skipWord_le {ws cs r : List Char} (h : skipWord ws cs = .ok r) :
    r.length ≤ cs.length := by
  induction ws generalizing cs with
  | nil =>
    cases h
    exact Nat.le_refl _
  | cons w ws ih =>
    cases cs with
    | nil => cases h
    | cons c cs =>
      rw [skipWord] at h
      split at h
      · exact Nat.le_succ_of_le (ih h)
      · cases h

/-- Reads the colon between a key and its value. -/
def skipColon (cs : List Char) : Except Fault (List Char) :=
  match skipBlank cs with
  | [] => .error (.here (.endIn .object) [])
  | ':' :: r => .ok r
  | r => .error (.next .expectedColon r)

theorem length_skipColon_lt {cs r : List Char} (h : skipColon cs = .ok r) :
    r.length < cs.length := by
  unfold skipColon at h
  split at h
  · cases h
  · cases h
    exact length_lt_of_skipBlank_eq_cons ‹_›
  · cases h

end ExpiringCache.Json
