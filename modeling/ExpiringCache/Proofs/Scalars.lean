import ExpiringCache.Documents
import ExpiringCache.Proofs.Grammar

/-! Reading and skipping what has no parts. Blanks are passed over; a string is read as the
characters that it spells, however they are spelled, and skipped up to its closing quote; an
integer is read as itself, provided that nothing follows it that could be part of it. -/

namespace ExpiringCache.Json

/-! ### Blanks -/

theorem isBlank_iff {c : Char} :
    isBlank c = true ↔ c = ' ' ∨ c = '\t' ∨ c = '\n' ∨ c = '\r' := by
  simp only [isBlank, Bool.or_eq_true, beq_iff_eq, or_assoc]

theorem blanks_nil : Blanks [] := by simp [Blanks]

theorem skipBlank_append {a : List Char} (ha : Blanks a) (r : List Char) :
    skipBlank (a ++ r) = skipBlank r :=
  List.dropWhile_append_of_pos fun c hc => isBlank_iff.2 (ha c hc)

theorem skipBlank_cons {c : Char} (hc : isBlank c = false) (r : List Char) :
    skipBlank (c :: r) = c :: r := List.dropWhile_cons_of_neg (by simp [hc])

/-- The characters that may follow a value, none of which a value begins with. -/
def isDelimiter (c : Char) : Bool := isBlank c || c == ',' || c == ']' || c == '\x7d'

theorem not_isDigit_of_isDelimiter {c : Char} (h : isDelimiter c = true) : c.isDigit = false := by
  simp only [isDelimiter, Bool.or_eq_true, isBlank_iff, beq_iff_eq, or_assoc] at h
  rcases h with rfl | rfl | rfl | rfl | rfl | rfl | rfl <;> decide

theorem isBlank_of_isDelimiter {c : Char} (h : isDelimiter c = false) : isBlank c = false := by
  simp only [isDelimiter, Bool.or_eq_false_iff] at h
  exact h.1.1.1

/-- What may follow a value: a delimiter or nothing. -/
def Ends (r : List Char) : Prop := ∀ c ∈ r.head?, isDelimiter c = true

theorem ends_cons {c : Char} (h : isDelimiter c = true) (r : List Char) : Ends (c :: r) := by
  intro d hd
  cases hd
  exact h

theorem Ends.append {b r : List Char} (hr : Ends r) (hb : Blanks b) : Ends (b ++ r) := by
  cases b with
  | nil => exact hr
  | cons c b =>
    have hc : isBlank c = true := isBlank_iff.2 (hb c (.head _))
    exact ends_cons (by simp [isDelimiter, hc]) (b ++ r)

theorem Ends.not_mem_head? {r : List Char} (hr : Ends r) {c : Char} (hc : isDelimiter c = false) :
    c ∉ r.head? := by
  intro h
  have hdelimiter := hr c h
  rw [hc] at hdelimiter
  cases hdelimiter

/-! ### Strings -/

theorem hexValue?_of_isHexDigit {c : Char} {d : Nat} (h : IsHexDigit c d) :
    hexValue? c = some d := by
  have hlower : ∀ d < 16, "0123456789abcdef".toList[d]?.bind hexValue? = some d := by decide
  have hupper : ∀ d < 16, "0123456789ABCDEF".toList[d]?.bind hexValue? = some d := by decide
  rcases h with h | h
  · have hd := hlower d (List.getElem?_eq_some_iff.1 h).1
    rwa [h] at hd
  · have hd := hupper d (List.getElem?_eq_some_iff.1 h).1
    rwa [h] at hd

theorem SpellsUnit.length_eq {u : Nat} {t : List Char} (h : SpellsUnit u t) : t.length = 4 := by
  cases h
  rfl

theorem readUnit_append {u : Nat} {t : List Char} (h : SpellsUnit u t) (r : List Char) :
    readUnit (t ++ r) = .ok u := by
  rw [readUnit, List.take_left' h.length_eq]
  cases h with
  | @digits a b c d w x y z ha hb hc hd =>
    have hsize : ¬byteSize [w, x, y, z] < 4 := by
      have := w.utf8Size_pos
      have := x.utf8Size_pos
      have := y.utf8Size_pos
      have := z.utf8Size_pos
      simp only [byteSize, List.foldr_cons, List.foldr_nil]
      omega
    have hvalues : [w, x, y, z].mapM hexValue? = some [a, b, c, d] := by
      simp [hexValue?_of_isHexDigit ha, hexValue?_of_isHexDigit hb, hexValue?_of_isHexDigit hc,
        hexValue?_of_isHexDigit hd]
    rw [if_neg hsize, hvalues]
    simp only [List.foldl_cons, List.foldl_nil, Except.ok.injEq]
    omega

section Escape

variable {cs : List Char} {c d : Char} {u v : Nat}

theorem readEscape_of_letter (h : letterEscape? c = some d) (cs : List Char) :
    readEscape (c :: cs) = .ok (d, 1) ∧ skipEscape (c :: cs) = .ok 1 := by
  have hc : c ≠ 'u' := by
    rintro rfl
    cases h
  simp [readEscape, skipEscape, h]

theorem readEscape_of_unit (hu : readUnit cs = .ok u) (htrailing : isTrailing u = false)
    (hleading : isLeading u = false) : readEscape ('u' :: cs) = .ok (.ofNat u, 5) := by
  rw [readEscape, hu]
  simp only [bind, Except.bind, htrailing, hleading]
  rfl

theorem readEscape_of_pair (hu : readUnit cs = .ok u) (htrailing : isTrailing u = false)
    (hleading : isLeading u = true) (hv : readTrailing (cs.drop 4) = .ok v) :
    readEscape ('u' :: cs) = .ok (pairedChar u v, 11) := by
  rw [readEscape, hu]
  simp only [bind, Except.bind, htrailing, hleading, hv]
  rfl

end Escape

theorem readEscape_letter {e c : Char} (h : (e, c) ∈ letterEscapes) (r : List Char) :
    readEscape ([e] ++ r) = .ok (c, [e].length) ∧ skipEscape ([e] ++ r) = .ok [e].length := by
  simp only [letterEscapes, List.mem_cons, Prod.mk.injEq, List.not_mem_nil, or_false] at h
  rcases h with ⟨rfl, rfl⟩ | ⟨rfl, rfl⟩ | ⟨rfl, rfl⟩ | ⟨rfl, rfl⟩ | ⟨rfl, rfl⟩ | ⟨rfl, rfl⟩ |
    ⟨rfl, rfl⟩ | ⟨rfl, rfl⟩ <;> exact ⟨rfl, rfl⟩

/-- No character has the code point of a surrogate. -/
theorem not_surrogate (c : Char) : isTrailing c.toNat = false ∧ isLeading c.toNat = false := by
  have hc : c.toNat < 0xd800 ∨ 0xdfff < c.toNat ∧ c.toNat < 0x110000 := c.valid
  simp only [isTrailing, isLeading, Bool.and_eq_false_iff, decide_eq_false_iff_not]
  omega

theorem readEscape_unit {c : Char} {t : List Char} (h : SpellsUnit c.toNat t) (r : List Char) :
    readEscape ('u' :: t ++ r) = .ok (c, ('u' :: t).length) := by
  obtain ⟨htrailing, hleading⟩ := not_surrogate c
  rw [List.cons_append, readEscape_of_unit (readUnit_append h r) htrailing hleading,
    Char.ofNat_toNat, List.length_cons, h.length_eq]

theorem skipEscape_unit {u : Nat} {t : List Char} (h : SpellsUnit u t) (r : List Char) :
    skipEscape ('u' :: t ++ r) = .ok ('u' :: t).length := by
  rw [List.cons_append, skipEscape, readUnit_append h, List.length_cons, h.length_eq]
  rfl

theorem readEscape_pair {c : Char} {u v : Nat} {s t : List Char} (hu : 0xd800 ≤ u ∧ u < 0xdc00)
    (hv : 0xdc00 ≤ v ∧ v < 0xe000) (hc : c.toNat = 0x10000 + (u - 0xd800) * 0x400 + (v - 0xdc00))
    (hs : SpellsUnit u s) (ht : SpellsUnit v t) (r : List Char) :
    readEscape (('u' :: s ++ '\\' :: 'u' :: t) ++ r) =
      .ok (c, ('u' :: s ++ '\\' :: 'u' :: t).length) := by
  have hleading : isLeading u = true := by simp [isLeading, hu]
  have hfirst : isTrailing u = false := by
    simp only [isTrailing, Bool.and_eq_false_iff, decide_eq_false_iff_not]
    omega
  have hsecond : isTrailing v = true := by simp [isTrailing, hv]
  have hpaired : pairedChar u v = c := by rw [pairedChar, ← hc, Char.ofNat_toNat]
  have hlength : ('u' :: s ++ '\\' :: 'u' :: t).length = 11 := by
    simp [hs.length_eq, ht.length_eq]
  have htrailing : readTrailing ('\\' :: 'u' :: t ++ r) = .ok v := by
    rw [List.cons_append, List.cons_append, readTrailing, readUnit_append ht]
    simp only [bind, Except.bind, hsecond]
    rfl
  rw [hlength, List.cons_append, List.cons_append, List.append_assoc, ← hpaired]
  refine readEscape_of_pair (readUnit_append hs _) hfirst hleading ?_
  rw [List.drop_left' hs.length_eq]
  exact htrailing

theorem readText_escape {c : Char} {e r : List Char} (h : readEscape (e ++ r) = .ok (c, e.length)) :
    readText ('\\' :: e ++ r) = (readText r).map fun q => (c :: q.1, q.2) := by
  rw [List.cons_append, readText, if_neg (by decide), if_pos rfl, h]
  simp only [List.drop_left]

theorem skipText_escape {e r : List Char} (h : skipEscape (e ++ r) = .ok e.length) :
    skipText ('\\' :: e ++ r) = skipText r := by
  rw [List.cons_append, skipText, if_neg (by decide), if_pos rfl, h]
  simp only [List.drop_left]

/-- However a character is spelled, it is the next one that is read. -/
theorem readText_char {c : Char} {t : List Char} (h : SpellsChar c t) (r : List Char) :
    readText (t ++ r) = (readText r).map fun q => (c :: q.1, q.2) := by
  cases h with
  | plain hquote hslash hcontrol =>
    rw [List.cons_append, readText, if_neg hquote, if_neg hslash, if_neg (by omega)]
    rfl
  | letter h => exact readText_escape (readEscape_letter h r).1
  | unit h => exact readText_escape (readEscape_unit h r)
  | pair hu hv hc hs ht => exact readText_escape (readEscape_pair hu hv hc hs ht r)

/-- A pair of code units is skipped one by one. -/
theorem skipText_char {c : Char} {t : List Char} (h : SpellsChar c t) (r : List Char) :
    skipText (t ++ r) = skipText r := by
  cases h with
  | plain hquote hslash hcontrol =>
    rw [List.cons_append, skipText, if_neg hquote, if_neg hslash, if_neg (by omega)]
    rfl
  | letter h => exact skipText_escape (readEscape_letter h r).2
  | unit h => exact skipText_escape (skipEscape_unit h r)
  | pair _ _ _ hs ht =>
    rw [List.append_assoc]
    exact (skipText_escape (skipEscape_unit hs _)).trans (skipText_escape (skipEscape_unit ht r))

/-- Characters that need no escape spell themselves. -/
theorem SpellsText.plain {cs : List Char} (h : ∀ c ∈ cs, c ≠ '"' ∧ c ≠ '\\' ∧ 32 ≤ c.toNat) :
    SpellsText cs cs := by
  induction cs with
  | nil => exact .nil
  | cons c cs ih =>
    obtain ⟨hquote, hslash, hcontrol⟩ := h c (.head _)
    exact .cons (.plain hquote hslash hcontrol) (ih fun d hd => h d (.tail _ hd))

/-- A string is read as the characters that it spells. -/
theorem readText_append {cs t : List Char} (h : SpellsText cs t) (r : List Char) :
    readText (t ++ '"' :: r) = .ok (cs, r) := by
  induction h with
  | nil =>
    rw [List.nil_append, readText, if_pos rfl]
  | cons hc _ ih =>
    rw [List.append_assoc, readText_char hc, ih]
    rfl

theorem skipText_append {cs t : List Char} (h : SpellsText cs t) (r : List Char) :
    skipText (t ++ '"' :: r) = .ok r := by
  induction h with
  | nil =>
    rw [List.nil_append, skipText, if_pos rfl]
  | cons hc _ ih => rw [List.append_assoc, skipText_char hc, ih]

/-! ### Integers -/

theorem toList_toString (n : Int) : (toString n).toList =
    (if n < 0 then ['-'] else []) ++ Nat.toDigits 10 n.natAbs := by
  rw [Int.toString_eq_repr, Int.repr_eq_if]
  by_cases hn : n < 0
  · have hnat : (-n).toNat = n.natAbs := by omega
    rw [if_neg (by omega), if_pos hn, hnat, String.toList_append, Nat.toList_repr]
    rfl
  · have hnat : n.toNat = n.natAbs := by omega
    rw [if_pos (by omega), if_neg hn, hnat, Nat.toList_repr, List.nil_append]

/-- Only zero begins with a zero. -/
theorem eq_zero_of_toDigits_eq_cons {n : Nat} {ds : List Char} (h : Nat.toDigits 10 n = '0' :: ds) :
    n = 0 := by
  induction n using Nat.base_induction 10 (by decide) generalizing ds with
  | single m hm =>
    rw [Nat.toDigits_of_lt_base hm] at h
    exact Nat.digitChar_eq_zero.1 (List.cons.inj h).1
  | digit m k hk hm ih =>
    rw [← Nat.toDigits_append_toDigits (by decide) hm hk] at h
    cases hdigits : Nat.toDigits 10 m with
    | nil => exact absurd hdigits Nat.toDigits_ne_nil
    | cons d ds =>
      rw [hdigits] at h
      obtain rfl : d = '0' := (List.cons.inj h).1
      exact absurd (ih hdigits) (by omega)

theorem ofDigits_toDigits (n : Nat) : ofDigits (Nat.toDigits 10 n) = n := by
  rw [ofDigits, digitValues, List.foldl_map]
  exact Nat.ofDigitChars_ten_toDigits

/-- The parts of the numeral of an integer. -/
def Numeral.ofInt (n : Int) : Numeral := ⟨n < 0, Nat.toDigits 10 n.natAbs, [], none⟩

theorem isDigit_of_mem_toDigits {n : Nat} {c : Char} (h : c ∈ Nat.toDigits 10 n) :
    c.isDigit = true := Nat.isDigit_of_mem_toDigits (by decide) (by decide) h

theorem readMinus_toString (n : Int) (r : List Char) :
    readMinus ((toString n).toList ++ r) = (decide (n < 0), Nat.toDigits 10 n.natAbs ++ r) := by
  rw [toList_toString]
  split
  · rename_i hn
    rw [List.append_assoc, List.singleton_append, readMinus, decide_eq_true hn]
  · rename_i hn
    rw [List.nil_append, decide_eq_false hn]
    cases hdigits : Nat.toDigits 10 n.natAbs with
    | nil => exact absurd hdigits Nat.toDigits_ne_nil
    | cons d ds =>
      have hd : d.isDigit = true := isDigit_of_mem_toDigits (n := n.natAbs) (hdigits ▸ .head _)
      rw [List.cons_append, readMinus]
      rintro r' ⟨rfl, -⟩
      exact absurd hd (by decide)

/-- The digits end where the text that follows them begins. -/
theorem digits_append {ds r : List Char} (hds : ∀ c ∈ ds, c.isDigit = true)
    (hr : ∀ c ∈ r.head?, c.isDigit = false) :
    (ds ++ r).takeWhile Char.isDigit = ds ∧ (ds ++ r).dropWhile Char.isDigit = r := by
  rw [List.takeWhile_append_of_pos hds, List.dropWhile_append_of_pos hds]
  cases r with
  | nil => exact ⟨List.append_nil ds, rfl⟩
  | cons c r =>
    have hc : ¬c.isDigit = true := by simp [hr c rfl]
    rw [List.takeWhile_cons_of_neg hc, List.dropWhile_cons_of_neg hc, List.append_nil]
    exact ⟨rfl, rfl⟩

theorem Ends.not_isDigit {r : List Char} (hr : Ends r) : ∀ c ∈ r.head?, c.isDigit = false :=
  fun c hc => not_isDigit_of_isDelimiter (hr c hc)

theorem readWhole_toDigits (atEnd : Cause) (n : Nat) {r : List Char} (hr : Ends r) :
    readWhole atEnd (Nat.toDigits 10 n ++ r) = .ok (Nat.toDigits 10 n, r) := by
  by_cases hn : n = 0
  · subst hn
    have hhead : r.head?.any Char.isDigit = false := by
      cases r with
      | nil => rfl
      | cons c r => exact not_isDigit_of_isDelimiter (hr c rfl)
    rw [Nat.toDigits_zero, List.singleton_append, readWhole, if_neg (by simp [hhead])]
  · cases hdigits : Nat.toDigits 10 n with
    | nil => exact absurd hdigits Nat.toDigits_ne_nil
    | cons d ds =>
      have hmem : ∀ c ∈ d :: ds, c.isDigit = true := fun c hc =>
        isDigit_of_mem_toDigits (n := n) (hdigits ▸ hc)
      have hd : d ≠ '0' := by
        rintro rfl
        exact hn (eq_zero_of_toDigits_eq_cons hdigits)
      obtain ⟨htake, hdrop⟩ := digits_append (fun c hc => hmem c (.tail _ hc)) hr.not_isDigit
      rw [List.cons_append, readWhole, if_pos (hmem d (.head _)), htake, hdrop]
      exact hd

theorem readFraction_of_no_point (atEnd : Cause) {cs : List Char} (h : '.' ∉ cs.head?) :
    readFraction atEnd cs = .ok ([], cs) := by
  unfold readFraction
  split
  · exact absurd rfl h
  · rfl

theorem readFraction_of_ends (atEnd : Cause) {r : List Char} (hr : Ends r) :
    readFraction atEnd r = .ok ([], r) :=
  readFraction_of_no_point atEnd (hr.not_mem_head? (by decide))

theorem readExponent_of_ends (atEnd : Cause) {r : List Char} (hr : Ends r) :
    readExponent atEnd r = .ok (none, r) := by
  have hlower : 'e' ∉ r.head? := hr.not_mem_head? (by decide)
  have hupper : 'E' ∉ r.head? := hr.not_mem_head? (by decide)
  cases r with
  | nil => rfl
  | cons c r =>
    rw [readExponent, if_neg]
    rintro (rfl | rfl)
    · exact hlower rfl
    · exact hupper rfl

/-- An integer is a numeral without fraction and exponent. -/
theorem readNumeral_toString (atEnd : Cause) (n : Int) {r : List Char} (hr : Ends r) :
    readNumeral atEnd ((toString n).toList ++ r) = .ok (.ofInt n, r) := by
  rw [readNumeral, readMinus_toString, readWhole_toDigits atEnd _ hr]
  simp only [bind, Except.bind, readFraction_of_ends atEnd hr, readExponent_of_ends atEnd hr]
  rfl

theorem readNumber_toString {n : Int} (hlow : -9223372036854775808 ≤ n)
    (hhigh : n < 18446744073709551616) {r : List Char} (hr : Ends r) :
    readNumber ((toString n).toList ++ r) = .ok (.integer n, r) := by
  have hnumber : (Numeral.ofInt n).number r = .ok (.integer n) := by
    have hinteger : (Numeral.ofInt n).isInteger = true := rfl
    have hsize : UInt64.size = 18446744073709551616 := rfl
    rw [Numeral.number, hinteger]
    simp only [Numeral.ofInt, ofDigits_toDigits, true_and, hsize]
    by_cases hn : n < 0
    · have hnat : (n.natAbs : Int) = -n := by omega
      rw [if_neg (by simp [hn]), if_pos (by simp only [hn, decide_true, true_and]; omega), hnat,
        Int.neg_neg]
    · have hnat : (n.natAbs : Int) = n := by omega
      have hfits : n.natAbs < 18446744073709551616 := by omega
      rw [if_pos (by simp [hn, hfits]), hnat]
  rw [readNumber, readNumeral_toString _ n hr]
  simp only [bind, Except.bind, hnumber]
  rfl

/-! ### Values -/

theorem toString_eq_cons (n : Int) :
    ∃ c u, (toString n).toList = c :: u ∧ (c = '-' ∨ c.isDigit = true) := by
  rw [toList_toString]
  split
  · exact ⟨_, _, rfl, .inl rfl⟩
  · cases hdigits : Nat.toDigits 10 n.natAbs with
    | nil => exact absurd hdigits Nat.toDigits_ne_nil
    | cons d ds =>
      exact ⟨d, ds, rfl, .inr (isDigit_of_mem_toDigits (n := n.natAbs) (hdigits ▸ .head _))⟩

theorem not_isDelimiter_of_numeral {c : Char} (h : c = '-' ∨ c.isDigit = true) :
    isDelimiter c = false := by
  rcases h with rfl | h
  · decide
  · cases hc : isDelimiter c with
    | false => rfl
    | true =>
      rw [not_isDigit_of_isDelimiter hc] at h
      cases h

/-- The kind of a value, and the value itself if it has no parts. -/
def Value.found : Value → Found
  | .null => .null
  | .boolean b => .boolean b
  | .integer n => .integer n
  | .text s => .text s
  | .list _ => .sequence
  | .object _ => .map

theorem ne_of_numeral {c : Char} (hc : c = '-' ∨ c.isDigit = true) :
    ∀ d ∈ ['n', 't', 'f', '"', '[', '\x7b'], c ≠ d := by
  have hother : ∀ d ∈ ['n', 't', 'f', '"', '[', '\x7b'], ¬(d = '-' ∨ d.isDigit = true) := by simp
  rintro d hd rfl
  exact hother _ hd hc

theorem readFound_of_numeral {c : Char} (hc : c = '-' ∨ c.isDigit = true) (cs : List Char) :
    readFound (c :: cs) = (readNumber (c :: cs)).map fun
      | (.integer n, r) => (.integer n, r)
      | (.float x, r) => (.float x, r) := by
  rw [readFound, if_pos hc]
  all_goals first | rfl | exact ne_of_numeral hc _ (by decide)

theorem skipScalar_of_numeral {c : Char} (hc : c = '-' ∨ c.isDigit = true) (cs : List Char) :
    skipScalar (c :: cs) = (readNumeral .invalidNumber (c :: cs)).map (·.2) := by
  rw [skipScalar, if_pos hc]
  all_goals exact ne_of_numeral hc _ (by decide)

theorem readFound_toString {n : Int} (hlow : -9223372036854775808 ≤ n)
    (hhigh : n < 18446744073709551616) {r : List Char} (hr : Ends r) :
    readFound ((toString n).toList ++ r) = .ok (.integer n, r) := by
  obtain ⟨c, u, ht, hc⟩ := toString_eq_cons n
  have hnumber := readNumber_toString hlow hhigh hr
  rw [ht, List.cons_append] at hnumber
  rw [ht, List.cons_append, readFound_of_numeral hc, hnumber]
  rfl

theorem skipScalar_toString (n : Int) {r : List Char} (hr : Ends r) :
    skipScalar ((toString n).toList ++ r) = .ok r := by
  obtain ⟨c, u, ht, hc⟩ := toString_eq_cons n
  have hnumeral := readNumeral_toString .invalidNumber n hr
  rw [ht, List.cons_append] at hnumeral
  rw [ht, List.cons_append, skipScalar_of_numeral hc, hnumeral]
  rfl

/-- A list or an object. -/
def Value.IsNested : Value → Prop
  | .list _ | .object _ => True
  | _ => False

/-- No value begins with a delimiter, and only a list or an object with a bracket. -/
theorem Spells.eq_cons {v : Value} {t : List Char} (h : Spells (.value v) t) :
    ∃ c u, t = c :: u ∧ isDelimiter c = false ∧ (¬v.IsNested → c ≠ '[' ∧ c ≠ '\x7b') := by
  cases h with
  | null => exact ⟨'n', _, rfl, by decide, fun _ => by decide⟩
  | boolean b =>
    cases b with
    | false => exact ⟨'f', _, rfl, by decide, fun _ => by decide⟩
    | true => exact ⟨'t', _, rfl, by decide, fun _ => by decide⟩
  | @integer n =>
    obtain ⟨c, u, ht, hc⟩ := toString_eq_cons n
    have hne := ne_of_numeral hc
    exact ⟨c, u, ht, not_isDelimiter_of_numeral hc,
      fun _ => ⟨hne _ (by decide), hne _ (by decide)⟩⟩
  | text => exact ⟨_, _, rfl, by decide, fun _ => by decide⟩
  | emptyList | list | emptyObject | object =>
    exact ⟨_, _, rfl, by decide, fun hv => absurd trivial hv⟩

/-- A value may stand without blanks around it. -/
theorem Spells.bare {v : Value} {t : List Char} (h : Spells (.value v) t) :
    Spells (.element v) t := by
  simpa using h.element blanks_nil blanks_nil

theorem skipBlank_value {v : Value} {a t : List Char} (ha : Blanks a) (h : Spells (.value v) t)
    (r : List Char) : skipBlank (a ++ t ++ r) = t ++ r := by
  obtain ⟨c, u, rfl, hc, -⟩ := h.eq_cons
  rw [List.append_assoc, skipBlank_append ha]
  exact skipBlank_cons (isBlank_of_isDelimiter hc) (u ++ r)

/-- A value without parts is read and skipped as a whole. -/
theorem readFound_skipScalar {v : Value} {t : List Char} (h : Spells (.value v) t)
    (hv : ¬v.IsNested) {r : List Char} (hr : Ends r) :
    readFound (t ++ r) = .ok (v.found, r) ∧ skipScalar (t ++ r) = .ok r := by
  cases h with
  | null => exact ⟨rfl, rfl⟩
  | boolean b => cases b <;> exact ⟨rfl, rfl⟩
  | integer hlow hhigh => exact ⟨readFound_toString hlow hhigh hr, skipScalar_toString _ hr⟩
  | @text s t ht =>
    have hread : readFound ('"' :: (t ++ '"' :: r)) = .ok (.text s, r) := by
      rw [readFound, readText_append ht]
      simp only [Except.map, String.ofList_toList]
    have hskip : skipScalar ('"' :: (t ++ '"' :: r)) = .ok r := by
      rw [skipScalar, skipText_append ht]
    rw [List.cons_append, List.cons_append, List.append_assoc]
    exact ⟨hread, hskip⟩
  | emptyList | list | emptyObject | object => exact absurd trivial hv

/-- Of a list or an object only the kind is read. -/
theorem readFound_nested {v : Value} {t : List Char} (h : Spells (.value v) t) (hv : v.IsNested)
    (r : List Char) : readFound (t ++ r) = .ok (v.found, t ++ r) := by
  cases h with
  | null | boolean | integer | text => exact hv.elim
  | emptyList | list | emptyObject | object => rfl

/-- A reader of one kind of value reads the values of this kind and refuses the others. -/
theorem readAs_value {β : Type} (expected : String) {value? : Found → Option β}
    (hlist : value? .sequence = none) (hobject : value? .map = none) {v : Value}
    {a t r : List Char} (ha : Blanks a) (h : Spells (.value v) t) (hr : Ends r) :
    (readAs expected value? (a ++ t ++ r)).toOption = (value? v.found).map (·, r) := by
  rw [readAs, skipBlank_value ha h]
  by_cases hv : v.IsNested
  · have hnone : value? v.found = none := by
      cases v with
      | list => exact hlist
      | object => exact hobject
      | _ => exact hv.elim
    rw [readFound_nested h hv]
    simp only [bind, Except.bind, hnone]
    rfl
  · rw [(readFound_skipScalar h hv hr).1]
    cases hvalue : value? v.found with
    | none => simp only [bind, Except.bind, hvalue]; rfl
    | some b => simp only [bind, Except.bind, hvalue]; rfl

end ExpiringCache.Json
