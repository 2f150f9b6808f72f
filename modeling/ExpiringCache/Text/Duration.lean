import ExpiringCache.Time

/-! The text of a duration. It is written in the largest of seconds, milliseconds,
microseconds and nanoseconds that it holds at least once, with as many decimals as it
needs: `1.5s`, `25ms`, `999ns`. Longer units are not used, an hour is `3600s`. Nothing is
rounded away, so that the text tells the duration (`durationText_injective`). -/

namespace ExpiringCache.Text

/-- The digits of `n` after the decimal point when one stands for `10 ^ width`, without
the zeros at the end. -/
def fractionDigits (width n : Nat) : List Char :=
  let digits := (Nat.toDigits 10 (Nat.pow 10 width + n)).drop 1
  (digits.reverse.dropWhile (· == '0')).reverse

/-- `n` in units of `10 ^ width`. -/
def decimalText (width n : Nat) : String :=
  let whole := toString (n / Nat.pow 10 width)
  match fractionDigits width (n % Nat.pow 10 width) with
  | [] => whole
  | digits => whole ++ "." ++ String.ofList digits

def durationText (d : Nat) : String :=
  if Time.second ≤ d then decimalText 9 d ++ "s"
  else if Time.millisecond ≤ d then decimalText 6 d ++ "ms"
  else if 1000 ≤ d then decimalText 3 d ++ "µs"
  else decimalText 0 d ++ "ns"

/-! ### Digits -/

theorem toDigits_injective {m n : Nat} (h : Nat.toDigits 10 m = Nat.toDigits 10 n) : m = n := by
  have hvalue := congrArg (fun digits => Nat.ofDigitChars 10 digits 0) h
  simpa using hvalue

/-- A one in front keeps the zeros at the left of a fraction. -/
theorem toDigits_pow_add (width : Nat) {n : Nat} (h : n < Nat.pow 10 width) :
    ∃ digits, digits.length = width ∧ Nat.toDigits 10 (Nat.pow 10 width + n) = '1' :: digits := by
  induction width generalizing n with
  | zero =>
    obtain rfl : n = 0 := by simpa using h
    exact ⟨[], rfl, by decide⟩
  | succ width ih =>
    have hpow : Nat.pow 10 (width + 1) = 10 * Nat.pow 10 width := Nat.pow_succ'
    have hpos : 0 < Nat.pow 10 width := Nat.pow_pos (by decide)
    obtain ⟨digits, hlength, hdigits⟩ := @ih (n / 10) (by omega)
    have hdiv : (Nat.pow 10 (width + 1) + n) / 10 = Nat.pow 10 width + n / 10 := by omega
    refine ⟨digits ++ [((Nat.pow 10 (width + 1) + n) % 10).digitChar], by simp [hlength], ?_⟩
    rw [Nat.toDigits_of_base_le (by decide) (by omega), hdiv, hdigits]
    rfl

/-- Only zeros are dropped at the end. -/
theorem exists_dropped_zeros (digits : List Char) :
    ∃ k, digits = (digits.reverse.dropWhile (· == '0')).reverse ++ List.replicate k '0' := by
  have hzeros : ∀ c ∈ digits.reverse.takeWhile (· == '0'), c = '0' := by
    intro c hc
    simpa using List.all_eq_true.1 List.all_takeWhile c hc
  refine ⟨(digits.reverse.takeWhile (· == '0')).length, ?_⟩
  rw [← List.reverse_replicate, ← List.eq_replicate_of_mem hzeros, ← List.reverse_append,
    List.takeWhile_append_dropWhile, List.reverse_reverse]

theorem exists_fractionDigits (width : Nat) {n : Nat} (h : n < Nat.pow 10 width) :
    ∃ k, (fractionDigits width n).length + k = width ∧
      Nat.toDigits 10 (Nat.pow 10 width + n) =
        '1' :: (fractionDigits width n ++ List.replicate k '0') := by
  obtain ⟨digits, hlength, hdigits⟩ := toDigits_pow_add width h
  have htrimmed : fractionDigits width n = (digits.reverse.dropWhile (· == '0')).reverse := by
    simp only [fractionDigits, hdigits, List.drop_succ_cons, List.drop_zero]
  obtain ⟨k, hk⟩ := exists_dropped_zeros digits
  rw [← htrimmed] at hk
  refine ⟨k, ?_, by rw [hdigits, ← hk]⟩
  have hsum := congrArg List.length hk
  rw [List.length_append, List.length_replicate, hlength] at hsum
  exact hsum.symm

theorem fractionDigits_injective {width m n : Nat} (hm : m < Nat.pow 10 width)
    (hn : n < Nat.pow 10 width)
    (h : fractionDigits width m = fractionDigits width n) : m = n := by
  obtain ⟨j, hj, hmdigits⟩ := exists_fractionDigits width hm
  obtain ⟨k, hk, hndigits⟩ := exists_fractionDigits width hn
  have hzeros : j = k := by rw [h] at hj; omega
  have hsame : Nat.pow 10 width + m = Nat.pow 10 width + n :=
    toDigits_injective (by rw [hmdigits, hndigits, h, hzeros])
  omega

theorem isDigit_of_mem_fractionDigits {width n : Nat} {c : Char}
    (h : c ∈ fractionDigits width n) : c.isDigit = true := by
  have hmem := (List.dropWhile_sublist _).mem (List.mem_reverse.1 h)
  exact Nat.isDigit_of_mem_toDigits (by decide) (by decide)
    (List.mem_of_mem_drop (List.mem_reverse.1 hmem))

/-! ### Reading back -/

/-- A text that does not go on with a digit. -/
def EndsNumber (cs : List Char) : Prop := cs.takeWhile Char.isDigit = []

theorem digits_append_inj {a b x y : List Char} (ha : ∀ c ∈ a, c.isDigit = true)
    (hb : ∀ c ∈ b, c.isDigit = true) (hx : EndsNumber x) (hy : EndsNumber y)
    (h : a ++ x = b ++ y) : a = b ∧ x = y := by
  have htaken := congrArg (List.takeWhile Char.isDigit) h
  rw [List.takeWhile_append_of_pos ha, List.takeWhile_append_of_pos hb, hx, hy,
    List.append_nil, List.append_nil] at htaken
  exact ⟨htaken, List.append_cancel_left (htaken ▸ h)⟩

/-- What follows the whole part of a number with these digits after the point. -/
def fractionText (digits unit : List Char) : List Char :=
  if digits = [] then unit else '.' :: (digits ++ unit)

theorem toList_decimalText_append (width n : Nat) (unit : String) :
    (decimalText width n ++ unit).toList = Nat.toDigits 10 (n / Nat.pow 10 width) ++
      fractionText (fractionDigits width (n % Nat.pow 10 width)) unit.toList := by
  simp only [decimalText, fractionText, Nat.pow_eq]
  split
  · rename_i h
    rw [if_pos h]
    simp
  · rename_i h
    rw [if_neg h]
    simp

/-- The units with the powers of ten that they stand for. -/
def units : List (Nat × String) := [(9, "s"), (6, "ms"), (3, "µs"), (0, "ns")]

theorem exists_unit (d : Nat) : ∃ u ∈ units, durationText d = decimalText u.1 d ++ u.2 := by
  unfold durationText
  split
  · exact ⟨(9, "s"), by simp [units], rfl⟩
  · split
    · exact ⟨(6, "ms"), by simp [units], rfl⟩
    · split
      · exact ⟨(3, "µs"), by simp [units], rfl⟩
      · exact ⟨(0, "ns"), by simp [units], rfl⟩

theorem endsNumber_of_mem_units {u : Nat × String} (h : u ∈ units) :
    EndsNumber u.2.toList ∧ u.2.toList.head? ≠ some '.' := by
  revert u
  simp [units, EndsNumber, Char.isDigit]

theorem eq_of_mem_units {u v : Nat × String} (hu : u ∈ units) (hv : v ∈ units)
    (h : u.2.toList = v.2.toList) : u = v := by
  have hnames : ∀ u ∈ units, ∀ v ∈ units, u.2 = v.2 → u = v := by decide +kernel
  exact hnames u hu v hv (String.toList_inj.1 h)

theorem endsNumber_fractionText {digits unit : List Char} (h : EndsNumber unit) :
    EndsNumber (fractionText digits unit) := by
  unfold fractionText
  split
  · exact h
  · rfl

theorem fractionText_inj {a b : List Char} {u v : Nat × String} (hu : u ∈ units)
    (hv : v ∈ units) (ha : ∀ c ∈ a, c.isDigit = true) (hb : ∀ c ∈ b, c.isDigit = true)
    (h : fractionText a u.2.toList = fractionText b v.2.toList) : a = b ∧ u = v := by
  obtain ⟨huends, hupoint⟩ := endsNumber_of_mem_units hu
  obtain ⟨hvends, hvpoint⟩ := endsNumber_of_mem_units hv
  simp only [fractionText] at h
  split at h
  · split at h
    · rename_i ha hb
      exact ⟨ha.trans hb.symm, eq_of_mem_units hu hv h⟩
    · exact absurd (congrArg List.head? h) hupoint
  · split at h
    · exact absurd (congrArg List.head? h).symm hvpoint
    · obtain ⟨hdigits, hunit⟩ :=
        digits_append_inj ha hb huends hvends (List.cons.inj h).2
      exact ⟨hdigits, eq_of_mem_units hu hv hunit⟩

/-- Durations that are written alike are the same. -/
theorem durationText_injective {d e : Nat} (h : durationText d = durationText e) : d = e := by
  obtain ⟨u, hu, hd⟩ := exists_unit d
  obtain ⟨v, hv, he⟩ := exists_unit e
  have htext := congrArg String.toList h
  rw [hd, he, toList_decimalText_append, toList_decimalText_append] at htext
  have hdigits : ∀ n, ∀ c ∈ Nat.toDigits 10 n, c.isDigit = true := fun n c hc =>
    Nat.isDigit_of_mem_toDigits (by decide) (by decide) hc
  obtain ⟨hwhole, hrest⟩ := digits_append_inj (hdigits _) (hdigits _)
    (endsNumber_fractionText (endsNumber_of_mem_units hu).1)
    (endsNumber_fractionText (endsNumber_of_mem_units hv).1) htext
  obtain ⟨hfraction, rfl⟩ := fractionText_inj hu hv
    (fun c => isDigit_of_mem_fractionDigits) (fun c => isDigit_of_mem_fractionDigits) hrest
  have hpos : 0 < Nat.pow 10 u.1 := Nat.pow_pos (by decide)
  have hmod : d % Nat.pow 10 u.1 = e % Nat.pow 10 u.1 :=
    fractionDigits_injective (Nat.mod_lt d hpos) (Nat.mod_lt e hpos) hfraction
  rw [← Nat.div_add_mod d (Nat.pow 10 u.1), toDigits_injective hwhole, hmod, Nat.div_add_mod]

example : durationText 1500000000 = "1.5s" := by decide +kernel

example : durationText 3600000000000 = "3600s" := by decide +kernel

end ExpiringCache.Text
