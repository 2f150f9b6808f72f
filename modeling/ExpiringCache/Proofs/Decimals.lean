import ExpiringCache.Text.Shortest
import Mathlib.Algebra.Order.Field.Power
import Mathlib.Algebra.Order.Floor.Semiring
import Mathlib.Data.Rat.Floor
import Mathlib.Tactic.Linarith
import Mathlib.Tactic.Positivity
import Mathlib.Tactic.Ring

/-! The digits that a floating-point number is written with. A decimal reads back as the
number if it lies in an interval around it (`admits_iff`), and the two decimals next to the
number stand for all others on their grid (`nearest?_spec`). The digits that are found read
back, no others on their grid are nearer, and on a coarser grid none read back
(`IsDouble.shortest_spec`). -/

namespace ExpiringCache.Text

/-- The number that a decimal stands for. -/
def Decimal.value (d : Decimal) : ℚ := d.digits * 10 ^ d.exponent

namespace Dyadic

def value (x : Dyadic) : ℚ := x.significand * 2 ^ x.exponent

/-- Half way to the next smaller number. -/
def low (x : Dyadic) : ℚ :=
  (4 * x.significand - if x.narrowBelow then 1 else 2) * 2 ^ (x.exponent - 2)

/-- Half way to the next larger number. -/
def high (x : Dyadic) : ℚ := (4 * x.significand + 2) * 2 ^ (x.exponent - 2)

/-! ### Comparisons in whole numbers -/

theorem zpow_mul_toNat {b : ℚ} (hb : b ≠ 0) (z : ℤ) :
    b ^ z * b ^ (-z).toNat = b ^ z.toNat := by
  rw [← zpow_natCast, ← zpow_natCast, ← zpow_add₀ hb]
  congr 1
  omega

/-- What makes whole numbers of a multiple of `2 ^ p` and of a multiple of `10 ^ e`. -/
def scale (p e : ℤ) : ℚ := 2 ^ (-p).toNat * 10 ^ (-e).toNat

theorem scale_dyadic (a : ℕ) (p e : ℤ) :
    (a * 2 ^ p : ℚ) * scale p e =
      (a * Nat.pow 2 p.toNat * Nat.pow 10 (-e).toNat : ℕ) := by
  push_cast [Nat.pow_eq]
  rw [scale, ← zpow_mul_toNat two_ne_zero p]
  ring

theorem scale_decimal (d : ℕ) (e p : ℤ) :
    (d * 10 ^ e : ℚ) * scale p e =
      (d * Nat.pow 10 e.toNat * Nat.pow 2 (-p).toNat : ℕ) := by
  push_cast [Nat.pow_eq]
  rw [scale, ← zpow_mul_toNat (by norm_num) e]
  ring

theorem scale_pos (p e : ℤ) : 0 < scale p e := by
  rw [scale]
  positivity

theorem dyadicLe_iff {a d : ℕ} {p e : ℤ} :
    dyadicLe a p d e = true ↔ (a * 2 ^ p : ℚ) ≤ d * 10 ^ e := by
  rw [← mul_le_mul_iff_left₀ (scale_pos p e), scale_dyadic, scale_decimal, Nat.cast_le, dyadicLe,
    decide_eq_true_eq]

theorem decimalLe_iff {a d : ℕ} {p e : ℤ} :
    decimalLe d e a p = true ↔ (d * 10 ^ e : ℚ) ≤ a * 2 ^ p := by
  rw [← mul_le_mul_iff_left₀ (scale_pos p e), scale_dyadic, scale_decimal, Nat.cast_le, decimalLe,
    decide_eq_true_eq]

/-! ### The interval -/

variable {x : Dyadic} {c d : Decimal} {e : ℤ}

theorem value_eq (x : Dyadic) : x.value = 4 * x.significand * 2 ^ (x.exponent - 2) := by
  rw [value, zpow_sub₀ two_ne_zero]
  ring

theorem low_lt_value (x : Dyadic) : x.low < x.value := by
  have hpos : (0 : ℚ) < 2 ^ (x.exponent - 2) := by positivity
  rw [low, value_eq]
  refine mul_lt_mul_of_pos_right ?_ hpos
  split <;> linarith

theorem value_lt_high (x : Dyadic) : x.value < x.high := by
  have hpos : (0 : ℚ) < 2 ^ (x.exponent - 2) := by positivity
  rw [high, value_eq]
  exact mul_lt_mul_of_pos_right (by linarith) hpos

theorem admits_iff (hx : 0 < x.significand) :
    x.admits d = true ↔
      if x.significand % 2 = 0 then x.low ≤ d.value ∧ d.value ≤ x.high
      else x.low < d.value ∧ d.value < x.high := by
  have hlow : ((4 * x.significand - if x.narrowBelow then 1 else 2 : ℕ) *
      2 ^ (x.exponent - 2) : ℚ) = x.low := by
    rw [low, Nat.cast_sub (by split <;> omega)]
    push_cast
    rfl
  have hhigh : ((4 * x.significand + 2 : ℕ) * 2 ^ (x.exponent - 2) : ℚ) = x.high := by
    rw [high]
    push_cast
    rfl
  simp only [admits]
  split
  · rw [Bool.and_eq_true, dyadicLe_iff, decimalLe_iff, hlow, hhigh]
    rfl
  · rw [Bool.and_eq_true, Bool.not_eq_true', Bool.not_eq_true', ← Bool.not_eq_true,
      ← Bool.not_eq_true, dyadicLe_iff, decimalLe_iff, hlow, hhigh, not_le, not_le]
    rfl

theorem admits_congr (hx : 0 < x.significand) (h : c.value = d.value) :
    x.admits c = x.admits d := by
  rw [Bool.eq_iff_iff, admits_iff hx, admits_iff hx, h]

/-- What lies between the number and a decimal that reads back as it does so too. -/
theorem admits_of_between (hx : 0 < x.significand) (hd : x.admits d = true)
    (h : d.value ≤ c.value ∧ c.value ≤ x.value ∨ x.value ≤ c.value ∧ c.value ≤ d.value) :
    x.admits c = true := by
  have hlow := low_lt_value x
  have hhigh := value_lt_high x
  rw [admits_iff hx] at hd ⊢
  by_cases heven : x.significand % 2 = 0
  · rw [if_pos heven] at hd ⊢
    rcases h with ⟨hdc, hcx⟩ | ⟨hxc, hcd⟩
    · exact ⟨hd.1.trans hdc, hcx.trans hhigh.le⟩
    · exact ⟨hlow.le.trans hxc, hcd.trans hd.2⟩
  · rw [if_neg heven] at hd ⊢
    rcases h with ⟨hdc, hcx⟩ | ⟨hxc, hcd⟩
    · exact ⟨hd.1.trans_le hdc, hcx.trans_lt hhigh⟩
    · exact ⟨hlow.trans_le hxc, hcd.trans_lt hd.2⟩

/-! ### The neighbours on a grid -/

/-- The number in units of `10 ^ e`, as a fraction. -/
def ratio (x : Dyadic) (e : ℤ) : ℕ × ℕ :=
  (x.significand * Nat.pow 2 x.exponent.toNat * Nat.pow 10 (-e).toNat,
    Nat.pow 2 (-x.exponent).toNat * Nat.pow 10 e.toNat)

/-- The last decimal of a grid that is not above the number. -/
def below (x : Dyadic) (e : ℤ) : Decimal := ⟨(x.ratio e).1 / (x.ratio e).2, e⟩

def above (x : Dyadic) (e : ℤ) : Decimal := ⟨(x.ratio e).1 / (x.ratio e).2 + 1, e⟩

theorem ratio_snd_pos (x : Dyadic) (e : ℤ) : 0 < (x.ratio e).2 := by
  simp only [ratio, Nat.pow_eq]
  positivity

theorem value_mul_scale (x : Dyadic) (e : ℤ) :
    x.value * scale x.exponent e = (x.ratio e).1 :=
  scale_dyadic _ _ _

theorem grid_mul_scale (x : Dyadic) (e : ℤ) (n : ℕ) :
    (⟨n, e⟩ : Decimal).value * scale x.exponent e =
      (n * (x.ratio e).2 : ℕ) := by
  rw [Decimal.value, scale_decimal, ratio, mul_assoc, mul_comm (Nat.pow 10 e.toNat)]

theorem below_le (x : Dyadic) (e : ℤ) : (x.below e).value ≤ x.value := by
  rw [← mul_le_mul_iff_left₀ (scale_pos x.exponent e), value_mul_scale, below, grid_mul_scale,
    Nat.cast_le]
  exact Nat.div_mul_le_self _ _

theorem lt_above (x : Dyadic) (e : ℤ) : x.value < (x.above e).value := by
  rw [← mul_lt_mul_iff_left₀ (scale_pos x.exponent e), value_mul_scale, above, grid_mul_scale,
    Nat.cast_lt, ← Nat.div_lt_iff_lt_mul (x.ratio_snd_pos e)]
  exact Nat.lt_succ_self _

theorem value_mono {m n : ℕ} (h : m ≤ n) :
    (⟨m, e⟩ : Decimal).value ≤ (⟨n, e⟩ : Decimal).value := by
  have hpos : (0 : ℚ) ≤ 10 ^ e := by positivity
  exact mul_le_mul_of_nonneg_right (Nat.cast_le.2 h) hpos

/-- Nothing on a grid lies between the two decimals next to the number. -/
theorem le_below_or_above_le (x : Dyadic) (h : d.exponent = e) :
    d.value ≤ (x.below e).value ∨ (x.above e).value ≤ d.value := by
  subst h
  rcases Nat.lt_or_ge ((x.ratio d.exponent).1 / (x.ratio d.exponent).2) d.digits with hlt | hge
  · exact .inr (value_mono hlt)
  · exact .inl (value_mono hge)

theorem ratio_fst_eq (x : Dyadic) (e : ℤ) :
    ((x.ratio e).1 : ℚ) = ((x.ratio e).1 / (x.ratio e).2 * (x.ratio e).2 : ℕ) +
      ((x.ratio e).1 % (x.ratio e).2 : ℕ) := by
  rw [← Nat.cast_add, Nat.div_add_mod']

theorem abs_below (x : Dyadic) (e : ℤ) :
    |(x.below e).value - x.value| * scale x.exponent e =
      ((x.ratio e).1 % (x.ratio e).2 : ℕ) := by
  rw [abs_sub_comm, abs_of_nonneg (sub_nonneg.2 (x.below_le e)), sub_mul, value_mul_scale, below,
    grid_mul_scale, ratio_fst_eq, add_sub_cancel_left]

theorem abs_above (x : Dyadic) (e : ℤ) :
    |(x.above e).value - x.value| * scale x.exponent e =
      (x.ratio e).2 - ((x.ratio e).1 % (x.ratio e).2 : ℕ) := by
  rw [abs_of_nonneg (sub_nonneg.2 (x.lt_above e).le), sub_mul, value_mul_scale, above,
    grid_mul_scale, ratio_fst_eq, Nat.add_mul, Nat.one_mul, Nat.cast_add, add_sub_add_left_eq_sub]

/-- The nearer of the two is tried first. -/
theorem nearest?_eq (x : Dyadic) (e : ℤ) :
    ∃ a b, (a = x.below e ∧ b = x.above e ∨ a = x.above e ∧ b = x.below e) ∧
      x.nearest? e = [a, b].find? x.admits ∧ |a.value - x.value| ≤ |b.value - x.value| := by
  have hcases : x.nearest? e =
      (if 2 * ((x.ratio e).1 % (x.ratio e).2) < (x.ratio e).2 ∨
          2 * ((x.ratio e).1 % (x.ratio e).2) = (x.ratio e).2 ∧ (x.below e).digits % 2 = 0
        then [x.below e, x.above e] else [x.above e, x.below e]).find? x.admits := rfl
  rw [hcases]
  split
  · have hle : (2 * ((x.ratio e).1 % (x.ratio e).2 : ℕ) : ℚ) ≤ (x.ratio e).2 := by
      exact_mod_cast (by omega)
    refine ⟨_, _, .inl ⟨rfl, rfl⟩, rfl, ?_⟩
    rw [← mul_le_mul_iff_left₀ (scale_pos x.exponent e), abs_below, abs_above]
    linarith
  · have hge : ((x.ratio e).2 : ℚ) ≤ 2 * ((x.ratio e).1 % (x.ratio e).2 : ℕ) := by
      exact_mod_cast (by omega)
    refine ⟨_, _, .inr ⟨rfl, rfl⟩, rfl, ?_⟩
    rw [← mul_le_mul_iff_left₀ (scale_pos x.exponent e), abs_below, abs_above]
    linarith

/-- A decimal that reads back lies beyond one of the two, which then reads back too. -/
theorem admits_below_or_above (hx : 0 < x.significand) (he : d.exponent = e)
    (hd : x.admits d = true) :
    (x.admits (x.below e) = true ∧ |(x.below e).value - x.value| ≤ |d.value - x.value|) ∨
      (x.admits (x.above e) = true ∧ |(x.above e).value - x.value| ≤ |d.value - x.value|) := by
  have hbelow := x.below_le e
  have habove := x.lt_above e
  rcases le_below_or_above_le x he with hle | hle
  · refine .inl ⟨admits_of_between hx hd (.inl ⟨hle, hbelow⟩), ?_⟩
    rw [abs_sub_comm, abs_of_nonneg (sub_nonneg.2 hbelow), abs_sub_comm]
    exact (sub_le_sub_left hle _).trans (le_abs_self _)
  · refine .inr ⟨admits_of_between hx hd (.inr ⟨habove.le, hle⟩), ?_⟩
    rw [abs_of_nonneg (sub_nonneg.2 habove.le)]
    exact (sub_le_sub_right hle _).trans (le_abs_self _)

/-- What is found on a grid reads back, and nothing else on the grid that does is nearer. If
nothing is found, nothing on the grid reads back. -/
theorem nearest?_spec (hx : 0 < x.significand) (e : ℤ) :
    (∃ c, x.nearest? e = some c ∧ c.exponent = e ∧ x.admits c = true ∧
      ∀ d, d.exponent = e → x.admits d = true → |c.value - x.value| ≤ |d.value - x.value|) ∨
    (x.nearest? e = none ∧ ∀ d, d.exponent = e → x.admits d = false) := by
  obtain ⟨a, b, hab, hfind, hle⟩ := x.nearest?_eq e
  have hae : a.exponent = e := by rcases hab with ⟨rfl, -⟩ | ⟨rfl, -⟩ <;> rfl
  have hbe : b.exponent = e := by rcases hab with ⟨-, rfl⟩ | ⟨-, rfl⟩ <;> rfl
  have hreads : ∀ d, d.exponent = e → x.admits d = true →
      (x.admits a = true ∧ |a.value - x.value| ≤ |d.value - x.value|) ∨
        (x.admits b = true ∧ |b.value - x.value| ≤ |d.value - x.value|) := by
    intro d he hd
    rcases hab with ⟨rfl, rfl⟩ | ⟨rfl, rfl⟩
    · exact admits_below_or_above hx he hd
    · exact (admits_below_or_above hx he hd).symm
  rw [hfind]
  by_cases ha : x.admits a = true
  · refine .inl ⟨a, List.find?_cons_of_pos ha, hae, ha, fun d he hd => ?_⟩
    rcases hreads d he hd with ⟨-, h⟩ | ⟨-, h⟩
    · exact h
    · exact hle.trans h
  · rw [List.find?_cons_of_neg ha]
    by_cases hb : x.admits b = true
    · refine .inl ⟨b, List.find?_cons_of_pos hb, hbe, hb, fun d he hd => ?_⟩
      rcases hreads d he hd with ⟨h, -⟩ | ⟨-, h⟩
      · exact absurd h ha
      · exact h
    · refine .inr ⟨List.find?_cons_of_neg hb, fun d he => ?_⟩
      by_contra hd
      rcases hreads d he (Bool.not_eq_false _ ▸ hd) with ⟨h, -⟩ | ⟨h, -⟩
      · exact ha h
      · exact hb h

/-! ### The first digit -/

theorem pow_length_toDigits {n : ℕ} (h : 0 < n) :
    10 ^ ((Nat.toDigits 10 n).length - 1) ≤ n ∧ n < 10 ^ (Nat.toDigits 10 n).length := by
  have hpos : 0 < (Nat.toDigits 10 n).length := Nat.length_toDigits_pos
  refine ⟨?_, (Nat.length_toDigits_le_iff (by decide) hpos).1 le_rfl⟩
  rcases Nat.eq_zero_or_pos ((Nat.toDigits 10 n).length - 1) with hone | hmore
  · rw [hone]
    exact h
  · by_contra hlt
    have hle := (Nat.length_toDigits_le_iff (by decide) hmore).2 (not_le.1 hlt)
    omega

theorem pow_le_of_one_le {num den : ℕ} {v : ℚ} (hden : 0 < den) (hv : v * den = num)
    (h : den ≤ num) :
    (10 : ℚ) ^ ((Nat.toDigits 10 (num / den)).length - 1 : ℤ) ≤ v ∧
      v < 10 ^ ((Nat.toDigits 10 (num / den)).length - 1 + 1 : ℤ) := by
  have hdenQ : (0 : ℚ) < den := Nat.cast_pos.2 hden
  obtain ⟨hlow, hhigh⟩ := pow_length_toDigits (Nat.div_pos h hden)
  have hpos : 1 ≤ (Nat.toDigits 10 (num / den)).length := Nat.length_toDigits_pos
  rw [sub_add_cancel, ← Nat.cast_one, ← Nat.cast_sub hpos, zpow_natCast, zpow_natCast,
    ← mul_le_mul_iff_left₀ hdenQ, ← mul_lt_mul_iff_left₀ hdenQ, hv]
  constructor
  · exact_mod_cast (Nat.le_div_iff_mul_le hden).1 hlow
  · exact_mod_cast (Nat.div_lt_iff_lt_mul hden).1 hhigh

/-- The last whole number below a fraction that is greater than one. -/
theorem lt_of_sub_one {num den : ℕ} (hnum : 0 < num) (h : num < den) :
    0 < (den + num - 1) / num - 1 ∧ ((den + num - 1) / num - 1) * num < den ∧
      den ≤ ((den + num - 1) / num - 1 + 1) * num := by
  have htwo : 2 ≤ (den + num - 1) / num := (Nat.le_div_iff_mul_le hnum).2 (by omega)
  have hle := Nat.div_mul_le_self (den + num - 1) num
  have hlt := Nat.lt_div_mul_add hnum (a := den + num - 1)
  refine ⟨by omega, ?_, ?_⟩
  · rw [Nat.sub_mul]
    omega
  · rw [Nat.sub_add_cancel (by omega)]
    omega

theorem pow_le_of_lt_one {num den : ℕ} {v : ℚ} (hnum : 0 < num) (hv : v * den = num)
    (h : num < den) :
    (10 : ℚ) ^ (-(Nat.toDigits 10 ((den + num - 1) / num - 1)).length : ℤ) ≤ v ∧
      v < 10 ^ (-(Nat.toDigits 10 ((den + num - 1) / num - 1)).length + 1 : ℤ) := by
  have hdenQ : (0 : ℚ) < den := Nat.cast_pos.2 (hnum.trans h)
  obtain ⟨hpos, hlt, hle⟩ := lt_of_sub_one hnum h
  obtain ⟨hlow, hhigh⟩ := pow_length_toDigits hpos
  obtain ⟨k, hk⟩ := Nat.exists_eq_add_one.2 (Nat.length_toDigits_pos
    (b := 10) (n := (den + num - 1) / num - 1))
  have hexponent : (-(k + 1 : ℕ) + 1 : ℤ) = -(k : ℕ) := by omega
  rw [hk] at hlow hhigh ⊢
  rw [hexponent, zpow_neg, zpow_neg, zpow_natCast, zpow_natCast, eq_div_of_mul_eq hdenQ.ne' hv,
    ← one_div, ← one_div, div_le_div_iff₀ (by positivity) hdenQ,
    div_lt_div_iff₀ hdenQ (by positivity), one_mul, mul_comm, mul_comm (num : ℚ)]
  constructor
  · exact_mod_cast hle.trans (Nat.mul_le_mul_right num hhigh)
  · exact_mod_cast (Nat.mul_le_mul_right num hlow).trans_lt hlt

/-- The number lies between the powers of ten around its first digit. -/
theorem magnitude_spec (hx : 0 < x.significand) :
    (10 : ℚ) ^ x.magnitude ≤ x.value ∧ x.value < 10 ^ (x.magnitude + 1) := by
  have hvalue : x.value * (Nat.pow 2 (-x.exponent).toNat : ℕ) =
      (x.significand * Nat.pow 2 x.exponent.toNat : ℕ) := by
    have hscale := scale_dyadic x.significand x.exponent 0
    simpa [Nat.pow_eq, value, scale] using hscale
  simp only [magnitude]
  split
  · rename_i h
    exact pow_le_of_one_le (Nat.pow_pos (by decide)) hvalue h
  · rename_i h
    exact pow_le_of_lt_one (Nat.mul_pos hx (Nat.pow_pos (by decide))) hvalue (not_le.1 h)

/-! ### Seventeen digits -/

/-- The magnitude of a positive double. -/
structure IsDouble (x : Dyadic) : Prop where
  pos : 0 < x.significand
  lt : x.significand < 9007199254740992
  narrow : x.narrowBelow = true → x.significand = 4503599627370496

theorem isDouble_ofBits {bits : ℕ} (hpos : 0 < bits) (h : bits < 0x8000000000000000) :
    (ofBits bits).IsDouble := by
  unfold ofBits
  dsimp only
  split
  · exact ⟨by show 0 < bits % 4503599627370496; omega,
      by show bits % 4503599627370496 < _; omega, fun h => by cases h⟩
  · refine ⟨by show 0 < 4503599627370496 + _; omega,
      by show 4503599627370496 + bits % 4503599627370496 < _; omega, fun hnarrow => ?_⟩
    simp only [Bool.and_eq_true, decide_eq_true_eq] at hnarrow
    show 4503599627370496 + bits % 4503599627370496 = _
    omega

/-- The step of the grid of seventeen digits is shorter than the interval. -/
theorem IsDouble.step_lt (hx : x.IsDouble) : (10 : ℚ) ^ (x.magnitude - 16) < x.high - x.low := by
  have hpos : (0 : ℚ) < 2 ^ (x.exponent - 2) := by positivity
  have hlt : (x.significand : ℚ) < 9007199254740992 := by exact_mod_cast hx.lt
  have hstep : (10 : ℚ) ^ (x.magnitude - 16) * 10 ^ 16 ≤
      4 * x.significand * 2 ^ (x.exponent - 2) := by
    rw [← value_eq, ← zpow_natCast, ← zpow_add₀ (by norm_num)]
    exact (by simpa using (magnitude_spec hx.pos).1)
  by_cases hnarrow : x.narrowBelow = true
  · have hsignificand : (x.significand : ℚ) = 4503599627370496 := by
      exact_mod_cast hx.narrow hnarrow
    rw [high, low, if_pos hnarrow, hsignificand]
    rw [hsignificand] at hstep
    nlinarith
  · rw [high, low, if_neg hnarrow]
    nlinarith

theorem exists_nat_mul_between {l h s : ℚ} (hl : 0 ≤ l) (hs : 0 < s) (hlt : s < h - l) :
    ∃ n : ℕ, l < n * s ∧ n * s < h := by
  have hle := (le_div_iff₀ hs).1 (Nat.floor_le (div_nonneg hl hs.le))
  have hnext := (div_lt_iff₀ hs).1 (Nat.lt_floor_add_one (l / s))
  refine ⟨⌊l / s⌋₊ + 1, ?_, ?_⟩
  · rwa [Nat.cast_add_one]
  · rw [Nat.cast_add_one, add_mul, one_mul]
    linarith

/-- Of the decimals with seventeen digits one reads back. -/
theorem IsDouble.exists_admits (hx : x.IsDouble) :
    ∃ d : Decimal, d.exponent = x.magnitude - 16 ∧ x.admits d = true := by
  have hlow : 0 ≤ x.low := by
    have hpos : (1 : ℚ) ≤ x.significand := by exact_mod_cast hx.pos
    refine mul_nonneg ?_ (by positivity)
    split <;> linarith
  obtain ⟨n, hn, hn'⟩ := exists_nat_mul_between hlow (by positivity) hx.step_lt
  refine ⟨⟨n, x.magnitude - 16⟩, rfl, (admits_iff hx.pos).2 ?_⟩
  split
  · exact ⟨hn.le, hn'.le⟩
  · exact ⟨hn, hn'⟩

/-! ### The digits that are found -/

/-- A decimal on a finer grid. -/
theorem exists_value_eq (d : Decimal) (h : e ≤ d.exponent) :
    ∃ c : Decimal, c.exponent = e ∧ c.value = d.value := by
  refine ⟨⟨d.digits * 10 ^ (d.exponent - e).toNat, e⟩, rfl, ?_⟩
  rw [Decimal.value, Decimal.value, Nat.cast_mul, Nat.cast_pow, mul_assoc, ← zpow_natCast,
    Nat.cast_ofNat, ← zpow_add₀ (by norm_num), Int.toNat_of_nonneg (by omega), sub_add_cancel]

theorem exists_of_findSome?_range {β : Type*} {f : ℕ → Option β} {n : ℕ} {b : β}
    (h : (List.range n).findSome? f = some b) : ∃ i, f i = some b ∧ ∀ j < i, f j = none := by
  obtain ⟨earlier, i, later, hrange, hb, hnone⟩ := List.findSome?_eq_some_iff.1 h
  have hsorted : (earlier ++ i :: later).Pairwise (· < ·) := hrange ▸ List.pairwise_lt_range
  have hlater := (List.pairwise_cons.1 (List.pairwise_append.1 hsorted).2.1).1
  refine ⟨i, hb, fun j hj => hnone j ?_⟩
  have hi : i ∈ List.range n := hrange ▸ List.mem_append_right _ (.head _)
  have hmem : j ∈ earlier ++ i :: later :=
    hrange ▸ List.mem_range.2 (hj.trans (List.mem_range.1 hi))
  rcases List.mem_append.1 hmem with hmem | hmem
  · exact hmem
  · rcases List.mem_cons.1 hmem with rfl | hmem
    · exact absurd hj (lt_irrefl _)
    · exact absurd (hlater j hmem) hj.asymm

/-- Grid after grid, from that of the first digit on, nothing reads back before the one with
the digits that are found. -/
theorem IsDouble.shortest_found (hx : x.IsDouble) :
    ∃ i : ℕ, x.nearest? (x.magnitude - i) = some x.shortest ∧
      ∀ j < i, x.nearest? (x.magnitude - j) = none := by
  unfold shortest
  dsimp only
  cases hfound : (List.range 17).findSome? fun i : ℕ => x.nearest? (x.magnitude - i) with
  | none =>
    obtain ⟨d, hd, hadmits⟩ := hx.exists_admits
    have hnone := List.findSome?_eq_none_iff.1 hfound 16 (by decide)
    rcases nearest?_spec hx.pos (x.magnitude - (16 : ℕ)) with ⟨c, hc, -⟩ | ⟨-, hall⟩
    · rw [hc] at hnone
      cases hnone
    · rw [hall d hd] at hadmits
      cases hadmits
  | some c => exact exists_of_findSome?_range hfound

/-- The digits that are found for a positive double read back as it. Nothing else with as many
digits is nearer, and nothing on a coarser grid reads back; a grid that is coarser than the
first digit is not tried. -/
theorem IsDouble.shortest_spec (hx : x.IsDouble) :
    x.admits x.shortest = true ∧
    (∀ d, d.exponent = x.shortest.exponent → x.admits d = true →
      |x.shortest.value - x.value| ≤ |d.value - x.value|) ∧
    ∀ d, x.admits d = true →
      d.exponent ≤ x.shortest.exponent ∨ x.magnitude = x.shortest.exponent := by
  obtain ⟨i, hfound, hearlier⟩ := hx.shortest_found
  rcases nearest?_spec hx.pos (x.magnitude - i) with ⟨c, hc, hexponent, hadmits, hnearest⟩ | ⟨h, -⟩
  · obtain rfl : c = x.shortest := Option.some.inj (hc.symm.trans hfound)
    refine ⟨hadmits, fun d hd => hnearest d (hd.trans hexponent), fun d hd => ?_⟩
    cases i with
    | zero => exact .inr (by omega)
    | succ i =>
      -- what reads back on a coarser grid would have been found on the grid tried before
      refine .inl (not_lt.1 fun hlt => ?_)
      obtain ⟨b, hb, hvalue⟩ := exists_value_eq d (e := x.magnitude - i) (by omega)
      rw [← admits_congr hx.pos hvalue] at hd
      rcases nearest?_spec hx.pos (x.magnitude - i) with ⟨a, ha, -⟩ | ⟨-, hall⟩
      · rw [hearlier i (Nat.lt_succ_self i)] at ha
        cases ha
      · rw [hall b hb] at hd
        cases hd
  · rw [h] at hfound
    cases hfound

end Dyadic

end ExpiringCache.Text
