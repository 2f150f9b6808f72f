/-! The shortest decimal that reads back as a given binary floating-point number. A finite
positive number is `m · 2 ^ q`; the decimals that read back as it fill the interval up to
half way to its neighbours, with its ends if `m` is even. For one digit, two digits and so
on, the two decimals next to the number on that grid are tried exactly, and the first grid
with one in the interval gives the digits. -/

namespace ExpiringCache.Text

/-- `significand · 2 ^ exponent`. `narrowBelow` says that the next smaller number is only
half as far away as the next larger one. -/
structure Dyadic where
  significand : Nat
  exponent : Int
  narrowBelow : Bool
deriving DecidableEq, Repr

/-- `digits · 10 ^ exponent`. -/
structure Decimal where
  digits : Nat
  exponent : Int
deriving DecidableEq, Repr

/-- The magnitude that the bits of a finite double stand for. -/
def Dyadic.ofBits (bits : Nat) : Dyadic :=
  let fraction : Nat := bits % 0x10000000000000
  let biased : Nat := bits / 0x10000000000000 % 0x800
  if biased = 0 then ⟨fraction, -1074, false⟩
  else ⟨0x10000000000000 + fraction, (biased : Int) - 1075, fraction = 0 && 1 < biased⟩

/-- `a · 2 ^ p ≤ d · 10 ^ e`, in whole numbers. -/
def dyadicLe (a : Nat) (p : Int) (d : Nat) (e : Int) : Bool :=
  a * Nat.pow 2 p.toNat * Nat.pow 10 (-e).toNat ≤ d * Nat.pow 10 e.toNat * Nat.pow 2 (-p).toNat

/-- `d · 10 ^ e ≤ a · 2 ^ p`, in whole numbers. -/
def decimalLe (d : Nat) (e : Int) (a : Nat) (p : Int) : Bool :=
  d * Nat.pow 10 e.toNat * Nat.pow 2 (-p).toNat ≤ a * Nat.pow 2 p.toNat * Nat.pow 10 (-e).toNat

namespace Dyadic

/-- The decimal reads back as the number. -/
def admits (x : Dyadic) (d : Decimal) : Bool :=
  let p := x.exponent - 2
  let low := 4 * x.significand - if x.narrowBelow then 1 else 2
  let high := 4 * x.significand + 2
  if x.significand % 2 = 0 then
    dyadicLe low p d.digits d.exponent && decimalLe d.digits d.exponent high p
  else !decimalLe d.digits d.exponent low p && !dyadicLe high p d.digits d.exponent

/-- The exponent of the first digit of a positive number. -/
def magnitude (x : Dyadic) : Int :=
  let num := x.significand * Nat.pow 2 x.exponent.toNat
  let den := Nat.pow 2 (-x.exponent).toNat
  if den ≤ num then ((Nat.toDigits 10 (num / den)).length : Int) - 1
  else -((Nat.toDigits 10 ((den + num - 1) / num - 1)).length : Int)

/-- The decimal in the interval that is nearest to the number, of those whose last digit
stands for `10 ^ e`. Of two equally near ones it is the even one. -/
def nearest? (x : Dyadic) (e : Int) : Option Decimal :=
  let num := x.significand * Nat.pow 2 x.exponent.toNat * Nat.pow 10 (-e).toNat
  let den := Nat.pow 2 (-x.exponent).toNat * Nat.pow 10 e.toNat
  let below : Decimal := ⟨num / den, e⟩
  let above : Decimal := ⟨num / den + 1, e⟩
  let twice := 2 * (num % den)
  let closer := if twice < den ∨ twice = den ∧ below.digits % 2 = 0 then [below, above]
    else [above, below]
  closer.find? x.admits

/-- The decimal of the fewest digits that reads back as a positive number; seventeen are
always enough. -/
def shortest (x : Dyadic) : Decimal :=
  let decimals := (List.range 17).findSome? fun i : Nat => x.nearest? (x.magnitude - i)
  decimals.getD ⟨0, 0⟩

end Dyadic

/-- The exponents of the first digit for which a number is written without an exponent. -/
def plainExponents : Int × Int := (-5, 15)

/-- An exponent with its sign, which is written for positive ones too. -/
def exponentText (e : Int) : String :=
  (if e < 0 then "e-" else "e+") ++ toString e.natAbs

/-- A positive decimal, with at least one digit after the point unless it has an
exponent. -/
def Decimal.text (d : Decimal) : String :=
  let written := Nat.toDigits 10 d.digits
  let digits := (written.reverse.dropWhile (· == '0')).reverse
  let first := d.exponent + written.length - 1
  let zeros (n : Int) : List Char := List.replicate n.toNat '0'
  if plainExponents.1 ≤ first ∧ first ≤ plainExponents.2 then
    if first < 0 then String.ofList ('0' :: '.' :: zeros (-first - 1) ++ digits)
    else
      let whole := (first + 1).toNat
      let padded := digits ++ zeros (first + 2 - digits.length)
      String.ofList (padded.take whole ++ '.' :: padded.drop whole)
  else
    let fraction := if digits.length ≤ 1 then [] else '.' :: digits.drop 1
    String.ofList (digits.take 1 ++ fraction) ++ exponentText first

example : (Dyadic.ofBits 0x3fb999999999999a).shortest.text = "0.1" := by decide +kernel

example : (Dyadic.ofBits 0x43f0000000000000).shortest.text = "1.8446744073709552e+19" := by
  decide +kernel

/-- A finite number; zero keeps its sign. -/
def floatText (x : Float) : String :=
  let bits := x.toBits.toNat
  let sign := if 0x8000000000000000 ≤ bits then "-" else ""
  let magnitude := bits % 0x8000000000000000
  sign ++ if magnitude = 0 then "0.0" else (Dyadic.ofBits magnitude).shortest.text

end ExpiringCache.Text
