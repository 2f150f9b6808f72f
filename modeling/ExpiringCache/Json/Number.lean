import ExpiringCache.Json.Numeral

/-! The number that a numeral stands for. Without fraction and exponent it is an integer if
64 bits hold it, signed if it is negative; the other numerals are doubles, and so is minus
zero. A double is made of the leading digits that 64 bits hold and one multiplication or
division by a power of ten. -/

namespace ExpiringCache.Json

inductive Number where
  | integer (n : Int)
  | float (x : Float)
deriving Repr

/-- The values of decimal digits. -/
def digitValues (ds : List Char) : List Nat := ds.map fun c => c.toNat - 48

def ofDigits (ds : List Char) : Nat := (digitValues ds).foldl (fun n d => 10 * n + d) 0

/-- Appends digits to a significand as long as 64 bits hold it; also how many digits there
was no room for. -/
def appendDigits (significand : Nat) : List Nat → Nat × Nat
  | [] => (significand, 0)
  | d :: ds =>
    if 10 * significand + d < UInt64.size then appendDigits (10 * significand + d) ds
    else (significand, ds.length + 1)

/-- The digits that are left once an exponent has outgrown 32 bits, if it does. -/
def outgrown? (e : Nat) : List Char → Option (List Char)
  | [] => none
  | c :: cs =>
    let e := 10 * e + (c.toNat - 48)
    if e < 2147483648 then outgrown? e cs else some cs

/-- The double `10 ^ k`, for `k` up to 308. -/
def powerOfTen (k : Nat) : Float := Float.ofScientific 1 false k

/-- The quotient of a double and `10 ^ k`, no divisor beyond `10 ^ 308`. -/
def divideByPower (x : Float) (k : Nat) : Float :=
  if k ≤ 308 then x / powerOfTen k
  else if x == 0 then x
  else divideByPower (x / powerOfTen 308) (k - 308)
termination_by k
decreasing_by omega

/-- The double `significand · 10 ^ e`, if it is not too large. -/
def scaled? (significand : Nat) (e : Int) : Option Float :=
  let x := (UInt64.ofNat significand).toFloat
  if e < 0 then some (divideByPower x e.natAbs)
  else if e.toNat ≤ 308 then
    let y := x * powerOfTen e.toNat
    if y.isInf then none else some y
  else if x == 0 then some x else none

namespace Numeral

def isInteger (n : Numeral) : Bool := n.fraction.isEmpty && n.exponent.isNone

/-- The significand of a double, and the exponent of ten before the written one. -/
def significand (n : Numeral) : Nat × Int :=
  let (whole, unread) := appendDigits 0 (digitValues n.whole)
  let (all, dropped) := appendDigits whole (digitValues n.fraction)
  (all, (unread : Int) - (n.fraction.length - dropped))

def signed (n : Numeral) (x : Float) : Float := if n.negative then -x else x

/-- The double, when `rest` is what follows the numeral. -/
def float (n : Numeral) (rest : List Char) : Except Fault Float :=
  let (significand, e) := n.significand
  let scaled (e : Int) : Except Fault Float :=
    match scaled? significand e with
    | some x => .ok (n.signed x)
    | none => .error (.here .numberOutOfRange rest)
  match n.exponent with
  | none => scaled e
  | some (negative, digits) =>
    match outgrown? 0 digits with
    | none => scaled (if negative then e - ofDigits digits else e + ofDigits digits)
    | some unread =>
      if significand = 0 ∨ negative then .ok (n.signed 0)
      else .error (.here .numberOutOfRange (unread ++ rest))

/-- The number, when `rest` is what follows the numeral. -/
def number (n : Numeral) (rest : List Char) : Except Fault Number :=
  let magnitude := ofDigits n.whole
  if n.isInteger ∧ ¬n.negative ∧ magnitude < UInt64.size then .ok (.integer magnitude)
  else if n.isInteger ∧ n.negative ∧ 0 < magnitude ∧ magnitude ≤ 9223372036854775808 then
    .ok (.integer (-magnitude))
  else (n.float rest).map .float

end Numeral

def readNumber (cs : List Char) : Except Fault (Number × List Char) := do
  let (numeral, rest) ← readNumeral .endInValue cs
  return (← numeral.number rest, rest)

theorem length_readNumber_lt {cs r : List Char} {n : Number} (h : readNumber cs = .ok (n, r)) :
    r.length < cs.length := by
  obtain ⟨⟨numeral, rest⟩, h₁, h⟩ := bind_eq_ok h
  obtain ⟨number, _, h⟩ := bind_eq_ok h
  cases h
  exact length_readNumeral_lt h₁

end ExpiringCache.Json
