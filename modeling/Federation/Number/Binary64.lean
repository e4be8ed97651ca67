/-!
# Finite numbers of 64-bit binary floating point

A number is kept as a sign, a mantissa and a binary exponent, so every operation is exact arithmetic
on natural numbers followed by one rounding.

* `ofRatio`   the nearest number to a ratio, a tie going to the even mantissa;
* `mul`, `div`   product and quotient, rounded the same way;
* `shortest`  the fewest decimal digits that read back as the same number, and of those the nearest.
-/

namespace Federation

/-- a finite magnitude `mantissa · 2 ^ exponent` with a sign; the mantissa has 53 bits, or fewer at
the least exponent -/
structure Binary64 where
  negative : Bool
  mantissa : Nat
  exponent : Int
  deriving DecidableEq, Repr

namespace Binary64

def minExponent : Int := -1074

/-- the greatest exponent of a finite number -/
def maxExponent : Int := 971

def zero : Binary64 := ⟨false, 0, minExponent⟩

def leastFull : Nat := 4503599627370496

/-- the ratio `num / den` rounded to a natural number, a tie going to the even one -/
def roundEven (num den : Nat) : Nat :=
  let q := num / den
  let r := num % den
  if 2 * r < den then q
  else if den < 2 * r then q + 1
  else q + q % 2

def scaled (n : Nat) (e : Int) : Nat × Nat :=
  if 0 ≤ e then (n * Nat.pow 2 e.toNat, 1) else (n, Nat.pow 2 (-e).toNat)

/-- the exponent of the greatest power of two that is at most `num / den` -/
def magnitude (num den : Nat) : Int :=
  let guess : Int := num.log2 - den.log2
  let (p, q) := scaled 1 guess
  if p * den ≤ num * q then guess else guess - 1

/-- the number nearest to `num / den`, or `none` where that is above the finite ones -/
def ofRatio (num den : Nat) : Option Binary64 :=
  if num = 0 then some zero
  else
    let e := max minExponent (magnitude num den - 52)
    let (p, q) := scaled num (-e)
    let m := roundEven p (q * den)
    let r : Binary64 := if m = 2 * leastFull then ⟨false, leastFull, e + 1⟩ else ⟨false, m, e⟩
    if maxExponent < r.exponent then none else some r

def ratio (x : Binary64) : Nat × Nat := scaled x.mantissa x.exponent

def mul (x y : Binary64) : Option Binary64 :=
  ofRatio (x.ratio.1 * y.ratio.1) (x.ratio.2 * y.ratio.2)

def div (x y : Binary64) : Option Binary64 :=
  ofRatio (x.ratio.1 * y.ratio.2) (x.ratio.2 * y.ratio.1)

def powerOfTen (n : Nat) : Option Binary64 := ofRatio (Nat.pow 10 n) 1

/-! ## decimal digits -/

/-- the place of the leading decimal digit of `num / den` -/
def decimalPlace (num den : Nat) : Int :=
  if den ≤ num then (Nat.toDigits 10 (num / den)).length - 1
  else
    let guess := (Nat.toDigits 10 den).length - (Nat.toDigits 10 num).length
    if den ≤ num * Nat.pow 10 guess then -(guess : Int) else -(guess : Int) - 1

/-- the bounds between which every ratio rounds to `x`, and `x` itself, in units of a quarter of the
last place of `x` -/
def quarters (x : Binary64) : Nat × Nat × Nat :=
  let low := if x.mantissa = leastFull ∧ minExponent < x.exponent then 1 else 2
  (4 * x.mantissa - low, 4 * x.mantissa, 4 * x.mantissa + 2)

/-- the better of the two neighbours of `x` on the grid of multiples of `10 ^ place`, if one of them
reads back as `x` -/
def onGrid (x : Binary64) (place : Int) : Option Nat :=
  let (low, mid, high) := x.quarters
  let (unit, parts) := scaled 1 (x.exponent - 2)
  let (up, down) :=
    if 0 ≤ place then (Nat.pow 10 place.toNat, 1) else (1, Nat.pow 10 (-place).toNat)
  let step := up * parts
  let quarter := unit * down
  let d := mid * quarter / step
  let inside (n : Nat) : Bool :=
    if x.mantissa % 2 = 0 then low * quarter ≤ n * step && n * step ≤ high * quarter
    else low * quarter < n * step && n * step < high * quarter
  let below := mid * quarter - d * step
  let above := (d + 1) * step - mid * quarter
  match inside d && 0 < d, inside (d + 1) with
  | false, false => none
  | true, false => some d
  | false, true => some (d + 1)
  | true, true =>
    if below < above then some d
    else if above < below then some (d + 1)
    else some (d + d % 2)

/-- the first grid at or below `place` that holds a neighbour which reads back -/
def search (x : Binary64) (place : Int) : Nat → Nat × Int
  | 0 => ((x.onGrid place).getD 0, place)
  | n + 1 => match x.onGrid place with
    | some d => (d, place)
    | none => search x (place - 1) n

def dropZeros (place : Int) (d : Nat) : Nat → Nat × Int
  | 0 => (d, place)
  | n + 1 => if d % 10 = 0 ∧ d ≠ 0 then dropZeros (place + 1) (d / 10) n else (d, place)

/-- the shortest decimal that reads back as the magnitude of `x`: its digits as a number, and the
place of the last of them -/
def shortest (x : Binary64) : Nat × Int :=
  if x.mantissa = 0 then (0, 0)
  else
    let (d, place) := x.search (decimalPlace x.ratio.1 x.ratio.2) 17
    dropZeros place d 20

end Binary64

end Federation
