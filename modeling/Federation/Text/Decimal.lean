/-!
# Decimal numerals of natural numbers

Writing a natural number, and reading one that has to stay under a bound: an optional `+`, then
digits.  The reader goes from left to right, so of two faults in one numeral the first decides.
-/

namespace Federation.Decimal

def render (n : Nat) : String := String.ofList (Nat.toDigits 10 n)

def value? (c : Char) : Option Nat :=
  if '0' ≤ c ∧ c ≤ '9' then some (c.toNat - 48) else none

inductive Fault where
  | empty
  | invalidDigit
  | tooLarge
  deriving DecidableEq, Repr

def Fault.message : Fault → String
  | .empty => "cannot parse integer from empty string"
  | .invalidDigit => "invalid digit found in string"
  | .tooLarge => "number too large to fit in target type"

/-- the greatest number of 64 bits, 2^64 - 1 -/
def max64 : Nat := 18446744073709551615

/-- the digits `cs` read behind the value `n`, within 64 bits -/
def readFrom (n : Nat) : List Char → Except Fault Nat
  | [] => .ok n
  | c :: cs => match value? c with
    | none => .error .invalidDigit
    | some d => if max64 < n * 10 + d then .error .tooLarge else readFrom (n * 10 + d) cs

def read (s : String) : Except Fault Nat :=
  match s.toList with
  | [] => .error .empty
  | ['+'] => .error .invalidDigit
  | '+' :: cs => readFrom 0 cs
  | cs => readFrom 0 cs

theorem readFrom_nil (n : Nat) : readFrom n [] = .ok n := rfl

end Federation.Decimal
