/-!
# Hexadecimal digits

A digit of base sixteen in small or capital letters, and its value; letters of both kinds are read.
-/

namespace Federation.Hex

/-- the last digit of `n`, in small letters -/
def small (n : Nat) : Char := Nat.digitChar (n % 16)

def capital (n : Nat) : Char := (small n).toUpper

def value? (b : UInt8) : Option Nat :=
  let n := b.toNat
  if 48 ≤ n ∧ n ≤ 57 then some (n - 48)
  else if 97 ≤ n ∧ n ≤ 102 then some (n - 87)
  else if 65 ≤ n ∧ n ≤ 70 then some (n - 55)
  else none

theorem value?_capital : ∀ n < 16, value? (UInt8.ofNat (capital n).toNat) = some n := by decide

theorem value?_small : ∀ n < 16, value? (UInt8.ofNat (small n).toNat) = some n := by decide

end Federation.Hex
