import Mathlib.Algebra.Order.Ring.Nat
import Mathlib.Data.Nat.Log

/-!
# Naturals as doubles

A program that keeps whole numbers in doubles rounds them to 53 significant bits,
to the nearest such number and to an even significand on a tie.  Up to `2 ^ 53`
nothing is lost.
-/

namespace DurableActors.Verified.Double

/-- The double nearest to a natural number. -/
def ofNat (n : Nat) : Nat :=
  if n ≤ 2 ^ 53 then n
  else
    let unit := 2 ^ (Nat.log 2 n - 52)
    let down := n / unit
    if unit < 2 * (n % unit) ∨ (unit = 2 * (n % unit) ∧ down % 2 = 1) then (down + 1) * unit
    else down * unit

theorem ofNat_eq {n : Nat} (h : n ≤ 2 ^ 53) : ofNat n = n := if_pos h

/-- The first number that is lost. -/
example : ofNat (2 ^ 53 + 1) = 2 ^ 53 := by decide +kernel

end DurableActors.Verified.Double
