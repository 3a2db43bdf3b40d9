import Mathlib.Algebra.Order.Ring.Nat
import Mathlib.Data.Nat.Basic
import Mathlib.Tactic.Ring

/-!
# Fixed-width little-endian integers

`leBytes k n` are the `k` low bytes of `n`, least significant first, and
`fromLe` reads a byte string back.  The round trip `fromLe_leBytes` holds for
every value that fits the width, and `leBytes_fromLe` for every byte string.
-/

namespace DurableActors.Verified.LittleEndian

/-- The `k` low bytes of `n`. -/
def leBytes : Nat → Nat → List UInt8
  | 0, _ => []
  | k + 1, n => UInt8.ofNat (n % 256) :: leBytes k (n / 256)

/-- The value of a byte string. -/
def fromLe : List UInt8 → Nat
  | [] => 0
  | b :: bs => b.toNat + 256 * fromLe bs

@[simp] theorem length_leBytes (k n : Nat) : (leBytes k n).length = k := by
  induction k generalizing n with
  | zero => rfl
  | succ k ih => simp [leBytes, ih]

theorem fromLe_leBytes (k n : Nat) (hn : n < 256 ^ k) : fromLe (leBytes k n) = n := by
  induction k generalizing n with
  | zero =>
    have : n = 0 := by omega
    subst this
    rfl
  | succ k ih =>
    have hdiv : n / 256 < 256 ^ k := by
      apply Nat.div_lt_of_lt_mul
      calc n < 256 ^ (k + 1) := hn
        _ = 256 * 256 ^ k := by ring
    have hbyte : (UInt8.ofNat (n % 256)).toNat = n % 256 := by
      rw [UInt8.toNat_ofNat']
      omega
    show (UInt8.ofNat (n % 256)).toNat + 256 * fromLe (leBytes k (n / 256)) = n
    rw [ih (n / 256) hdiv, hbyte]
    omega

theorem fromLe_lt (bs : List UInt8) : fromLe bs < 256 ^ bs.length := by
  induction bs with
  | nil => decide
  | cons b bs ih =>
    have hb := b.toNat_lt
    show b.toNat + 256 * fromLe bs < 256 ^ (bs.length + 1)
    rw [Nat.pow_succ]
    omega

theorem leBytes_fromLe (bs : List UInt8) : leBytes bs.length (fromLe bs) = bs := by
  induction bs with
  | nil => rfl
  | cons b bs ih =>
    have hb := b.toNat_lt
    have hlow : (b.toNat + 256 * fromLe bs) % 256 = b.toNat := by omega
    have hhigh : (b.toNat + 256 * fromLe bs) / 256 = fromLe bs := by omega
    show UInt8.ofNat ((b.toNat + 256 * fromLe bs) % 256) ::
      leBytes bs.length ((b.toNat + 256 * fromLe bs) / 256) = b :: bs
    rw [hlow, hhigh, ih, UInt8.ofNat_toNat]

end DurableActors.Verified.LittleEndian
