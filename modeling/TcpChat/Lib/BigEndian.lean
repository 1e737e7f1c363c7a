import Mathlib.Data.List.Basic
import Mathlib.Data.List.Induction
import Mathlib.Tactic.Ring
import Mathlib.Algebra.Order.Ring.Nat

/-!
# Big-endian numbers

`toBE k n` is the number `n` in `k` bytes, most significant byte first, and `ofBE` reads such a string back.
-/

namespace TcpChat.Lib

/-- The last `k` base-256 digits of `n`, most significant first. -/
def toBE : ℕ → ℕ → List UInt8
  | 0, _ => []
  | k + 1, n => toBE k (n / 256) ++ [UInt8.ofNat n]

/-- The number whose base-256 digits are `l`, most significant first. -/
def ofBE (l : List UInt8) : ℕ := l.foldl (fun a b => a * 256 + b.toNat) 0

@[simp] theorem length_toBE (k n : ℕ) : (toBE k n).length = k := by
  induction k generalizing n with
  | zero => rfl
  | succ k ih => simp [toBE, ih]

@[simp] theorem ofBE_nil : ofBE [] = 0 := rfl

theorem ofBE_concat (l : List UInt8) (b : UInt8) : ofBE (l ++ [b]) = ofBE l * 256 + b.toNat := by
  simp [ofBE, List.foldl_append]

/-- Writing and reading back keeps the number modulo `256 ^ k`. -/
theorem ofBE_toBE (k n : ℕ) : ofBE (toBE k n) = n % 256 ^ k := by
  induction k generalizing n with
  | zero => simp [toBE, Nat.mod_one]
  | succ k ih =>
    have hd : n % 256 ^ (k + 1) = n % 256 + 256 * (n / 256 % 256 ^ k) := by rw [pow_succ', Nat.mod_mul]
    rw [toBE, ofBE_concat, ih, hd, UInt8.toNat_ofNat']
    omega

theorem ofBE_toBE_of_lt {k n : ℕ} (h : n < 256 ^ k) : ofBE (toBE k n) = n := by
  rw [ofBE_toBE, Nat.mod_eq_of_lt h]

/-- Reading and writing back gives the string. -/
theorem toBE_ofBE (l : List UInt8) : toBE l.length (ofBE l) = l := by
  induction l using List.reverseRecOn with
  | nil => rfl
  | append_singleton l b ih =>
    have hdiv : (ofBE l * 256 + b.toNat) / 256 = ofBE l := by have := b.toNat_lt; omega
    have hlast : UInt8.ofNat (ofBE l * 256 + b.toNat) = b := by
      rw [← UInt8.toNat_inj, UInt8.toNat_ofNat']
      have := b.toNat_lt
      omega
    rw [List.length_append, List.length_singleton, toBE, ofBE_concat, hdiv, hlast, ih]

end TcpChat.Lib
