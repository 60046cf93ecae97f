import Mathlib.Data.Nat.Bitwise
import Mathlib.Data.Nat.Digits.Lemmas

/-! # Digits by their position, and the exclusive or

A number is known from its digits, and where the radix is a power of two the
exclusive or is taken digit by digit. The exclusive or of two numbers is at most
their sum, so it obeys the triangle inequality. -/

namespace MeshPP.Lib

/-! ## Digits -/

/-- The digit at `i`, the least significant one at 0; beyond the last one it is zero. -/
def digitAt (base n i : Nat) : Nat := (Nat.digits base n).getD i 0

variable {base : Nat}

theorem digitAt_eq (hbase : 1 < base) (n i : Nat) : digitAt base n i = n / base ^ i % base :=
  Nat.getD_digits n i hbase

theorem digitAt_lt (hbase : 1 < base) (n i : Nat) : digitAt base n i < base := by
  rw [digitAt_eq hbase]
  exact Nat.mod_lt _ (Nat.zero_lt_of_lt hbase)

theorem digitAt_of_length_le {n i : Nat} (h : (Nat.digits base n).length ≤ i) :
    digitAt base n i = 0 := List.getD_eq_default _ _ h

/-- The low part of a number is that of its low digits. -/
theorem mod_pow_of_digitAt (hbase : 1 < base) {m n : Nat}
    (h : ∀ i, digitAt base m i = digitAt base n i) (k : Nat) :
    m % base ^ k = n % base ^ k := by
  induction k with
  | zero => rw [Nat.pow_zero, Nat.mod_one, Nat.mod_one]
  | succ k ih =>
    have hk := h k
    rw [digitAt_eq hbase, digitAt_eq hbase] at hk
    rw [Nat.mod_pow_succ, Nat.mod_pow_succ, ih, hk]

theorem eq_of_digitAt (hbase : 1 < base) {m n : Nat}
    (h : ∀ i, digitAt base m i = digitAt base n i) : m = n := by
  have hle : ∀ x, x ≤ m + n → x < base ^ (m + n) := fun x hx =>
    Nat.lt_of_le_of_lt hx (Nat.lt_pow_self hbase)
  calc
    m = m % base ^ (m + n) := (Nat.mod_eq_of_lt (hle m (Nat.le_add_right m n))).symm
    _ = n % base ^ (m + n) := mod_pow_of_digitAt hbase h _
    _ = n := Nat.mod_eq_of_lt (hle n (Nat.le_add_left n m))

/-- The digits above the first `k` are those of the quotient. -/
theorem digitAt_div_pow (hbase : 1 < base) (n k i : Nat) :
    digitAt base (n / base ^ k) i = digitAt base n (k + i) := by
  rw [digitAt_eq hbase, digitAt_eq hbase, Nat.div_div_eq_div_mul, Nat.pow_add]

/-- The first `k` digits are those of the remainder. -/
theorem digitAt_mod_pow (hbase : 1 < base) (n : Nat) {k i : Nat} (hi : i < k) :
    digitAt base (n % base ^ k) i = digitAt base n i := by
  have hdvd : base ^ i * base ∣ base ^ k := by
    rw [← Nat.pow_succ]
    exact Nat.pow_dvd_pow base hi
  rw [digitAt_eq hbase, digitAt_eq hbase, ← Nat.mod_mul_right_div_self, Nat.mod_mod_of_dvd n hdvd,
    Nat.mod_mul_right_div_self]

/-- Numbers that differ in one digit. -/
theorem digitAt_write (hbase : 1 < base) (n k : Nat) {d : Nat} (hd : d < base) (i : Nat) :
    digitAt base (base ^ k * (base * (n / base ^ k / base) + d) + n % base ^ k) i =
      if i = k then d else digitAt base n i := by
  have hpos : 0 < base ^ k := Nat.pow_pos (Nat.zero_lt_of_lt hbase)
  have hlow : n % base ^ k < base ^ k := Nat.mod_lt n hpos
  generalize hx : base ^ k * (base * (n / base ^ k / base) + d) + n % base ^ k = x
  have hdiv : x / base ^ k = base * (n / base ^ k / base) + d := by
    rw [← hx, Nat.mul_add_div hpos, Nat.div_eq_of_lt hlow, Nat.add_zero]
  have hmod : x % base ^ k = n % base ^ k := by
    rw [← hx, Nat.mul_add_mod, Nat.mod_eq_of_lt hlow]
  rcases Nat.lt_trichotomy i k with hi | rfl | hi
  · rw [if_neg hi.ne, ← digitAt_mod_pow hbase x hi, hmod, digitAt_mod_pow hbase n hi]
  · rw [if_pos rfl, digitAt_eq hbase, hdiv, Nat.mul_add_mod, Nat.mod_eq_of_lt hd]
  · have hquot : x / base ^ (k + 1) = n / base ^ (k + 1) := by
      rw [Nat.pow_succ, ← Nat.div_div_eq_div_mul, ← Nat.div_div_eq_div_mul, hdiv,
        Nat.mul_add_div (Nat.zero_lt_of_lt hbase), Nat.div_eq_of_lt hd, Nat.add_zero]
    obtain ⟨j, rfl⟩ := Nat.exists_eq_add_of_lt hi
    have hj : k + j + 1 = k + 1 + j := by omega
    rw [if_neg hi.ne', hj, ← digitAt_div_pow hbase, hquot, digitAt_div_pow hbase]

theorem digitAt_xor {k : Nat} (hk : 0 < k) (a b i : Nat) :
    digitAt (2 ^ k) (a ^^^ b) i = digitAt (2 ^ k) a i ^^^ digitAt (2 ^ k) b i := by
  have hbase : 1 < 2 ^ k := Nat.one_lt_two_pow hk.ne'
  rw [digitAt_eq hbase, digitAt_eq hbase, digitAt_eq hbase, ← Nat.pow_mul, Nat.xor_div_two_pow,
    Nat.xor_mod_two_pow]

/-! ## The triangle inequality -/

/-- By halves: the last bit of the exclusive or is that of the sum. -/
theorem xor_le_add (a b : Nat) : a ^^^ b ≤ a + b := by
  induction a using Nat.strongRecOn generalizing b with
  | ind a ih =>
    by_cases ha : a = 0
    · rw [ha, Nat.zero_xor, Nat.zero_add]
    · have hhalf := ih (a / 2) (by omega) (b / 2)
      have hbit : (a ^^^ b) % 2 = (a + b) % 2 := Nat.xor_mod_two_eq
      have hrest : (a ^^^ b) / 2 = a / 2 ^^^ b / 2 := Nat.xor_div_two
      omega

theorem xor_triangle (a b c : Nat) : a ^^^ c ≤ (a ^^^ b) + (b ^^^ c) := by
  have hthrough : (a ^^^ b) ^^^ (b ^^^ c) = a ^^^ c := by
    rw [Nat.xor_assoc, Nat.xor_xor_cancel_left]
  rw [← hthrough]
  exact xor_le_add _ _

end MeshPP.Lib
