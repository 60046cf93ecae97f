import MeshPP.Lib.Digits

/-! # `string_distance::operator-`

The operator writes the exclusive or of the bytes of two numbers over the bytes
of the larger one. What it uses of `CryptoPP::Integer` is a parameter (`Integer`),
and its meaning in base 256 is a hypothesis (`DigitMeaning`). -/

namespace MeshPP.Kbucket
open MeshPP.Lib

/-- `ByteCount`, `GetByte` and `SetByte` on naturals, which are their own `AbsoluteValue`. -/
structure Integer where
  byteCount : Nat → Nat
  getByte : Nat → Nat → Nat
  setByte : Nat → Nat → Nat → Nat

namespace Integer

/-- The bytes are the digits in base 256, and `getByte` is zero beyond the last one. -/
structure DigitMeaning (c : Integer) : Prop where
  byteCount : ∀ n, c.byteCount n = (Nat.digits 256 n).length
  getByte : ∀ n index, c.getByte n index = digitAt 256 n index
  setByte : ∀ n index byte, byte < 256 → ∀ i,
    digitAt 256 (c.setByte n index byte) i = if i = index then byte else digitAt 256 n i

/-! ## The code -/

/-- One round: the bytes of `a` and `b` at `index` are combined. -/
def minusStep (c : Integer) (a b result index : Nat) : Nat :=
  let byteA := if index ≤ c.byteCount a then c.getByte a index else 0
  let byteB := if index ≤ c.byteCount b then c.getByte b index else 0
  c.setByte result index (byteA ^^^ byteB)

/-- `a - b`. -/
def minus (c : Integer) (a b : Nat) : Nat :=
  if a = b then 0
  else (List.range (max (c.byteCount a) (c.byteCount b))).foldl (c.minusStep a b)
    (if a < b then b else a)

/-! ## The exclusive or -/

variable {c : Integer}

/-- The bound of a byte is inclusive, and there is no harm in it. -/
theorem DigitMeaning.byte (h : c.DigitMeaning) (n index : Nat) :
    (if index ≤ c.byteCount n then c.getByte n index else 0) = digitAt 256 n index := by
  split
  · exact h.getByte n index
  · next hout =>
    rw [h.byteCount] at hout
    exact (digitAt_of_length_le (by omega)).symm

theorem DigitMeaning.minusStep_eq (h : c.DigitMeaning) (a b result index : Nat) :
    c.minusStep a b result index = c.setByte result index (digitAt 256 (a ^^^ b) index) := by
  have hxor : digitAt 256 (a ^^^ b) index = digitAt 256 a index ^^^ digitAt 256 b index :=
    digitAt_xor (k := 8) (by decide) a b index
  rw [minusStep, h.byte, h.byte, hxor]

/-- The bytes gone over are those of the exclusive or, the others are still those of the start. -/
theorem DigitMeaning.digitAt_foldl (h : c.DigitMeaning) (a b start n i : Nat) :
    digitAt 256 ((List.range n).foldl (c.minusStep a b) start) i =
      if i < n then digitAt 256 (a ^^^ b) i else digitAt 256 start i := by
  induction n with
  | zero => rw [List.range_zero, List.foldl_nil, if_neg (Nat.not_lt_zero i)]
  | succ n ih =>
    rw [List.range_succ, List.foldl_append, List.foldl_cons, List.foldl_nil, h.minusStep_eq,
      h.setByte _ _ _ (digitAt_lt (by decide) _ _), ih]
    by_cases hi : i = n
    · rw [if_pos hi, if_pos (by omega), hi]
    · rw [if_neg hi]
      exact if_congr (by omega) rfl rfl

theorem DigitMeaning.minus_eq_xor (h : c.DigitMeaning) (a b : Nat) : c.minus a b = a ^^^ b := by
  unfold minus
  split
  · next he => rw [he, Nat.xor_self]
  · refine eq_of_digitAt (by decide : 1 < 256) fun i => ?_
    rw [h.digitAt_foldl, h.byteCount, h.byteCount]
    split
    · rfl
    · next hout =>
      -- both numbers end before `i`
      have ha : digitAt 256 a i = 0 := digitAt_of_length_le (by omega)
      have hb : digitAt 256 b i = 0 := digitAt_of_length_le (by omega)
      have hxor : digitAt 256 (a ^^^ b) i = digitAt 256 a i ^^^ digitAt 256 b i :=
        digitAt_xor (k := 8) (by decide) a b i
      rw [hxor, ha, hb]
      split
      · exact hb
      · exact ha

end Integer

end MeshPP.Kbucket
