import MeshPP.Kbucket.Representation

/-! # The metric of the buckets

The distance of two numbers is their exclusive or, whatever their lengths, and
the slot of a distance is the position of its highest bit. -/

namespace MeshPP.Kbucket
open MeshPP.Lib

/-- The exclusive or is a metric in which the distance from one place tells places apart. -/
structure XorMetric (dist : Nat → Nat → Nat) : Prop where
  xor : ∀ a b, dist a b = a ^^^ b
  zero_iff : ∀ a b, dist a b = 0 ↔ a = b
  symm : ∀ a b, dist a b = dist b a
  triangle : ∀ a b c, dist a c ≤ dist a b + dist b c
  apart : ∀ o a b, dist o a = dist o b → a = b

theorem xorMetric_of_eq_xor {dist : Nat → Nat → Nat} (h : ∀ a b, dist a b = a ^^^ b) :
    XorMetric dist where
  xor := h
  zero_iff a b := by
    rw [h]
    exact Nat.xor_eq_zero_iff
  symm a b := by
    rw [h, h]
    exact Nat.xor_comm a b
  triangle a b c := by
    rw [h, h, h]
    exact xor_triangle a b c
  apart o a b he := by
    rw [h, h] at he
    exact Nat.xor_right_inj.mp he

/-- The loop over a distance ends after `i + 1` rounds, where `i` is the position of the highest
bit, and the index is `i`, which `size_t` holds unless the distance has more than `2 ^ 64` bits. -/
structure HighestBit (distance i : Nat) : Prop where
  lower : 2 ^ i ≤ distance
  upper : distance < 2 ^ (i + 1)
  rounds : ∀ fuel, i < fuel → halvings fuel distance = i + 1
  index : indexFromDistance distance = i % 2 ^ 64
  fits : distance < 2 ^ 2 ^ 64 → indexFromDistance distance = i

theorem highestBit_log {distance : Nat} (hz : distance ≠ 0) :
    HighestBit distance (Nat.log 2 distance) where
  lower := Nat.pow_log_le_self 2 hz
  upper := Nat.lt_pow_succ_log_self (by decide) distance
  rounds fuel hfuel := by
    have hlt : distance < 2 ^ fuel := Nat.lt_pow_of_log_lt (by decide) hfuel
    rw [halvings_eq fuel distance hlt, if_neg hz]
  index := indexFromDistance_mod hz
  fits h := by
    rw [indexFromDistance_mod hz]
    exact Nat.mod_eq_of_lt (Nat.log_lt_of_lt_pow hz h)

/-- Distances and slots, where the bytes of `Integer` have their meaning. -/
theorem xor_metric {c : Integer} (h : c.DigitMeaning) :
    XorMetric c.minus ∧ ∀ distance, 0 < distance → ∃ i, HighestBit distance i :=
  ⟨xorMetric_of_eq_xor h.minus_eq_xor, fun _ hpos => ⟨_, highestBit_log hpos.ne'⟩⟩

/-- The operator of the buckets. -/
theorem xor_metric_base256 :
    XorMetric distance ∧ ∀ distance, 0 < distance → ∃ i, HighestBit distance i :=
  xor_metric base256_digitMeaning

end MeshPP.Kbucket
