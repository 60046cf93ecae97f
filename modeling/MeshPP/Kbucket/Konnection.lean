import Mathlib.Data.Nat.Log
import Mathlib.Tactic.Ring
import MeshPP.Kbucket.StringDistance

/-! # `Konnection` and its distances

A node is known by its id, whose SHA-256 digest is its place. The distance of
two places is computed byte by byte over `CryptoPP::Integer` (`Integer.minus` in base
256), and is their exclusive or. -/

namespace MeshPP.Kbucket
open MeshPP.Lib

/-- SHA-256, decoded as a number. -/
class Sha256 where
  digest : String → Nat
  digest_lt : ∀ str, digest str < 2 ^ 256

def stringDistance [Sha256] (str : String) : Nat := if str = "" then 0 else Sha256.digest str

/-! ## `CryptoPP::Integer` -/

def byteCount (n : Nat) : Nat := if n = 0 then 0 else Nat.log 256 n + 1

def getByte (n index : Nat) : Nat := n / 256 ^ index % 256

def setByte (n index byte : Nat) : Nat := n - getByte n index * 256 ^ index + byte * 256 ^ index

/-- The three functions in base 256. -/
def base256 : Integer := ⟨byteCount, getByte, setByte⟩

theorem setByte_eq (n index byte : Nat) : setByte n index byte =
    256 ^ index * (256 * (n / 256 ^ index / 256) + byte) + n % 256 ^ index := by
  have hn : n = 256 ^ index * (256 * (n / 256 ^ index / 256)) + n % 256 ^ index +
      getByte n index * 256 ^ index := by
    calc
      n = 256 ^ index * (n / 256 ^ index) + n % 256 ^ index := (Nat.div_add_mod _ _).symm
      _ = 256 ^ index * (256 * (n / 256 ^ index / 256) + getByte n index) + n % 256 ^ index := by
        rw [getByte, Nat.div_add_mod (n / 256 ^ index) 256]
      _ = _ := by ring
  have hcleared : n - getByte n index * 256 ^ index =
      256 ^ index * (256 * (n / 256 ^ index / 256)) + n % 256 ^ index :=
    Nat.sub_eq_of_eq_add hn
  rw [setByte, hcleared]
  ring

theorem base256_digitMeaning : base256.DigitMeaning where
  byteCount n := by
    show byteCount n = _
    unfold byteCount
    split
    · next h => rw [h, Nat.digits_zero, List.length_nil]
    · next h => exact (Nat.length_digits 256 n (by decide) h).symm
  getByte n index := (digitAt_eq (by decide) n index).symm
  setByte n index byte h i := by
    show digitAt 256 (setByte n index byte) i = _
    rw [setByte_eq]
    exact digitAt_write (by decide) n index h i

/-! ## `string_distance::operator-` -/

/-- The operator in base 256. -/
def distance : Nat → Nat → Nat := base256.minus

theorem distance_eq_xor (a b : Nat) : distance a b = a ^^^ b :=
  base256_digitMeaning.minus_eq_xor a b

theorem distance_eq_zero {a b : Nat} : distance a b = 0 ↔ a = b := by
  rw [distance_eq_xor]
  exact Nat.xor_eq_zero_iff

/-! ## `Konnection` -/

structure Konnection where
  nodeId : String
  peer : String
  deriving DecidableEq, Repr

def Konnection.distanceFrom [Sha256] (c r : Konnection) : Nat :=
  distance (stringDistance c.nodeId) (stringDistance r.nodeId)

end MeshPP.Kbucket
