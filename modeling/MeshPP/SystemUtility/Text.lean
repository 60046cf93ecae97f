import Mathlib.Data.Nat.Digits.Defs
import MeshPP.SystemUtility.BlockFile

/-! # A serialization of items as text

Numbers are written in decimal digits, the lowest one first, and lists of
numbers with commas between them. Keys and values become lists of numbers, so
this is one instance of the serializations the containers are generic in. -/

namespace MeshPP.SystemUtility

def comma : UInt8 := 44

def numberText (n : Nat) : Bytes := (Nat.digits 10 n).map fun d => UInt8.ofNat (48 + d)

def readNumber (text : Bytes) : Nat := Nat.ofDigits 10 (text.map fun c => c.toNat - 48)

def numbersText (ns : List Nat) : Bytes := [comma].intercalate (ns.map numberText)

def readNumbers (text : Bytes) : List Nat := (text.splitOn comma).map readNumber

theorem digit_toNat {d : Nat} (h : d < 10) : (UInt8.ofNat (48 + d)).toNat = 48 + d := by
  rw [UInt8.toNat_ofNat']
  omega

theorem readNumber_numberText (n : Nat) : readNumber (numberText n) = n := by
  have hdigits : ((numberText n).map fun c => c.toNat - 48) = Nat.digits 10 n := by
    rw [numberText, List.map_map]
    conv_rhs => rw [← List.map_id (Nat.digits 10 n)]
    refine List.map_congr_left fun d hd => ?_
    rw [Function.comp_apply, digit_toNat (Nat.digits_lt_base (by omega) hd)]
    exact Nat.add_sub_cancel_left 48 d
  rw [readNumber, hdigits, Nat.ofDigits_digits]

theorem comma_notMem_numberText (n : Nat) : comma ∉ numberText n := by
  intro h
  obtain ⟨d, hd, hc⟩ := List.mem_map.mp h
  have h1 := digit_toNat (Nat.digits_lt_base (by omega) hd)
  rw [hc] at h1
  simp only [comma, UInt8.reduceToNat] at h1
  omega

theorem readNumbers_numbersText {ns : List Nat} (h : ns ≠ []) :
    readNumbers (numbersText ns) = ns := by
  rw [readNumbers, numbersText, List.splitOn_intercalate, List.map_map]
  · conv_rhs => rw [← List.map_id ns]
    exact List.map_congr_left fun n _ => readNumber_numberText n
  · intro l hl
    obtain ⟨n, -, rfl⟩ := List.mem_map.mp hl
    exact comma_notMem_numberText n
  · simpa using h

theorem numbersText_ne_nil {ns : List Nat} (h : 1 < ns.length) : numbersText ns ≠ [] := by
  obtain _ | ⟨a, _ | ⟨b, ns⟩⟩ := ns
  · simp at h
  · simp at h
  · simp [numbersText, List.intercalate]

/-- The serialization given by an encoding in at least two numbers. -/
def Codec.ofNumbers {α : Type} (encode : α → List Nat) (decode : List Nat → Option α)
    (hlen : ∀ a, 1 < (encode a).length) (h : ∀ a, decode (encode a) = some a) : Codec α where
  toString a := numbersText (encode a)
  fromString text := decode (readNumbers text)
  toString_ne_nil a := numbersText_ne_nil (hlen a)
  fromString_toString a := by
    rw [readNumbers_numbersText (List.ne_nil_of_length_pos (by have := hlen a; omega)), h]

def stringNumbers (s : String) : List Nat := s.toList.map Char.toNat

theorem length_stringNumbers (s : String) : (stringNumbers s).length = s.length := by
  rw [stringNumbers, List.length_map, String.length_toList]

def numbersString (ns : List Nat) : String := String.ofList (ns.map Char.ofNat)

theorem numbersString_stringNumbers (s : String) : numbersString (stringNumbers s) = s := by
  simp [numbersString, stringNumbers, List.map_map, Function.comp_def]

def packetNumbers : Option Nat → List Nat
  | none => [0]
  | some v => [1, v]

def numbersPacket : List Nat → Option Nat
  | [1, v] => some v
  | _ => none

theorem numbersPacket_packetNumbers (p : Option Nat) : numbersPacket (packetNumbers p) = p := by
  cases p <;> rfl

def natItem : Codec (BlockItem Nat Nat) :=
  .ofNumbers (fun it => it.key :: packetNumbers it.item)
    (fun ns => ns.head?.map fun key => ⟨key, numbersPacket ns.tail⟩)
    (fun it => by cases h : it.item <;> simp [packetNumbers])
    (fun it => by simp [numbersPacket_packetNumbers])

def stringItem : Codec (BlockItem String Nat) :=
  .ofNumbers (fun it => it.key.length :: (stringNumbers it.key ++ packetNumbers it.item))
    (fun ns => ns.head?.map fun n =>
      ⟨numbersString (ns.tail.take n), numbersPacket (ns.tail.drop n)⟩)
    (fun it => by cases h : it.item <;> simp [packetNumbers])
    (fun it => by
      simp [← length_stringNumbers, numbersString_stringNumbers, numbersPacket_packetNumbers])

def indexItem : Codec (BlockItem String String) :=
  .ofNumbers (fun it => it.key.length :: (stringNumbers it.key ++
      it.item.elim [0] fun v => 1 :: stringNumbers v))
    (fun ns => ns.head?.map fun n =>
      ⟨numbersString (ns.tail.take n), if (ns.tail.drop n).head? = some 1 then
        some (numbersString (ns.tail.drop n).tail) else none⟩)
    (fun it => by cases h : it.item <;> simp)
    (fun it => by
      obtain ⟨key, _ | v⟩ := it <;> simp [← length_stringNumbers, numbersString_stringNumbers])

end MeshPP.SystemUtility
