import Mathlib.Data.List.Basic

/-! # Random access into a list, as into a file

`slice b s e` reads positions `s` up to `e`, `overwrite b p w` writes `w` at
position `p` (extending the list, filled up with `fill`, where it is too
short) and `resize b n` truncates or extends. The lemmas say which reads see
which writes; all of them go through the element at one position. -/

namespace MeshPP.Lib

variable {α : Type} (fill : α)

def slice (b : List α) (s e : Nat) : List α := (b.drop s).take (e - s)

def overwrite (b : List α) (p : Nat) (w : List α) : List α :=
  b.take p ++ List.replicate (p - b.length) fill ++ w ++ b.drop (p + w.length)

def resize (b : List α) (n : Nat) : List α :=
  b.take n ++ List.replicate (n - b.length) fill

@[simp] theorem getElem?_slice (b : List α) (s e i : Nat) :
    (slice b s e)[i]? = if i < e - s then b[s + i]? else none := by
  simp [slice, List.getElem?_take, List.getElem?_drop]

theorem length_slice {b : List α} {s e : Nat} (h : e ≤ b.length) :
    (slice b s e).length = e - s := by
  simp only [slice, List.length_take, List.length_drop]; omega

theorem slice_append_slice (b : List α) {s e f : Nat} (hs : s ≤ e) (he : e ≤ f) :
    slice b s e ++ slice b e f = slice b s f := by
  have hd : b.drop e = (b.drop s).drop (e - s) := by
    rw [List.drop_drop]; congr 1; omega
  unfold slice
  rw [hd, show f - s = (e - s) + (f - e) by omega, List.take_add]

theorem slice_eq_nil (b : List α) {s e : Nat} (h : e ≤ s) : slice b s e = [] := by
  simp [slice, Nat.sub_eq_zero_of_le h]

/-- A slice of a slice is a slice. -/
theorem slice_slice (b : List α) {s e i j : Nat} (hj : s + j ≤ e) :
    slice (slice b s e) i j = slice b (s + i) (s + j) := by
  apply List.ext_getElem?
  intro n
  simp only [getElem?_slice]
  have hn : s + j - (s + i) = j - i := by omega
  rw [hn]
  split
  · rw [if_pos (by omega), Nat.add_assoc]
  · rfl

theorem slice_take (b : List α) {s e n : Nat} (h : e ≤ n) :
    slice (b.take n) s e = slice b s e := by
  apply List.ext_getElem?
  intro i
  simp only [getElem?_slice, List.getElem?_take]
  split
  · rw [if_pos (by omega)]
  · rfl

theorem slice_full (b : List α) : slice b 0 b.length = b := by simp [slice]

theorem getElem?_overwrite {b : List α} {p : Nat} (w : List α) (hp : p ≤ b.length) (i : Nat) :
    (overwrite fill b p w)[i]? =
      if i < p then b[i]? else if i < p + w.length then w[i - p]? else b[i]? := by
  have hlen : (b.take p).length = p := by rw [List.length_take]; omega
  rw [overwrite, Nat.sub_eq_zero_of_le hp, List.replicate_zero, List.append_nil,
    List.append_assoc]
  by_cases hi : i < p
  · rw [List.getElem?_append_left (by omega), if_pos hi, List.getElem?_take, if_pos hi]
  · rw [List.getElem?_append_right (by omega), hlen, if_neg hi]
    by_cases hw : i < p + w.length
    · rw [List.getElem?_append_left (by omega), if_pos hw]
    · rw [List.getElem?_append_right (by omega), if_neg hw, List.getElem?_drop]
      congr 1; omega

theorem length_overwrite {b : List α} {p : Nat} (w : List α) (hp : p ≤ b.length) :
    (overwrite fill b p w).length = max b.length (p + w.length) := by
  simp only [overwrite, List.length_append, List.length_take, List.length_replicate,
    List.length_drop]
  omega

theorem slice_overwrite_before {b : List α} {p s e : Nat} (w : List α) (hp : p ≤ b.length)
    (he : e ≤ p) : slice (overwrite fill b p w) s e = slice b s e := by
  apply List.ext_getElem?
  intro n
  simp only [getElem?_slice, getElem?_overwrite fill w hp]
  split
  · rw [if_pos (by omega)]
  · rfl

theorem slice_overwrite_after {b : List α} {p s e : Nat} (w : List α) (hp : p ≤ b.length)
    (hs : p + w.length ≤ s) : slice (overwrite fill b p w) s e = slice b s e := by
  apply List.ext_getElem?
  intro n
  simp only [getElem?_slice, getElem?_overwrite fill w hp]
  split
  · rw [if_neg (by omega), if_neg (by omega)]
  · rfl

/-- A read inside what was written sees the written part. -/
theorem slice_overwrite_at {b : List α} {p i j : Nat} (w : List α) (hp : p ≤ b.length)
    (hj : j ≤ w.length) :
    slice (overwrite fill b p w) (p + i) (p + j) = slice w i j := by
  apply List.ext_getElem?
  intro n
  simp only [getElem?_slice, getElem?_overwrite fill w hp]
  have hn : p + j - (p + i) = j - i := by omega
  rw [hn]
  split
  · rw [if_neg (by omega), if_pos (by omega)]
    congr 1; omega
  · rfl

end MeshPP.Lib
