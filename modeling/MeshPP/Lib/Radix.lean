import Mathlib.Data.Nat.Digits.Defs
import Mathlib.Data.List.TakeWhile
import Mathlib.Tactic.Ring

/-! # Change of radix

A list of digits, the most significant one first, is some zeros and a number
without leading zeros. `recode` keeps the zeros and writes the number in another
radix, so it can be undone. `mulAdd` is one step of the conversion: it multiplies
the number in a buffer by `mul` and adds `carry`, cell after cell, and stops
where nothing is left to do. -/

namespace MeshPP.Lib

/-! ## Numbers and their digits -/

/-- The value of digits, the most significant one first. -/
def number (base : Nat) (digits : List Nat) : Nat := Nat.ofDigits base digits.reverse

/-- The digits of a number, the most significant one first. -/
def numeral (base n : Nat) : List Nat := (Nat.digits base n).reverse

theorem number_nil (base : Nat) : number base [] = 0 := rfl

theorem number_concat (base : Nat) (digits : List Nat) (d : Nat) :
    number base (digits ++ [d]) = base * number base digits + d := by
  rw [number, List.reverse_append, List.reverse_singleton, List.singleton_append,
    Nat.ofDigits_cons, number, Nat.add_comm]

theorem number_lt {base : Nat} (hbase : 1 < base) {digits : List Nat}
    (h : ∀ d ∈ digits, d < base) : number base digits < base ^ digits.length := by
  rw [number, ← List.length_reverse]
  exact Nat.ofDigits_lt_base_pow_length hbase fun d hd => h d (List.mem_reverse.mp hd)

theorem number_replicate_append (base zeroes : Nat) (digits : List Nat) :
    number base (List.replicate zeroes 0 ++ digits) = number base digits := by
  rw [number, List.reverse_append, List.reverse_replicate, Nat.ofDigits_append_replicate_zero,
    number]

theorem number_numeral (base n : Nat) : number base (numeral base n) = n := by
  rw [number, numeral, List.reverse_reverse, Nat.ofDigits_digits]

theorem numeral_lt {base n d : Nat} (hbase : 1 < base) (h : d ∈ numeral base n) : d < base :=
  Nat.digits_lt_base hbase (List.mem_reverse.mp h)

/-- A numeral is what is left of the digits without their leading zeros. -/
theorem numeral_number {base : Nat} (hbase : 1 < base) {digits : List Nat}
    (h : ∀ d ∈ digits, d < base) :
    numeral base (number base digits) = digits.dropWhile (· = 0) := by
  induction digits with
  | nil => simp [number_nil, numeral]
  | cons d digits ih =>
    by_cases hd : d = 0
    · rw [List.dropWhile_cons_of_pos (by simpa using hd), ← ih fun x hx => h x (.tail d hx), hd,
        number, Nat.ofDigits_reverse_zero_cons, number]
    · rw [List.dropWhile_cons_of_neg (by simpa using hd), numeral, number,
        Nat.digits_ofDigits base hbase, List.reverse_reverse]
      · exact fun x hx => h x (List.mem_reverse.mp hx)
      · intro _
        simpa using hd

theorem dropWhile_numeral {base : Nat} (hbase : 1 < base) (n : Nat) :
    (numeral base n).dropWhile (· = 0) = numeral base n := by
  rw [← numeral_number hbase fun d hd => numeral_lt hbase hd, number_numeral]

/-! ## From one radix to another -/

/-- How many digits are zero before the first one that is not. -/
def leading (digits : List Nat) : Nat := (digits.takeWhile (· = 0)).length

def recode (mul base : Nat) (digits : List Nat) : List Nat :=
  List.replicate (leading digits) 0 ++ numeral base (number mul digits)

theorem replicate_append_dropWhile {α : Type} [DecidableEq α] (a : α) (l : List α) :
    List.replicate (l.takeWhile (· = a)).length a ++ l.dropWhile (· = a) = l := by
  have hprefix : l.takeWhile (· = a) = List.replicate (l.takeWhile (· = a)).length a := by
    refine List.eq_replicate_iff.mpr ⟨rfl, fun x hx => ?_⟩
    simpa using List.mem_takeWhile_imp hx
  rw [← hprefix, List.takeWhile_append_dropWhile]

theorem leading_append (digits : List Nat) :
    List.replicate (leading digits) 0 ++ digits.dropWhile (· = 0) = digits :=
  replicate_append_dropWhile 0 digits

/-- A number that is written with its zeros apart. -/
theorem recode_replicate_append {mul base zeroes : Nat} {digits : List Nat}
    (h : digits.head? ≠ some 0) : recode mul base (List.replicate zeroes 0 ++ digits) =
      List.replicate zeroes 0 ++ numeral base (number mul digits) := by
  have hnone : digits.takeWhile (· = 0) = [] := by
    cases digits with
    | nil => rfl
    | cons d digits =>
      refine List.takeWhile_cons_of_neg ?_
      simpa using h
  rw [recode, number_replicate_append, leading, List.takeWhile_append_of_pos (by simp), hnone,
    List.append_nil, List.length_replicate]

theorem leading_recode {mul base : Nat} (hbase : 1 < base) (digits : List Nat) :
    leading (recode mul base digits) = leading digits := by
  have hnumeral : (numeral base (number mul digits)).takeWhile (· = 0) = [] := by
    have h := List.takeWhile_append_dropWhile (p := fun d : Nat => decide (d = 0))
      (l := numeral base (number mul digits))
    rw [dropWhile_numeral hbase] at h
    simpa using h
  rw [leading, recode, List.takeWhile_append_of_pos (by simp), hnumeral, List.append_nil,
    List.length_replicate]

theorem recode_lt {mul base d : Nat} (hbase : 1 < base) {digits : List Nat}
    (h : d ∈ recode mul base digits) : d < base := by
  obtain hzero | hnumeral := List.mem_append.mp h
  · rw [List.eq_of_mem_replicate hzero]
    exact Nat.zero_lt_of_lt hbase
  · exact numeral_lt hbase hnumeral

theorem recode_recode {mul base : Nat} (hmul : 1 < mul) (hbase : 1 < base) {digits : List Nat}
    (h : ∀ d ∈ digits, d < mul) : recode base mul (recode mul base digits) = digits := by
  have hnumber : number base (recode mul base digits) = number mul digits := by
    rw [recode, number_replicate_append, number_numeral]
  rw [recode, leading_recode hbase, hnumber, numeral_number hmul h, leading_append]

/-! ## One step of the conversion -/

/-- A buffer after a step, what is left to carry and the number of cells gone over. -/
structure Pass where
  buffer : List Nat
  carry : Nat
  i : Nat

/-- `buffer * mul + carry`, on a buffer that holds the least significant digit
first and of which at least `length` cells are gone over. -/
def mulAdd (mul base length : Nat) : List Nat → Nat → Nat → Pass
  | [], carry, i => ⟨[], carry, i⟩
  | d :: buffer, carry, i =>
    if carry ≠ 0 ∨ i < length then
      let rest := mulAdd mul base length buffer ((carry + mul * d) / base) (i + 1)
      ⟨(carry + mul * d) % base :: rest.buffer, rest.carry, rest.i⟩
    else ⟨d :: buffer, carry, i⟩

theorem length_mulAdd (mul base length : Nat) (buffer : List Nat) (carry i : Nat) :
    (mulAdd mul base length buffer carry i).buffer.length = buffer.length := by
  induction buffer generalizing carry i with
  | nil => rfl
  | cons d buffer ih =>
    rw [mulAdd]
    split
    · rw [List.length_cons, ih, List.length_cons]
    · rfl

theorem mulAdd_i_le (mul base length : Nat) (buffer : List Nat) (carry i : Nat) :
    i ≤ (mulAdd mul base length buffer carry i).i ∧
      (mulAdd mul base length buffer carry i).i ≤ i + buffer.length := by
  induction buffer generalizing carry i with
  | nil => exact ⟨Nat.le_refl i, Nat.le_refl i⟩
  | cons d buffer ih =>
    rw [mulAdd, List.length_cons]
    split
    · obtain ⟨hge, hle⟩ := ih ((carry + mul * d) / base) (i + 1)
      dsimp only
      exact ⟨by omega, by omega⟩
    · exact ⟨Nat.le_refl i, Nat.le_add_right i _⟩

theorem mulAdd_digit_lt {mul base length : Nat} (hbase : 0 < base) {buffer : List Nat}
    {carry i : Nat} (h : ∀ d ∈ buffer, d < base) :
    ∀ d ∈ (mulAdd mul base length buffer carry i).buffer, d < base := by
  induction buffer generalizing carry i with
  | nil => exact h
  | cons d buffer ih =>
    rw [mulAdd]
    split
    · intro x hx
      obtain rfl | hx := List.mem_cons.mp hx
      · exact Nat.mod_lt _ hbase
      · exact ih (fun y hy => h y (.tail d hy)) x hx
    · exact h

/-- What the cells behind the first one hold has one digit less. -/
theorem lt_pow_pred {base d rest k : Nat} (hbase : 0 < base)
    (h : d + base * rest < base ^ k) : rest < base ^ (k - 1) := by
  cases k with
  | zero =>
    rw [Nat.pow_zero] at h
    obtain hzero | hrest := Nat.mul_eq_zero.mp (show base * rest = 0 by omega)
    · omega
    · rw [hrest]
      exact Nat.one_pos
  | succ k =>
    rw [Nat.pow_succ'] at h
    exact Nat.lt_of_mul_lt_mul_left (Nat.lt_of_le_of_lt (Nat.le_add_left _ d) h)

/-- No part of the value is lost, whether the step stops early or at the end of the buffer. -/
theorem mulAdd_value (mul : Nat) {base length : Nat} (hbase : 0 < base) {buffer : List Nat}
    (carry i : Nat) (h : Nat.ofDigits base buffer < base ^ (length - i)) :
    Nat.ofDigits base (mulAdd mul base length buffer carry i).buffer +
        base ^ buffer.length * (mulAdd mul base length buffer carry i).carry =
      mul * Nat.ofDigits base buffer + carry := by
  induction buffer generalizing carry i with
  | nil => simp [mulAdd]
  | cons d buffer ih =>
    rw [mulAdd, Nat.ofDigits_cons] at *
    split
    · have hrest := ih ((carry + mul * d) / base) (i + 1) (lt_pow_pred hbase h)
      have hdiv := Nat.mod_add_div (carry + mul * d) base
      dsimp only
      rw [Nat.ofDigits_cons, List.length_cons]
      calc _ = (carry + mul * d) % base + base *
            (Nat.ofDigits base (mulAdd mul base length buffer ((carry + mul * d) / base) (i + 1)).buffer
              + base ^ buffer.length *
                (mulAdd mul base length buffer ((carry + mul * d) / base) (i + 1)).carry) := by ring
        _ = mul * (d + base * Nat.ofDigits base buffer) + carry := by
          rw [hrest, Nat.mul_add, ← Nat.add_assoc, Nat.add_right_comm, hdiv]
          ring
    · next hstop =>
      -- nothing is carried and all cells from here on are zero
      have hlength : length - i = 0 := by omega
      have hcarry : carry = 0 := by omega
      rw [hlength, Nat.pow_zero] at h
      rw [hcarry, Nat.ofDigits_cons, Nat.mul_zero, show d + base * Nat.ofDigits base buffer = 0 by omega]
      rfl

theorem mulAdd_lt (mul : Nat) {base length : Nat} (hbase : 0 < base) {buffer : List Nat}
    (carry i : Nat) (h : Nat.ofDigits base buffer < base ^ (length - i)) :
    Nat.ofDigits base (mulAdd mul base length buffer carry i).buffer <
      base ^ ((mulAdd mul base length buffer carry i).i - i) := by
  induction buffer generalizing carry i with
  | nil => simp [mulAdd]
  | cons d buffer ih =>
    rw [mulAdd]
    rw [Nat.ofDigits_cons] at h
    split
    · have hrest := ih ((carry + mul * d) / base) (i + 1) (lt_pow_pred hbase h)
      have hi := (mulAdd_i_le mul base length buffer ((carry + mul * d) / base) (i + 1)).1
      dsimp only
      generalize mulAdd mul base length buffer ((carry + mul * d) / base) (i + 1) = rest at *
      obtain ⟨k, hk⟩ := Nat.exists_eq_add_of_le hi
      rw [hk, Nat.add_sub_cancel_left] at hrest
      rw [Nat.ofDigits_cons, hk, show i + 1 + k - i = k + 1 by omega, Nat.pow_succ']
      calc _ < base + base * Nat.ofDigits base rest.buffer :=
            Nat.add_lt_add_right (Nat.mod_lt _ hbase) _
        _ = base * (Nat.ofDigits base rest.buffer + 1) := by ring
        _ ≤ base * base ^ k := Nat.mul_le_mul_left base hrest
    · next hstop =>
      rw [show length - i = 0 by omega] at h
      rw [Nat.ofDigits_cons, Nat.sub_self]
      exact h

/-! ## The number in a buffer -/

/-- A buffer sized by a fraction that is at least the ratio of the logarithms is large
enough for every length. -/
theorem pow_le_pow_size {mul base p q : Nat} (hq : 0 < q) (hbase : 0 < base)
    (h : mul ^ q ≤ base ^ p) (n : Nat) : mul ^ n ≤ base ^ (n * p / q + 1) := by
  have hexp : n * p ≤ (n * p / q + 1) * q := by
    rw [Nat.mul_comm _ q]
    exact (Nat.lt_mul_div_succ (n * p) hq).le
  refine (Nat.pow_le_pow_iff_left (Nat.pos_iff_ne_zero.mp hq)).mp ?_
  calc (mul ^ n) ^ q = (mul ^ q) ^ n := by rw [← Nat.pow_mul, Nat.mul_comm, Nat.pow_mul]
    _ ≤ (base ^ p) ^ n := Nat.pow_le_pow_left h n
    _ = base ^ (n * p) := by rw [← Nat.pow_mul, Nat.mul_comm]
    _ ≤ base ^ ((n * p / q + 1) * q) := Nat.pow_le_pow_right hbase hexp
    _ = (base ^ (n * p / q + 1)) ^ q := by rw [Nat.pow_mul]

/-- A buffer of `size` cells that holds `value` in its first `length` cells. -/
structure Holds (base size value length : Nat) (buffer : List Nat) : Prop where
  length_buffer : buffer.length = size
  length_le : length ≤ size
  digit_lt : ∀ d ∈ buffer, d < base
  value_eq : Nat.ofDigits base buffer = value
  value_lt : value < base ^ length

theorem Holds.zero {base : Nat} (hbase : 0 < base) (size : Nat) :
    Holds base size 0 0 (List.replicate size 0) where
  length_buffer := List.length_replicate
  length_le := Nat.zero_le size
  digit_lt d hd := by rw [List.eq_of_mem_replicate hd]; exact hbase
  value_eq := Nat.ofDigits_replicate_zero
  value_lt := Nat.one_pos

/-- A step whose result fits in the buffer carries nothing out of it. -/
theorem Holds.mulAdd {mul base size value length : Nat} {buffer : List Nat} (hbase : 0 < base)
    (h : Holds base size value length buffer) (carry : Nat)
    (hfit : mul * value + carry < base ^ size) :
    (mulAdd mul base length buffer carry 0).carry = 0 ∧
      Holds base size (mul * value + carry) (mulAdd mul base length buffer carry 0).i
        (mulAdd mul base length buffer carry 0).buffer := by
  have hlt : Nat.ofDigits base buffer < base ^ (length - 0) := by
    rw [h.value_eq]
    exact h.value_lt
  have hvalue := mulAdd_value mul hbase carry 0 hlt
  rw [h.value_eq, h.length_buffer] at hvalue
  have hcarry : (Lib.mulAdd mul base length buffer carry 0).carry = 0 := by
    by_contra hne
    have := Nat.le_mul_of_pos_right (base ^ size) (Nat.pos_of_ne_zero hne)
    omega
  rw [hcarry, Nat.mul_zero, Nat.add_zero] at hvalue
  refine ⟨hcarry, ?_, ?_, mulAdd_digit_lt hbase h.digit_lt, hvalue, ?_⟩
  · rw [length_mulAdd, h.length_buffer]
  · have := (mulAdd_i_le mul base length buffer carry 0).2
    rw [h.length_buffer] at this
    omega
  · have := mulAdd_lt mul hbase carry 0 hlt
    rwa [hvalue] at this

/-- One more digit of a number that is read from the front. -/
theorem Holds.concat {mul base size length d : Nat} {digits buffer : List Nat}
    (hmul : 1 < mul) (hbase : 0 < base) (h : Holds base size (number mul digits) length buffer)
    (hdigits : ∀ x ∈ digits ++ [d], x < mul) (hfit : mul ^ (digits.length + 1) ≤ base ^ size) :
    (Lib.mulAdd mul base length buffer d 0).carry = 0 ∧
      Holds base size (number mul (digits ++ [d])) (Lib.mulAdd mul base length buffer d 0).i
        (Lib.mulAdd mul base length buffer d 0).buffer := by
  have hlt := number_lt hmul hdigits
  rw [List.length_append, List.length_singleton] at hlt
  rw [number_concat] at hlt ⊢
  exact h.mulAdd hbase d (Nat.lt_of_lt_of_le hlt hfit)

/-- The cells in use, without zeros in front, are the digits of the value. -/
theorem Holds.dropWhile {base size value length : Nat} {buffer : List Nat} (hbase : 1 < base)
    (h : Holds base size value length buffer) :
    (buffer.take length).reverse.dropWhile (· = 0) = numeral base value := by
  have hlength : (buffer.take length).length = length := by
    rw [List.length_take, h.length_buffer, Nat.min_eq_left h.length_le]
  have hsplit := h.value_eq
  rw [← List.take_append_drop length buffer, Nat.ofDigits_append, hlength] at hsplit
  have hdrop : Nat.ofDigits base (buffer.drop length) = 0 := by
    by_contra hne
    have := Nat.le_mul_of_pos_right (base ^ length) (Nat.pos_of_ne_zero hne)
    have := h.value_lt
    omega
  rw [← numeral_number hbase, number, List.reverse_reverse]
  · rw [hdrop, Nat.mul_zero, Nat.add_zero] at hsplit
    rw [hsplit]
  · intro d hd
    exact h.digit_lt d (List.mem_of_mem_take (List.mem_reverse.mp hd))

end MeshPP.Lib
