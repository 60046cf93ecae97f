import MeshPP.Lib.Radix

/-! # Base58

`toBase58` and `fromBase58` convert the number that follows the leading zeros
in a buffer sized by a fraction. A buffer is a list with its last cell first, as
the loops go over it from `rbegin`, and its cells and the counters are numbers.
`fromBase58` reads a C string, so it ends at the first NUL. The counters are
those of strings whose length is in the range of `int`, and `isspace` is that
of the C locale. -/

namespace MeshPP.CryptoUtility

open MeshPP.Lib

/-- The characters of a `std::string`. -/
abbrev Bytes := List UInt8

/-- How a call can end other than by returning. -/
inductive Fault where
  | assertion
  | exceptionPrivateKey (privKey : Bytes)
  | exceptionPublicKey (pubKey : Bytes)
  | runtimeError (what : String)
  | hashVerificationFailed
  | invalidCiphertext
deriving DecidableEq

/-! ## The code -/

def pszBase58 : Bytes :=
  ['1', '2', '3', '4', '5', '6', '7', '8', '9', 'A', 'B', 'C', 'D', 'E', 'F', 'G', 'H', 'J', 'K',
    'L', 'M', 'N', 'P', 'Q', 'R', 'S', 'T', 'U', 'V', 'W', 'X', 'Y', 'Z', 'a', 'b', 'c', 'd', 'e',
    'f', 'g', 'h', 'i', 'j', 'k', 'm', 'n', 'o', 'p', 'q', 'r', 's', 't', 'u', 'v', 'w', 'x', 'y',
    'z'].map Char.toUInt8

def mapBase58 : List Int := [
  -1,-1,-1,-1,-1,-1,-1,-1, -1,-1,-1,-1,-1,-1,-1,-1,
  -1,-1,-1,-1,-1,-1,-1,-1, -1,-1,-1,-1,-1,-1,-1,-1,
  -1,-1,-1,-1,-1,-1,-1,-1, -1,-1,-1,-1,-1,-1,-1,-1,
  -1, 0, 1, 2, 3, 4, 5, 6,  7, 8,-1,-1,-1,-1,-1,-1,
  -1, 9,10,11,12,13,14,15, 16,-1,17,18,19,20,21,-1,
  22,23,24,25,26,27,28,29, 30,31,32,-1,-1,-1,-1,-1,
  -1,33,34,35,36,37,38,39, 40,41,42,43,-1,44,45,46,
  47,48,49,50,51,52,53,54, 55,56,57,-1,-1,-1,-1,-1,
  -1,-1,-1,-1,-1,-1,-1,-1, -1,-1,-1,-1,-1,-1,-1,-1,
  -1,-1,-1,-1,-1,-1,-1,-1, -1,-1,-1,-1,-1,-1,-1,-1,
  -1,-1,-1,-1,-1,-1,-1,-1, -1,-1,-1,-1,-1,-1,-1,-1,
  -1,-1,-1,-1,-1,-1,-1,-1, -1,-1,-1,-1,-1,-1,-1,-1,
  -1,-1,-1,-1,-1,-1,-1,-1, -1,-1,-1,-1,-1,-1,-1,-1,
  -1,-1,-1,-1,-1,-1,-1,-1, -1,-1,-1,-1,-1,-1,-1,-1,
  -1,-1,-1,-1,-1,-1,-1,-1, -1,-1,-1,-1,-1,-1,-1,-1,
  -1,-1,-1,-1,-1,-1,-1,-1, -1,-1,-1,-1,-1,-1,-1,-1]

def isspace (c : UInt8) : Bool := c == 32 || (9 ≤ c && c ≤ 13)

/-- The loop of `toBase58` over the bytes. -/
def writeDigits : Bytes → Nat → List Nat → Except Fault (Nat × List Nat)
  | [], length, b58 => .ok (length, b58)
  | byte :: bytes, length, b58 =>
    let pass := mulAdd 256 58 length b58 byte.toNat 0
    if pass.carry ≠ 0 then .error .assertion else writeDigits bytes pass.i pass.buffer

def toBase58 (rawStr : Bytes) : Except Fault Bytes := do
  let zeroes := (rawStr.takeWhile (· = 0)).length
  let size := rawStr.length * 138 / 100 + 1
  let (length, b58) ← writeDigits (rawStr.dropWhile (· = 0)) 0 (List.replicate size 0)
  let digits := (b58.take length).reverse.dropWhile (· = 0)
  return List.replicate zeroes 49 ++ digits.map fun d => pszBase58.getD d 0

/-- The loop of `fromBase58` over the characters, `none` after one that is no digit. -/
def readDigits : Bytes → Nat → List Nat → Except Fault (Option (Nat × List Nat × Bytes))
  | [], length, b256 => .ok (some (length, b256, []))
  | c :: psz, length, b256 =>
    if isspace c then .ok (some (length, b256, c :: psz))
    else
      let carry := mapBase58.getD c.toNat (-1)
      if carry = -1 then .ok none
      else
        let pass := mulAdd 58 256 length b256 carry.toNat 0
        if pass.carry ≠ 0 then .error .assertion else readDigits psz pass.i pass.buffer

def fromBase58 (strB58 : Bytes) : Except Fault Bytes := do
  let psz := (strB58.takeWhile (· ≠ 0)).dropWhile isspace
  let zeroes := (psz.takeWhile (· = 49)).length
  let psz := psz.dropWhile (· = 49)
  let size := psz.length * 733 / 1000 + 1
  match ← readDigits psz 0 (List.replicate size 0) with
  | none => return []
  | some (length, b256, psz) =>
    if psz.dropWhile isspace ≠ [] then return []
    else
      let digits := (b256.take length).reverse.dropWhile (· = 0)
      return List.replicate zeroes 0 ++ digits.map UInt8.ofNat

/-! ## Characters and digits -/

/-- A character of the alphabet for every digit. -/
def symbol (d : Nat) : UInt8 := pszBase58.getD d 0

def digit (c : UInt8) : Nat := (mapBase58.getD c.toNat (-1)).toNat

/-- All characters are of the alphabet. -/
def Alphabet (t : Bytes) : Prop := ∀ c ∈ t, c ∈ pszBase58

instance (t : Bytes) : Decidable (Alphabet t) :=
  inferInstanceAs (Decidable (∀ c ∈ t, c ∈ pszBase58))

theorem symbol_mem {d : Nat} (h : d < 58) : symbol d ∈ pszBase58 := by
  have hlt : d < pszBase58.length := h
  rw [symbol, ← List.getElem_eq_getD 0]
  exact List.getElem_mem hlt

theorem digit_symbol {d : Nat} (h : d < 58) : digit (symbol d) = d := by
  revert d
  decide +kernel

/-- What the digits of the alphabet are, and what its characters are not. -/
theorem of_mem_alphabet {c : UInt8} (h : c ∈ pszBase58) :
    digit c < 58 ∧ symbol (digit c) = c ∧ (digit c = 0 ↔ c = 49) ∧ isspace c = false ∧ c ≠ 0 := by
  revert c
  decide +kernel

/-- Every byte that the table knows is the symbol of its digit. -/
theorem mapBase58_ofNat {n : Nat} (h : n < 256) : mapBase58.getD n (-1) = -1 ∨
    ((mapBase58.getD n (-1)).toNat < 58 ∧
      symbol (mapBase58.getD n (-1)).toNat = UInt8.ofNat n) := by
  revert n
  decide +kernel

theorem mapBase58_ne {c : UInt8} (h : c ∈ pszBase58) : mapBase58.getD c.toNat (-1) ≠ -1 := by
  revert c
  decide +kernel

theorem mapBase58_eq_iff (c : UInt8) : mapBase58.getD c.toNat (-1) = -1 ↔ c ∉ pszBase58 := by
  refine ⟨fun h hc => mapBase58_ne hc h, fun hc => ?_⟩
  obtain h | ⟨hlt, hsymbol⟩ := mapBase58_ofNat c.toNat_lt
  · exact h
  · rw [UInt8.ofNat_toNat] at hsymbol
    exact absurd (hsymbol ▸ symbol_mem hlt) hc

theorem Alphabet.digit_lt {t : Bytes} (h : Alphabet t) : ∀ d ∈ t.map digit, d < 58 := by
  intro d hd
  obtain ⟨c, hc, rfl⟩ := List.mem_map.mp hd
  exact (of_mem_alphabet (h c hc)).1

theorem Alphabet.map_symbol {t : Bytes} (h : Alphabet t) : (t.map digit).map symbol = t := by
  rw [List.map_map]
  conv_rhs => rw [← List.map_id t]
  exact List.map_congr_left fun c hc => (of_mem_alphabet (h c hc)).2.1

theorem alphabet_map_symbol {digits : List Nat} (h : ∀ d ∈ digits, d < 58) :
    Alphabet (digits.map symbol) := by
  intro c hc
  obtain ⟨d, hd, rfl⟩ := List.mem_map.mp hc
  exact symbol_mem (h d hd)

theorem map_digit_symbol {digits : List Nat} (h : ∀ d ∈ digits, d < 58) :
    (digits.map symbol).map digit = digits := by
  rw [List.map_map]
  conv_rhs => rw [← List.map_id digits]
  exact List.map_congr_left fun d hd => digit_symbol (h d hd)

theorem toNat_lt (s : Bytes) : ∀ d ∈ s.map UInt8.toNat, d < 256 := by
  intro d hd
  obtain ⟨c, -, rfl⟩ := List.mem_map.mp hd
  exact c.toNat_lt

theorem map_ofNat_toNat (s : Bytes) : (s.map UInt8.toNat).map UInt8.ofNat = s := by
  rw [List.map_map]
  conv_rhs => rw [← List.map_id s]
  exact List.map_congr_left fun c _ => UInt8.ofNat_toNat

theorem map_toNat_ofNat {digits : List Nat} (h : ∀ d ∈ digits, d < 256) :
    (digits.map UInt8.ofNat).map UInt8.toNat = digits := by
  rw [List.map_map]
  conv_rhs => rw [← List.map_id digits]
  exact List.map_congr_left fun d hd => UInt8.toNat_ofNat_of_lt' (h d hd)

/-! ## Texts and what they stand for -/

/-- The text of a byte string. -/
def encode (s : Bytes) : Bytes := (recode 256 58 (s.map UInt8.toNat)).map symbol

/-- The byte string of a text. -/
def decode (t : Bytes) : Bytes := (recode 58 256 (t.map digit)).map UInt8.ofNat

theorem encode_alphabet (s : Bytes) : Alphabet (encode s) :=
  alphabet_map_symbol fun _ hd => recode_lt (by decide) hd

theorem decode_encode (s : Bytes) : decode (encode s) = s := by
  rw [decode, encode, map_digit_symbol fun _ hd => recode_lt (by decide) hd,
    recode_recode (by decide) (by decide) (toNat_lt s), map_ofNat_toNat]

theorem encode_decode {t : Bytes} (h : Alphabet t) : encode (decode t) = t := by
  rw [encode, decode, map_toNat_ofNat fun _ hd => recode_lt (by decide) hd,
    recode_recode (by decide) (by decide) h.digit_lt, h.map_symbol]

/-! ## toBase58 -/

theorem writeDigits_spec {size n : Nat} (hsize : 256 ^ n ≤ 58 ^ size) (pre : Bytes) {bytes : Bytes}
    (hn : pre.length + bytes.length ≤ n) {length : Nat} {b58 : List Nat}
    (h : Holds 58 size (number 256 (pre.map UInt8.toNat)) length b58) :
    ∃ length' b58', writeDigits bytes length b58 = .ok (length', b58') ∧
      Holds 58 size (number 256 ((pre ++ bytes).map UInt8.toNat)) length' b58' := by
  induction bytes generalizing pre length b58 with
  | nil => exact ⟨length, b58, rfl, by rwa [List.append_nil]⟩
  | cons byte bytes ih =>
    rw [List.length_cons] at hn
    have hdigits := toNat_lt (pre ++ [byte])
    rw [List.map_append, List.map_singleton] at hdigits
    have hfit : 256 ^ ((pre.map UInt8.toNat).length + 1) ≤ 58 ^ size := by
      rw [List.length_map]
      exact Nat.le_trans (Nat.pow_le_pow_right (by decide) (by omega)) hsize
    obtain ⟨hcarry, hnext⟩ := h.concat (by decide) (by decide) hdigits hfit
    have hih := ih (pre ++ [byte]) (by rw [List.length_append, List.length_singleton]; omega)
      (by rwa [List.map_append, List.map_singleton])
    rw [writeDigits]
    simpa [hcarry] using hih

/-- The zeros in front of a string stay zeros. -/
theorem recode_map {mul base : Nat} (f : UInt8 → Nat) {zero : UInt8} (zeroes : Nat) {rest : Bytes}
    (hzero : f zero = 0) (hrest : ∀ c ∈ rest.head?, f c ≠ 0) :
    recode mul base ((List.replicate zeroes zero ++ rest).map f) =
      List.replicate zeroes 0 ++ numeral base (number mul (rest.map f)) := by
  have hhead : (rest.map f).head? ≠ some 0 := by
    intro h0
    rw [List.head?_map] at h0
    obtain ⟨c, hc, hfc⟩ := Option.map_eq_some_iff.mp h0
    exact hrest c hc hfc
  rw [List.map_append, List.map_replicate, hzero, recode_replicate_append hhead]

theorem head?_dropWhile_ne {zero c : UInt8} {s : Bytes}
    (h : c ∈ (s.dropWhile (· = zero)).head?) : c ≠ zero := by
  have hne := List.head?_dropWhile_not (· = zero) s
  rw [Option.mem_def.mp h] at hne
  simpa using hne

theorem toBase58_eq (s : Bytes) : toBase58 s = .ok (encode s) := by
  have hsize : 256 ^ s.length ≤ 58 ^ (s.length * 138 / 100 + 1) :=
    pow_le_pow_size (by decide) (by decide) (by decide +kernel) s.length
  have hn : (s.dropWhile (· = 0)).length ≤ s.length := List.length_dropWhile_le _ _
  obtain ⟨length, b58, hloop, hholds⟩ := writeDigits_spec hsize [] (by simpa using hn)
    (Holds.zero (by decide) (s.length * 138 / 100 + 1))
  rw [List.nil_append] at hholds
  have hencode : encode s = List.replicate (s.takeWhile (· = 0)).length 49 ++
      (numeral 58 (number 256 ((s.dropWhile (· = 0)).map UInt8.toNat))).map symbol := by
    conv_lhs => rw [encode, ← replicate_append_dropWhile 0 s]
    rw [recode_map UInt8.toNat _ rfl fun c hc => ?_]
    · rw [List.map_append, List.map_replicate]
      rfl
    · intro h0
      exact head?_dropWhile_ne hc (UInt8.toNat_inj.mp h0)
  rw [hencode, ← hholds.dropWhile (by decide), toBase58, hloop]
  rfl

/-! ## fromBase58 -/

/-- The characters up to the next space. -/
def token (psz : Bytes) : Bytes := psz.takeWhile fun c => !isspace c

def afterToken (psz : Bytes) : Bytes := psz.dropWhile fun c => !isspace c

theorem token_append_afterToken (psz : Bytes) : token psz ++ afterToken psz = psz :=
  List.takeWhile_append_dropWhile

theorem token_append {t : Bytes} (h : ∀ c ∈ t, isspace c = false) (rest : Bytes) :
    token (t ++ rest) = t ++ token rest ∧ afterToken (t ++ rest) = afterToken rest := by
  have hpos : ∀ c ∈ t, (!isspace c) = true := fun c hc => by rw [h c hc]; rfl
  exact ⟨List.takeWhile_append_of_pos hpos, List.dropWhile_append_of_pos hpos⟩

theorem readDigits_spec {size n : Nat} (hsize : 58 ^ n ≤ 256 ^ size) (pre : Bytes) {psz : Bytes}
    (hpre : Alphabet pre) (hn : pre.length + psz.length ≤ n) {length : Nat} {b256 : List Nat}
    (h : Holds 256 size (number 58 (pre.map digit)) length b256) :
    (Alphabet (token psz) → ∃ length' b256',
        readDigits psz length b256 = .ok (some (length', b256', afterToken psz)) ∧
        Holds 256 size (number 58 ((pre ++ token psz).map digit)) length' b256') ∧
      (¬Alphabet (token psz) → readDigits psz length b256 = .ok none) := by
  induction psz generalizing pre length b256 with
  | nil => exact ⟨fun _ => ⟨length, b256, rfl, by rwa [token, List.takeWhile_nil, List.append_nil]⟩,
      fun hne => absurd (fun c hc => nomatch hc) hne⟩
  | cons c psz ih =>
    rw [readDigits]
    by_cases hspace : isspace c
    · have htoken : token (c :: psz) = [] := List.takeWhile_cons_of_neg (by simpa using hspace)
      have hafter : afterToken (c :: psz) = c :: psz :=
        List.dropWhile_cons_of_neg (by simpa using hspace)
      rw [htoken, hafter, List.append_nil, if_pos hspace]
      exact ⟨fun _ => ⟨length, b256, rfl, h⟩, fun hne => absurd (fun c hc => nomatch hc) hne⟩
    · obtain ⟨htoken, hafter⟩ := token_append (t := [c]) (by simpa using hspace) psz
      rw [List.singleton_append, List.singleton_append] at htoken
      rw [List.singleton_append] at hafter
      rw [htoken, hafter, if_neg hspace]
      by_cases hc : c ∈ pszBase58
      · rw [List.length_cons] at hn
        have hnext : Alphabet (pre ++ [c]) := by
          intro x hx
          obtain hx | hx := List.mem_append.mp hx
          · exact hpre x hx
          · rwa [List.mem_singleton.mp hx]
        have hdigits := hnext.digit_lt
        rw [List.map_append, List.map_singleton] at hdigits
        have hfit : 58 ^ ((pre.map digit).length + 1) ≤ 256 ^ size := by
          rw [List.length_map]
          exact Nat.le_trans (Nat.pow_le_pow_right (by decide) (by omega)) hsize
        obtain ⟨hcarry, hholds⟩ := h.concat (by decide) (by decide) hdigits hfit
        obtain ⟨hvalid, hinvalid⟩ := ih (pre ++ [c]) hnext
          (by rw [List.length_append, List.length_singleton]; omega)
          (by rwa [List.map_append, List.map_singleton])
        have halphabet : Alphabet (c :: token psz) ↔ Alphabet (token psz) := by
          simp [Alphabet, hc]
        rw [if_neg (mt (mapBase58_eq_iff c).mp (not_not_intro hc)), halphabet]
        change (mulAdd 58 256 length b256 (mapBase58.getD c.toNat (-1)).toNat 0).carry = 0 at hcarry
        rw [if_neg (not_not_intro hcarry)]
        rw [List.append_assoc, List.singleton_append] at hvalid
        exact ⟨hvalid, hinvalid⟩
      · rw [if_pos ((mapBase58_eq_iff c).mpr hc)]
        exact ⟨fun hall => absurd (hall c (.head _)) hc, fun _ => rfl⟩

/-- What is left of a C string once the spaces in front are skipped. -/
def trimmed (s : Bytes) : Bytes := (s.takeWhile (· ≠ 0)).dropWhile isspace

/-- A token of the alphabet is decoded when only spaces follow it. -/
theorem fromBase58_eq (s : Bytes) : fromBase58 s = .ok
    (if Alphabet (token (trimmed s)) ∧ (afterToken (trimmed s)).dropWhile isspace = []
      then decode (token (trimmed s)) else []) := by
  rw [fromBase58, ← trimmed]
  generalize trimmed s = p
  have hones := replicate_append_dropWhile 49 p
  obtain ⟨htoken, hafter⟩ := token_append (t := List.replicate (p.takeWhile (· = 49)).length 49)
    (fun c hc => by rw [List.eq_of_mem_replicate hc]; rfl) (p.dropWhile (· = 49))
  rw [hones] at htoken hafter
  have hhead : ∀ c ∈ (p.dropWhile (· = 49)).head?, c ≠ 49 := fun c hc => head?_dropWhile_ne hc
  rw [htoken, hafter]
  generalize (p.takeWhile (· = 49)).length = zeroes at *
  generalize p.dropWhile (· = 49) = psz at *
  have hsize : 58 ^ psz.length ≤ 256 ^ (psz.length * 733 / 1000 + 1) :=
    pow_le_pow_size (by decide) (by decide) (by decide +kernel) psz.length
  obtain ⟨hvalid, hinvalid⟩ := readDigits_spec hsize []
    (fun c hc => nomatch hc) (Nat.zero_add psz.length).le (Holds.zero (by decide) (psz.length * 733 / 1000 + 1))
  rw [List.nil_append] at hvalid
  have halphabet : Alphabet (List.replicate zeroes 49 ++ token psz) ↔ Alphabet (token psz) := by
    refine ⟨fun h c hc => h c (List.mem_append_right _ hc), fun h c hc => ?_⟩
    obtain hc | hc := List.mem_append.mp hc
    · rw [List.eq_of_mem_replicate hc]
      decide
    · exact h c hc
  simp only [halphabet]
  by_cases hall : Alphabet (token psz)
  · obtain ⟨length, b256, hloop, hholds⟩ := hvalid hall
    rw [hloop]
    by_cases hspaces : (afterToken psz).dropWhile isspace = []
    · have hdecode : decode (List.replicate zeroes 49 ++ token psz) = List.replicate zeroes 0 ++
          (numeral 256 (number 58 ((token psz).map digit))).map UInt8.ofNat := by
        rw [decode, recode_map digit zeroes rfl, List.map_append, List.map_replicate]
        · rfl
        · intro c hc h0
          have hmem : c ∈ token psz := List.mem_of_mem_head? hc
          rw [token, List.head?_takeWhile] at hc
          exact hhead c (Option.filter_eq_some_iff.mp hc).1 ((of_mem_alphabet (hall c hmem)).2.2.1.mp h0)
      rw [if_pos ⟨hall, hspaces⟩, hdecode, ← hholds.dropWhile (by decide)]
      exact (if_neg (not_not_intro hspaces)).trans rfl
    · rw [if_neg fun h => hspaces h.2]
      exact (if_pos hspaces).trans rfl
  · rw [hinvalid hall, if_neg fun h => hall h.1]
    rfl

/-! ## Which strings have a value -/

/-- `s` is `t` with white space around it. -/
def Spaced (t s : Bytes) : Prop :=
  ∃ w w', (∀ c ∈ w, isspace c = true) ∧ (∀ c ∈ w', isspace c = true) ∧ s = w ++ t ++ w'

theorem Spaced.refl (t : Bytes) : Spaced t t :=
  ⟨[], [], nofun, nofun, by rw [List.append_nil, List.nil_append]⟩

theorem cstr_eq {s : Bytes} (h : 0 ∉ s) : s.takeWhile (· ≠ 0) = s := by
  refine List.takeWhile_eq_self_iff.mpr fun c hc => ?_
  have hne : c ≠ 0 := fun h0 => h (h0 ▸ hc)
  simpa using hne

theorem token_spaces {w : Bytes} (h : ∀ c ∈ w, isspace c = true) :
    token w = [] ∧ afterToken w = w := by
  cases w with
  | nil => exact ⟨rfl, rfl⟩
  | cons c w =>
    have hc := h c (.head w)
    exact ⟨List.takeWhile_cons_of_neg (by simpa using hc),
      List.dropWhile_cons_of_neg (by simpa using hc)⟩

theorem Spaced.trimmed {t s : Bytes} (ht : Alphabet t) (h : Spaced t s) :
    token (trimmed s) = t ∧ (afterToken (trimmed s)).dropWhile isspace = [] := by
  obtain ⟨w, w', hw, hw', rfl⟩ := h
  have hnospace : ∀ c ∈ t, isspace c = false := fun c hc => (of_mem_alphabet (ht c hc)).2.2.2.1
  have hnul : 0 ∉ w ++ t ++ w' := by
    intro h0
    obtain h0 | h0 := List.mem_append.mp h0
    · obtain h0 | h0 := List.mem_append.mp h0
      · exact absurd (hw 0 h0) (by decide)
      · exact (of_mem_alphabet (ht 0 h0)).2.2.2.2 rfl
    · exact absurd (hw' 0 h0) (by decide)
  have hdrop : w'.dropWhile isspace = [] := List.dropWhile_eq_nil_iff.mpr hw'
  rw [CryptoUtility.trimmed, cstr_eq hnul, List.append_assoc, List.dropWhile_append_of_pos hw]
  cases t with
  | nil =>
    rw [List.nil_append, hdrop]
    exact ⟨rfl, rfl⟩
  | cons c t =>
    have hc := hnospace c (.head t)
    obtain ⟨htoken, hafter⟩ := token_append hnospace w'
    rw [(token_spaces hw').1, List.append_nil] at htoken
    rw [(token_spaces hw').2] at hafter
    rw [List.cons_append] at *
    rw [List.dropWhile_cons_of_neg (by simp [hc]), htoken, hafter]
    exact ⟨rfl, hdrop⟩

theorem fromBase58_spaced {t s : Bytes} (ht : Alphabet t) (h : Spaced t s) :
    fromBase58 s = .ok (decode t) := by
  obtain ⟨htoken, hspaces⟩ := h.trimmed ht
  rw [fromBase58_eq, htoken, hspaces, if_pos ⟨ht, rfl⟩]

theorem fromBase58_not_spaced {s : Bytes} (hnul : 0 ∉ s)
    (h : ¬∃ t, Alphabet t ∧ Spaced t s) : fromBase58 s = .ok [] := by
  rw [fromBase58_eq, trimmed, cstr_eq hnul, if_neg]
  intro ⟨halphabet, hspaces⟩
  refine h ⟨_, halphabet, s.takeWhile isspace, afterToken (s.dropWhile isspace), ?_, ?_, ?_⟩
  · exact fun c hc => List.mem_takeWhile_imp hc
  · exact List.dropWhile_eq_nil_iff.mp hspaces
  · rw [List.append_assoc, token_append_afterToken, List.takeWhile_append_dropWhile]

theorem base58_bijection :
    (∀ s, ∃ t, toBase58 s = .ok t ∧ fromBase58 t = .ok s) ∧
      (∀ t, Alphabet t → ∃ s, fromBase58 t = .ok s ∧ toBase58 s = .ok t) ∧
      (∀ s, toBase58 s ≠ .error .assertion ∧ fromBase58 s ≠ .error .assertion) ∧
      (∀ s, 0 ∉ s → (∀ t, Alphabet t → Spaced t s → fromBase58 s = fromBase58 t) ∧
        ((¬∃ t, Alphabet t ∧ Spaced t s) → fromBase58 s = .ok [])) := by
  have hdecode : ∀ t, Alphabet t → fromBase58 t = .ok (decode t) := fun t ht =>
    fromBase58_spaced ht (.refl t)
  refine ⟨fun s => ⟨encode s, toBase58_eq s, ?_⟩, fun t ht => ⟨decode t, hdecode t ht, ?_⟩, ?_, ?_⟩
  · rw [hdecode _ (encode_alphabet s), decode_encode]
  · rw [toBase58_eq, encode_decode ht]
  · intro s
    rw [toBase58_eq, fromBase58_eq]
    exact ⟨nofun, nofun⟩
  · exact fun s hnul => ⟨fun t ht hs => (fromBase58_spaced ht hs).trans (hdecode t ht).symm,
      fromBase58_not_spaced hnul⟩

theorem base58_bijection_spaced : fromBase58 [32, 49, 122, 10] = fromBase58 [49, 122] :=
  (base58_bijection.2.2.2 [32, 49, 122, 10] (by decide +kernel)).1 [49, 122] (by decide +kernel)
    ⟨[32], [10], by decide +kernel, by decide +kernel, rfl⟩

end MeshPP.CryptoUtility
