import MeshPP.Lib.Frame
import MeshPP.CryptoUtility.PrivateKey

/-! # Keys from a brain key

The secret of a private key is the digest of the brain key, a space and the
number of the key in decimal. `get_private_key` takes the number as `uint64_t`
and `bk_to_wif_sk` as `int`. -/

namespace MeshPP.CryptoUtility

open MeshPP.Lib

/-! ## The code -/

/-- The digits of a number in decimal. -/
def decimal (n : Nat) : Bytes :=
  if n = 0 then [48] else (numeral 10 n).map fun d => UInt8.ofNat (48 + d)

/-- `std::to_string` of an `int`. -/
def intToString (value : Int32) : Bytes :=
  if value.toInt < 0 then 45 :: decimal value.toInt.natAbs else decimal value.toInt.natAbs

def normalizeBrainKey (bk : Bytes) : Bytes := bk

/-- What `bkToSk` feeds to the hash. -/
def bkToSkInput (bkStr : Bytes) (sequenceNumber : Int32) : Bytes :=
  bkStr ++ 32 :: intToString sequenceNumber

structure RandomSeed where
  brainKey : Bytes

/-- `suggested` is what `suggest_brain_key` chooses at random. -/
def RandomSeed.make (suggested brainKey : Bytes) : RandomSeed :=
  if brainKey = [] then ⟨suggested⟩ else ⟨normalizeBrainKey brainKey⟩

/-- The conversion to `int`. -/
def RandomSeed.sequenceNumber (index : UInt64) : Int32 := index.toUInt32.toInt32

/-- What `getPrivateKey` feeds to the hash. -/
def RandomSeed.input (seed : RandomSeed) (index : UInt64) : Bytes :=
  bkToSkInput seed.brainKey (sequenceNumber index)

/-! `sha512Sha256` stands for the `SHA512` filter and the `SHA256` filter behind it. -/

section
variable (sha256d sha512Sha256 : Digest 32)

def bkToSk (bkStr : Bytes) (sequenceNumber : Int32) : Bytes :=
  sha512Sha256.digest (bkToSkInput bkStr sequenceNumber)

def bkToWifSk (bkStr : Bytes) (sequenceNumber : Int32) : Except Fault Bytes :=
  let sk := bkToSk sha512Sha256 bkStr sequenceNumber
  skToWif sha256d sk

def RandomSeed.getPrivateKey (seed : RandomSeed) (index : UInt64) :
    Except Fault (PrivateKey sha256d) := do
  let wif ← bkToWifSk sha256d sha512Sha256 seed.brainKey (sequenceNumber index)
  PrivateKey.make sha256d wif

/-! ## The WIF codec -/

theorem encodesSecret_encode {secret : Bytes} (hlength : secret.length = 32) :
    EncodesSecret sha256d (encode (sha256d.seal (0x80 :: secret))) secret :=
  ⟨hlength, fromBase58_encode _⟩

theorem getPrivateKey_eq (seed : RandomSeed) (index : UInt64) : ∃ key,
    seed.getPrivateKey sha256d sha512Sha256 index = .ok key ∧
      key.base58Wif =
        encode (sha256d.seal (0x80 :: sha512Sha256.digest (seed.input index))) := by
  have hlength := sha512Sha256.length_digest (seed.input index)
  obtain ⟨key, hkey, hwif⟩ := PrivateKey.make_of_encodes (encodesSecret_encode sha256d hlength)
  refine ⟨key, ?_, hwif⟩
  have hsk : bkToSk sha512Sha256 seed.brainKey (RandomSeed.sequenceNumber index) =
      sha512Sha256.digest (seed.input index) := rfl
  rw [RandomSeed.getPrivateKey, bkToWifSk, skToWif_eq, hsk, ok_bind rfl]
  exact hkey

/-- Two keys are the same only when the hash collides on what is fed to it. -/
theorem digest_eq_of_getPrivateKey_eq {seed₁ seed₂ : RandomSeed} {i₁ i₂ : UInt64}
    (h : seed₁.getPrivateKey sha256d sha512Sha256 i₁ =
      seed₂.getPrivateKey sha256d sha512Sha256 i₂) :
    sha512Sha256.digest (seed₁.input i₁) = sha512Sha256.digest (seed₂.input i₂) := by
  obtain ⟨key₁, hkey₁, hwif₁⟩ := getPrivateKey_eq sha256d sha512Sha256 seed₁ i₁
  obtain ⟨key₂, hkey₂, hwif₂⟩ := getPrivateKey_eq sha256d sha512Sha256 seed₂ i₂
  rw [hkey₁, hkey₂] at h
  have hseal := congrArg decode (hwif₁.symm.trans (Except.ok.inj h ▸ hwif₂))
  rw [decode_encode, decode_encode, Digest.seal, Digest.seal] at hseal
  have hlength : (0x80 :: sha512Sha256.digest (seed₁.input i₁)).length =
      (0x80 :: sha512Sha256.digest (seed₂.input i₂)).length := by
    rw [List.length_cons, List.length_cons, Digest.length_digest, Digest.length_digest]
  exact (List.cons.inj (List.append_inj_left hseal hlength)).2

theorem wif_exact :
    (∀ secret sk, secret.length = 32 → ∃ wifStr, skToWif sha256d secret = .ok wifStr ∧
      wifToSk sha256d wifStr sk = .ok (true, integer secret)) ∧
    (∀ (seed : RandomSeed) index, ∃ key,
      seed.getPrivateKey sha256d sha512Sha256 index = .ok key) ∧
    ∀ wifStr sk,
      (∃ secret, EncodesSecret sha256d wifStr secret ∧
        wifToSk sha256d wifStr sk = .ok (true, integer secret)) ∨
      ((¬∃ secret, EncodesSecret sha256d wifStr secret) ∧
        wifToSk sha256d wifStr sk = .ok (false, sk)) := by
  refine ⟨fun secret sk hlength => ?_, fun seed index => ?_, fun wifStr sk => ?_⟩
  · exact ⟨_, skToWif_eq sha256d secret,
      wifToSk_of_encodes (encodesSecret_encode sha256d hlength) sk⟩
  · obtain ⟨key, hkey, _⟩ := getPrivateKey_eq sha256d sha512Sha256 seed index
    exact ⟨key, hkey⟩
  · by_cases h : ∃ secret, EncodesSecret sha256d wifStr secret
    · obtain ⟨secret, hsecret⟩ := h
      exact .inl ⟨secret, hsecret, wifToSk_of_encodes hsecret sk⟩
    · exact .inr ⟨h, wifToSk_of_not_encodes h sk⟩

end

def secretSample : Bytes :=
  [0x0c, 0x28, 0xfc, 0xa3, 0x86, 0xc7, 0xa2, 0x27, 0x60, 0x0b, 0x2f, 0xe5, 0x0b, 0x7c, 0xae, 0x11,
    0xec, 0x86, 0xd3, 0xbf, 0x1f, 0xbe, 0x47, 0x1b, 0xe8, 0x98, 0x27, 0xe1, 0x9d, 0x72, 0xaa, 0x1d]

/-- The double SHA-256 of `0x80` and `secretSample`. -/
def sha256dSample : Digest 32 := .const
  [0x50, 0x7a, 0x5b, 0x8d, 0xfe, 0xd0, 0xfc, 0x6f, 0xe8, 0x80, 0x17, 0x43, 0x72, 0x0c, 0xed, 0xec,
    0x06, 0xaa, 0x5c, 0x6f, 0xca, 0x72, 0xb0, 0x7c, 0x49, 0x96, 0x44, 0x92, 0xfb, 0x98, 0xa7, 0x14]

theorem wif_exact_sample : ∃ wifStr, skToWif sha256dSample secretSample = .ok wifStr ∧
    wifToSk sha256dSample wifStr 0 = .ok (true, integer secretSample) :=
  (wif_exact sha256dSample sha256dSample).1 secretSample 0 rfl

/-! ## What is hashed -/

theorem decimal_digit {n : Nat} {c : UInt8} (h : c ∈ decimal n) :
    ∃ d < 10, c = UInt8.ofNat (48 + d) := by
  rw [decimal] at h
  split at h
  · exact ⟨0, by decide, List.mem_singleton.mp h⟩
  · obtain ⟨d, hd, rfl⟩ := List.mem_map.mp h
    exact ⟨d, numeral_lt (by decide) hd, rfl⟩

/-- A digit is neither a space nor a sign. -/
theorem digit_ne {d : Nat} (h : d < 10) :
    (UInt8.ofNat (48 + d)).toNat = 48 + d ∧ UInt8.ofNat (48 + d) ≠ 32 ∧
      UInt8.ofNat (48 + d) ≠ 45 := by
  revert d
  decide

theorem number_decimal (n : Nat) : number 10 ((decimal n).map fun c => c.toNat - 48) = n := by
  rw [decimal]
  split
  · next h => rw [h]; rfl
  · have hdigits : ((numeral 10 n).map fun d => UInt8.ofNat (48 + d)).map (fun c => c.toNat - 48) =
        numeral 10 n := by
      rw [List.map_map]
      conv_rhs => rw [← List.map_id (numeral 10 n)]
      refine List.map_congr_left fun d hd => ?_
      rw [Function.comp_apply, (digit_ne (numeral_lt (by decide) hd)).1]
      exact Nat.add_sub_cancel_left 48 d
    rw [hdigits, number_numeral]

theorem decimal_injective {m n : Nat} (h : decimal m = decimal n) : m = n := by
  rw [← number_decimal m, h, number_decimal]

theorem intToString_eq (value : Int32) : intToString value = decimal value.toInt.natAbs ∧
    0 ≤ value.toInt ∨ intToString value = 45 :: decimal value.toInt.natAbs ∧ value.toInt < 0 := by
  rw [intToString]
  split
  · next h => exact .inr ⟨rfl, h⟩
  · next h => exact .inl ⟨rfl, Int.not_lt.mp h⟩

theorem space_notMem_intToString (value : Int32) : 32 ∉ intToString value := by
  have hdecimal : ∀ n, (32 : UInt8) ∉ decimal n := by
    intro n h
    obtain ⟨d, hd, hc⟩ := decimal_digit h
    exact (digit_ne hd).2.1 hc.symm
  obtain ⟨h, _⟩ | ⟨h, _⟩ := intToString_eq value
  · rw [h]
    exact hdecimal _
  · rw [h, List.mem_cons]
    intro hmem
    obtain hc | hmem := hmem
    · exact absurd hc (by decide)
    · exact hdecimal _ hmem

theorem intToString_injective {a b : Int32} (h : intToString a = intToString b) : a = b := by
  have hminus : ∀ m n, 45 :: decimal m ≠ decimal n := by
    intro m n heq
    obtain ⟨d, hd, hc⟩ := decimal_digit (n := n) (heq ▸ List.mem_cons_self)
    exact (digit_ne hd).2.2 hc.symm
  rw [← Int32.toInt_inj]
  obtain ⟨ha, hsa⟩ | ⟨ha, hsa⟩ := intToString_eq a <;>
    obtain ⟨hb, hsb⟩ | ⟨hb, hsb⟩ := intToString_eq b <;> rw [ha, hb] at h
  · have := decimal_injective h
    omega
  · exact absurd h.symm (hminus _ _)
  · exact absurd h (hminus _ _)
  · have := decimal_injective (List.cons.inj h).2
    omega

/-- What is behind the last occurrence of a separator is found from the end. -/
theorem append_cons_inj {a : UInt8} {x₁ x₂ z₁ z₂ : Bytes} (h₁ : a ∉ z₁) (h₂ : a ∉ z₂)
    (h : x₁ ++ a :: z₁ = x₂ ++ a :: z₂) : x₁ = x₂ ∧ z₁ = z₂ := by
  have hend : ∀ (x z : Bytes), a ∉ z → (x ++ a :: z).reverse.takeWhile (· ≠ a) = z.reverse := by
    intro x z hz
    rw [List.reverse_append, List.reverse_cons, List.append_assoc,
      List.takeWhile_append_of_pos fun c hc => ?_, List.singleton_append,
      List.takeWhile_cons_of_neg (by simp), List.append_nil]
    have hne : c ≠ a := fun hca => hz (hca ▸ List.mem_reverse.mp hc)
    simpa using hne
  have hz : z₁ = z₂ := by
    have hreverse := hend x₁ z₁ h₁
    rw [h, hend x₂ z₂ h₂] at hreverse
    exact List.reverse_inj.mp hreverse.symm
  rw [hz] at h
  exact ⟨List.append_cancel_right h, hz⟩

theorem bkToSkInput_inj {bk₁ bk₂ : Bytes} {n₁ n₂ : Int32} :
    bkToSkInput bk₁ n₁ = bkToSkInput bk₂ n₂ ↔ bk₁ = bk₂ ∧ n₁ = n₂ := by
  constructor
  · intro h
    obtain ⟨hbk, hn⟩ := append_cons_inj (space_notMem_intToString n₁) (space_notMem_intToString n₂) h
    exact ⟨hbk, intToString_injective hn⟩
  · intro ⟨hbk, hn⟩
    rw [hbk, hn]

theorem sequenceNumber_eq_iff {i₁ i₂ : UInt64} :
    RandomSeed.sequenceNumber i₁ = RandomSeed.sequenceNumber i₂ ↔
      i₁.toNat % 2 ^ 32 = i₂.toNat % 2 ^ 32 := by
  rw [← UInt64.toNat_toUInt32, ← UInt64.toNat_toUInt32, UInt32.toNat_inj]
  refine ⟨fun h => ?_, fun h => congrArg UInt32.toInt32 h⟩
  have hback := congrArg Int32.toUInt32 h
  rwa [RandomSeed.sequenceNumber, RandomSeed.sequenceNumber, UInt32.toUInt32_toInt32,
    UInt32.toUInt32_toInt32] at hback

theorem RandomSeed.brainKey_make {suggested brainKey : Bytes} (h : brainKey ≠ []) :
    (make suggested brainKey).brainKey = brainKey := by
  rw [make, if_neg h]
  rfl

theorem input_determines_iff (suggested₁ suggested₂ : Bytes) {bk₁ bk₂ : Bytes} (h₁ : bk₁ ≠ [])
    (h₂ : bk₂ ≠ []) (i₁ i₂ : UInt64) :
    ((RandomSeed.make suggested₁ bk₁).input i₁ = (RandomSeed.make suggested₂ bk₂).input i₂ →
        bk₁ = bk₂ ∧ i₁ = i₂) ↔
      ¬(bk₁ = bk₂ ∧ i₁ ≠ i₂ ∧ i₁.toNat % 2 ^ 32 = i₂.toNat % 2 ^ 32) := by
  rw [RandomSeed.input, RandomSeed.input, RandomSeed.brainKey_make h₁, RandomSeed.brainKey_make h₂,
    bkToSkInput_inj, sequenceNumber_eq_iff]
  constructor
  · intro h ⟨hbk, hne, hmod⟩
    exact hne (h ⟨hbk, hmod⟩).2
  · intro h ⟨hbk, hmod⟩
    refine ⟨hbk, ?_⟩
    by_contra hne
    exact h ⟨hbk, hne, hmod⟩

theorem input_determines_iff_sample :
    ((RandomSeed.make [] [97]).input 0 = (RandomSeed.make [] [97, 32, 48]).input 0 →
        [97] = ([97, 32, 48] : Bytes) ∧ (0 : UInt64) = 0) ↔
      ¬([97] = ([97, 32, 48] : Bytes) ∧ (0 : UInt64) ≠ 0 ∧
        (0 : UInt64).toNat % 2 ^ 32 = (0 : UInt64).toNat % 2 ^ 32) :=
  input_determines_iff [] [] (by decide) (by decide) 0 0

theorem input_repeated :
    (RandomSeed.make [] [97]).input 0 = (RandomSeed.make [] [97]).input 4294967296 ∧
      (0 : UInt64) ≠ 4294967296 := by
  decide

end MeshPP.CryptoUtility
