import MeshPP.CryptoUtility.PublicKeyText

/-! # The text of a private key

A private key is kept as its WIF: base58 of the byte `0x80`, the secret and the
first four bytes of the double SHA-256 of both. -/

namespace MeshPP.CryptoUtility

open MeshPP.Lib

/-- A `CryptoPP::Integer` read from its bytes. -/
def integer (bytes : Bytes) : Nat := number 256 (bytes.map UInt8.toNat)

/-! `sha256d` stands for the two chained `SHA256` filters. -/

section
variable (sha256d : Digest 32)

/-! ## The code -/

def skToWif (secret : Bytes) : Except Fault Bytes :=
  let wifStr := 0x80 :: secret
  let chkStr := sha256d.digest wifStr
  toBase58 (wifStr ++ chkStr.take 4)

/-- The flag and what `sk` is afterwards. -/
def wifToSk (wifStr : Bytes) (sk : Nat) : Except Fault (Bool × Nat) := do
  let vch ← fromBase58 wifStr
  if vch ≠ [] ∧ vch.head? ≠ some 0x80 then return (false, sk)
  else if vch.length ≠ 37 then return (false, sk)
  else
    let result := (vch.drop 1).take (vch.length - 1 - 4)
    let storedChkStr := vch.drop (vch.length - 4)
    let chkStr := (sha256d.digest (0x80 :: result)).take 4
    if chkStr ≠ storedChkStr then return (false, sk) else return (true, integer result)

/-- What the constructor of `private_key` lets through. -/
structure PrivateKey where
  base58Wif : Bytes
  valid : ∃ sk, wifToSk sha256d base58Wif 0 = .ok (true, sk)

def PrivateKey.make (base58Wif : Bytes) : Except Fault (PrivateKey sha256d) :=
  match h : wifToSk sha256d base58Wif 0 with
  | .ok (true, sk) => .ok ⟨base58Wif, sk, h⟩
  | .ok (false, _) => .error (.exceptionPrivateKey base58Wif)
  | .error fault => .error fault

/-! ## What is accepted -/

theorem skToWif_eq (secret : Bytes) :
    skToWif sha256d secret = .ok (encode (sha256d.seal (0x80 :: secret))) := toBase58_eq _

/-- The text is that of a secret of 32 bytes with its checksum. -/
def EncodesSecret (wifStr secret : Bytes) : Prop :=
  secret.length = 32 ∧ fromBase58 wifStr = .ok (sha256d.seal (0x80 :: secret))

variable {sha256d}

theorem wifToSk_of_encodes {wifStr secret : Bytes} (h : EncodesSecret sha256d wifStr secret)
    (sk : Nat) : wifToSk sha256d wifStr sk = .ok (true, integer secret) := by
  obtain ⟨hlength, hseal⟩ := h
  generalize hvch : sha256d.seal (0x80 :: secret) = vch at hseal
  obtain ⟨_, hpayload, hchk⟩ := (sha256d.eq_seal_iff (by decide)).mp hvch.symm
  have hsize : vch.length = 37 := by
    rw [← hvch, sha256d.length_seal (by decide), List.length_cons, hlength]
  have hhead : vch.head? = some 0x80 := by
    rw [← hvch]
    rfl
  have hresult : (vch.drop 1).take (vch.length - 1 - 4) = secret := by
    rw [Nat.sub_right_comm, ← List.drop_take, hpayload]
    rfl
  rw [wifToSk, hseal]
  refine (if_neg fun h => h.2 hhead).trans ((if_neg (not_not_intro hsize)).trans ?_)
  rw [hresult, if_neg (not_not_intro hchk)]
  rfl

theorem wifToSk_of_not_encodes {wifStr : Bytes}
    (h : ¬∃ secret, EncodesSecret sha256d wifStr secret) (sk : Nat) :
    wifToSk sha256d wifStr sk = .ok (false, sk) := by
  obtain ⟨vch, hvch⟩ := fromBase58_total wifStr
  rw [wifToSk, hvch]
  by_cases hprefix : vch ≠ [] ∧ vch.head? ≠ some 0x80
  · exact if_pos hprefix
  by_cases hsize : vch.length ≠ 37
  · exact (if_neg hprefix).trans (if_pos hsize)
  refine (if_neg hprefix).trans ((if_neg hsize).trans (if_pos fun hchk => h ?_))
  -- the size and the prefix are right, so the payload is the prefix and a secret
  rw [not_not] at hsize
  obtain _ | ⟨byte, tail⟩ := vch
  · cases hsize
  have hbyte : byte = 0x80 := by simpa using hprefix
  refine ⟨tail.take 32, ?_, hvch.trans (congrArg Except.ok ?_)⟩
  · rw [List.length_cons] at hsize
    rw [List.length_take]
    omega
  · rw [hsize] at hchk
    refine (sha256d.eq_seal_iff (by decide)).mpr ⟨by omega, ?_, ?_⟩
    · rw [hsize, hbyte]
      rfl
    · rw [hsize]
      exact hchk

/-- The constructor never fails on what `skToWif` writes. -/
theorem PrivateKey.make_of_encodes {wifStr secret : Bytes}
    (h : EncodesSecret sha256d wifStr secret) :
    ∃ key, PrivateKey.make sha256d wifStr = .ok key ∧ key.base58Wif = wifStr := by
  have hsk := wifToSk_of_encodes h 0
  refine ⟨⟨wifStr, _, hsk⟩, ?_, rfl⟩
  rw [PrivateKey.make]
  split
  · rfl
  · next h => rw [hsk] at h; cases h
  · next h => rw [hsk] at h; cases h

/-- Every private key holds a secret. -/
theorem PrivateKey.encodes (key : PrivateKey sha256d) :
    ∃ secret, EncodesSecret sha256d key.base58Wif secret := by
  by_contra h
  obtain ⟨sk, hsk⟩ := key.valid
  rw [wifToSk_of_not_encodes h] at hsk
  cases hsk

end

end MeshPP.CryptoUtility
