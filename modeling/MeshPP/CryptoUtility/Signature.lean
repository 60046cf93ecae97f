import MeshPP.CryptoUtility.Encryption

/-! # Public keys and signatures

The constructor of `public_key` writes the point that it has read again and
compares the texts, so it lets through exactly the texts of points, although
what it reads them with lets through more. A signature is made with a private
key, written in DER and base58, and verified before it is given out. -/

namespace MeshPP.CryptoUtility

open MeshPP.Lib

/-! ## CryptoPP -/

/-- `ECDSA<ECP, SHA256>` with the curve secp256k1. -/
structure Ecdsa (c : CryptoPP) where
  /-- `SignMessage` with a private exponent and what the random pool yields. -/
  sign : Nat → Bytes → Bytes → Bytes
  /-- `VerifyMessage` of a message and a signature. -/
  verify : c.Point → Bytes → Bytes → Bool
  maxSignatureLength : Nat
  /-- `DSAConvertSignatureFormat` into a buffer of a length, cut to what it returns. -/
  toDer : Nat → Bytes → Bytes
  /-- The buffer after the conversion from DER, `none` when it throws. -/
  toP1363 : Nat → Bytes → Option Bytes

/-- What the code relies on. -/
structure Ecdsa.Lawful {c : CryptoPP} (e : Ecdsa c) : Prop where
  verify_sign : ∀ a nonce message, c.PrivateExponent a →
    e.verify (c.exponentiateBase a) message (e.sign a nonce message) = true
  toP1363_toDer : ∀ a nonce message, c.PrivateExponent a →
    e.toP1363 e.maxSignatureLength
      (e.toDer ((e.sign a nonce message).length * 2) (e.sign a nonce message)) =
      some (e.sign a nonce message)

section
variable (c : CryptoPP) (e : Ecdsa c)

/-! ## The code -/

inductive SignFault where
  | fault (fault : Fault)
  | exceptionSignature (pbKey message base58 : Bytes)
deriving DecidableEq

def PublicKey.toString (publicKeyPrefix : Bytes) (key : PublicKey c) : Bytes :=
  publicKeyPrefix ++ key.strBase58

/-- The body of the `try`; `none` stands for an exception of the conversion. -/
def tryVerifySignature (pbKey : PublicKey c) (message signatureB58 : Bytes) :
    Except Fault (Option Bool) := do
  let signatureDer ← fromBase58 signatureB58
  let (_, pubKeyHex) ← base58ToPkHex c.ripemd160 pbKey.strBase58 []
  let p := c.decodePoint pubKeyHex
  match e.toP1363 e.maxSignatureLength signatureDer with
  | none => return none
  | some signatureRaw => return some (e.verify p message signatureRaw)

def verifySignature (pbKey : PublicKey c) (message signatureB58 : Bytes) : Bool :=
  match tryVerifySignature c e pbKey message signatureB58 with
  | .ok (some result) => result
  | _ => false

/-- What the constructor of `signature` lets through. -/
structure Signature where
  pbKey : PublicKey c
  message : Bytes
  base58 : Bytes
  valid : verifySignature c e pbKey message base58 = true

def Signature.make (pbKey : PublicKey c) (message base58 : Bytes) :
    Except SignFault (Signature c e) :=
  if h : verifySignature c e pbKey message base58 = true then .ok ⟨pbKey, message, base58, h⟩
  else .error (.exceptionSignature pbKey.strBase58 message base58)

/-- The DER form of a signature, in base58. -/
def PrivateKey.signText (key : PrivateKey c.sha256d) (nonce message : Bytes) :
    Except Fault Bytes := do
  let (_, sk) ← wifToSk c.sha256d key.base58Wif 0
  let signatureRaw := e.sign sk nonce message
  let signatureDer := e.toDer (signatureRaw.length * 2) signatureRaw
  toBase58 signatureDer

def PrivateKey.sign (publicKeyPrefix : Bytes) (key : PrivateKey c.sha256d)
    (nonce message : Bytes) : Except SignFault (Signature c e) := do
  let signatureDerB58 ← (key.signText c e nonce message).mapError .fault
  let pbKey ← (key.getPublicKey c publicKeyPrefix).mapError .fault
  Signature.make c e pbKey message signatureDerB58

/-! ## The texts of points -/

variable {c e}

theorem base58ToPk_pointText (point : c.Point) : base58ToPk c (pointText c point) =
    .ok (some (c.decodePoint (c.encodePoint point true))) := by
  have hhex : base58ToPkHex c.ripemd160 (pointText c point) [] =
      .ok (true, c.encodePoint point true) := by
    by_cases hempty : c.encodePoint point true = []
    · have hshort : ¬4 < (c.ripemd160.seal (c.encodePoint point true)).length := by
        rw [c.ripemd160.length_seal (by decide), hempty]
        decide
      rw [pointText, base58ToPkHex_short (fromBase58_encode _) hshort, hempty]
    · exact base58ToPkHex_of_encodes ⟨hempty, fromBase58_encode _⟩ []
  rw [base58ToPk, hhex]
  rfl

/-- The text of a point, which is read as the same point again. -/
def Canonical (c : CryptoPP) (publicKeyPrefix str : Bytes) : Prop :=
  ∃ point, c.decodePoint (c.encodePoint point true) = point ∧
    str = publicKeyPrefix ++ pointText c point

theorem base58ToPk_total (b58Str : Bytes) : ∃ pk, base58ToPk c b58Str = .ok pk := by
  obtain ⟨vch, hvch⟩ := fromBase58_total b58Str
  have hhex : ∃ r, base58ToPkHex c.ripemd160 b58Str [] = .ok r := by
    rw [base58ToPkHex, hvch]
    change ∃ r, (if 4 < vch.length then _ else _ : Except Fault (Bool × Bytes)) = .ok r
    split
    · split <;> exact ⟨_, rfl⟩
    · exact ⟨_, rfl⟩
  obtain ⟨r, hr⟩ := hhex
  rw [base58ToPk, hr]
  exact ⟨_, rfl⟩

theorem make_unread {publicKeyPrefix strBase58 : Bytes} (hpk : base58ToPk c strBase58 = .ok none) :
    PublicKey.make c publicKeyPrefix (publicKeyPrefix ++ strBase58) =
      .error (.exceptionPublicKey (publicKeyPrefix ++ strBase58)) := by
  have hstarts : publicKeyPrefix.isPrefixOf (publicKeyPrefix ++ strBase58) :=
    List.isPrefixOf_iff_prefix.mpr (List.prefix_append _ _)
  rw [PublicKey.make, if_neg fun hnot => hnot.2 hstarts]
  dsimp only
  rw [List.drop_left, hpk]

/-- The comparison at the end of the constructor. -/
theorem make_read {publicKeyPrefix strBase58 : Bytes} {pk : c.Point}
    (hpk : base58ToPk c strBase58 = .ok (some pk)) :
    PublicKey.make c publicKeyPrefix (publicKeyPrefix ++ strBase58) =
      if pointText c pk ≠ strBase58 then
        .error (.exceptionPublicKey (publicKeyPrefix ++ strBase58))
      else .ok ⟨pointText c pk, pk, pkToBase58_eq _ _⟩ := by
  have hstarts : publicKeyPrefix.isPrefixOf (publicKeyPrefix ++ strBase58) :=
    List.isPrefixOf_iff_prefix.mpr (List.prefix_append _ _)
  rw [PublicKey.make, if_neg fun hnot => hnot.2 hstarts]
  dsimp only
  rw [List.drop_left, hpk]
  dsimp only
  split
  · next hfault => rw [pkToBase58_eq] at hfault; cases hfault
  · next text htext =>
    cases Except.ok.inj ((pkToBase58_eq _ _).symm.trans htext)
    rfl

/-- **The constructor of `public_key` lets through exactly the texts of points, and keeps
them.** -/
theorem publicKey_exact (publicKeyPrefix str : Bytes) :
    (Canonical c publicKeyPrefix str → ∃ key, PublicKey.make c publicKeyPrefix str = .ok key ∧
      key.toString c publicKeyPrefix = str) ∧
    (¬Canonical c publicKeyPrefix str →
      PublicKey.make c publicKeyPrefix str = .error (.exceptionPublicKey str)) := by
  constructor
  · rintro ⟨point, hpoint, rfl⟩
    have hpk := base58ToPk_pointText point
    rw [hpoint] at hpk
    refine ⟨⟨pointText c point, point, pkToBase58_eq _ _⟩, ?_, rfl⟩
    rw [make_read hpk]
    exact if_neg (not_not_intro rfl)
  · intro hnot
    by_cases hstarts : publicKeyPrefix.isPrefixOf str = true
    · obtain ⟨strBase58, rfl⟩ := List.isPrefixOf_iff_prefix.mp hstarts
      obtain ⟨pk, hpk⟩ := base58ToPk_total (c := c) strBase58
      cases pk with
      | none => exact make_unread hpk
      | some pk =>
        rw [make_read hpk]
        refine if_pos ?_
        rintro rfl
        have hpoint := Option.some.inj (Except.ok.inj ((base58ToPk_pointText pk).symm.trans hpk))
        exact hnot ⟨pk, hpoint, rfl⟩
    · have hne : publicKeyPrefix ≠ [] := by
        rintro rfl
        exact hstarts rfl
      rw [PublicKey.make, if_pos ⟨hne, hstarts⟩]

/-! ## What is signed is verified -/

theorem verifySignature_of_text (h : c.Lawful) {a : Nat} (ha : c.PrivateExponent a)
    {pbKey : PublicKey c} (htext : pbKey.strBase58 = pointText c (c.exponentiateBase a))
    {message der raw : Bytes} (hraw : e.toP1363 e.maxSignatureLength der = some raw) :
    verifySignature c e pbKey message (encode der) =
      e.verify (c.exponentiateBase a) message raw := by
  have hne : c.encodePoint (c.exponentiateBase a) true ≠ [] :=
    List.ne_nil_of_length_pos (by rw [h.length_compressed a ha]; decide)
  have hhex : base58ToPkHex c.ripemd160 pbKey.strBase58 [] =
      .ok (true, c.encodePoint (c.exponentiateBase a) true) := by
    rw [htext]
    exact base58ToPkHex_of_encodes ⟨hne, fromBase58_encode _⟩ []
  have htry : tryVerifySignature c e pbKey message (encode der) =
      .ok (some (e.verify (c.exponentiateBase a) message raw)) := by
    unfold tryVerifySignature
    rw [fromBase58_encode, hhex]
    change (match e.toP1363 e.maxSignatureLength der with
      | none => _
      | some signatureRaw => _) = _
    rw [hraw]
    dsimp only
    rw [h.decode_encode a true ha]
    rfl
  rw [verifySignature, htry]

theorem signText_eq (key : PrivateKey c.sha256d) (nonce message : Bytes) :
    key.signText c e nonce message = .ok (encode
      (e.toDer ((e.sign key.sk nonce message).length * 2) (e.sign key.sk nonce message))) := by
  rw [PrivateKey.signText, key.wifToSk_eq]
  exact toBase58_eq _

/-- The text of a signature is verified under the public key. -/
theorem verifySignature_signText (h : c.Lawful) (he : e.Lawful) {key : PrivateKey c.sha256d}
    (hkey : c.PrivateExponent key.sk) {pbKey : PublicKey c}
    (htext : pbKey.strBase58 = pointText c (c.exponentiateBase key.sk))
    {nonce message base58 : Bytes} (hsign : key.signText c e nonce message = .ok base58) :
    verifySignature c e pbKey message base58 = true := by
  obtain rfl := Except.ok.inj ((signText_eq key nonce message).symm.trans hsign)
  rw [verifySignature_of_text h hkey htext (he.toP1363_toDer _ nonce message hkey)]
  exact he.verify_sign _ nonce message hkey

/-- The constructor of `signature` lets through what `sign` has made. -/
theorem sign_eq (h : c.Lawful) (he : e.Lawful) {key : PrivateKey c.sha256d}
    (hkey : c.PrivateExponent key.sk) {publicKeyPrefix nonce message base58 : Bytes}
    {pbKey : PublicKey c} (hget : key.getPublicKey c publicKeyPrefix = .ok pbKey)
    (htext : pbKey.strBase58 = pointText c (c.exponentiateBase key.sk))
    (hsign : key.signText c e nonce message = .ok base58) :
    key.sign c e publicKeyPrefix nonce message =
      .ok ⟨pbKey, message, base58, verifySignature_signText h he hkey htext hsign⟩ := by
  rw [PrivateKey.sign, hsign, hget]
  exact dif_pos _

/-- **What a private key signs is verified under its public key, and `sign` does not throw.** -/
theorem sign_verified (h : c.Lawful) (he : e.Lawful) {key : PrivateKey c.sha256d}
    (hkey : c.PrivateExponent key.sk) (publicKeyPrefix nonce message : Bytes) :
    ∃ pbKey signed, key.getPublicKey c publicKeyPrefix = .ok pbKey ∧
      key.sign c e publicKeyPrefix nonce message = .ok signed ∧
      signed.pbKey = pbKey ∧ signed.message = message ∧
      key.signText c e nonce message = .ok signed.base58 := by
  obtain ⟨pbKey, hget, htext⟩ := getPublicKey_eq h hkey publicKeyPrefix
  have hsign := signText_eq (e := e) key nonce message
  exact ⟨pbKey, _, hget, sign_eq h he hkey hget htext hsign, rfl, rfl, hsign⟩

end

namespace Sample

theorem canonical : Canonical cryptoPP [] (pointText cryptoPP (integer secretSample)) :=
  ⟨integer secretSample, decode_encode (.inr rfl) true, rfl⟩

/-- `0` is not a digit. -/
theorem not_canonical : ¬Canonical cryptoPP [] [48] := by
  rintro ⟨point, -, htext⟩
  have hmem : 48 ∈ pointText cryptoPP point := by
    rw [← List.nil_append (pointText cryptoPP point), ← htext]
    exact List.mem_singleton_self 48
  exact absurd (encode_alphabet _ 48 hmem) (by decide)

/-- The node of `secretSample`, and the time behind it. -/
def message : Bytes :=
  "6UUbAGbTLLWfY2gAc8XmjGBz2c7WT4fYB5r1L1aHDwAY88ujex2018-11-14 10:00:00".toList.map fun x =>
    UInt8.ofNat x.toNat

/-- A signature of `message` by `secretSample`. -/
def signatureRaw : Bytes :=
  [0x77, 0xa7, 0xb5, 0xa3, 0x83, 0x90, 0x70, 0xa2, 0xc6, 0xfb, 0x37, 0x4a, 0x78, 0xf1, 0xa9, 0xa1,
   0x01, 0x91, 0x7f, 0x8c, 0x69, 0x6b, 0xa2, 0x14, 0x19, 0x9c, 0xec, 0x70, 0x8f, 0x19, 0xf8, 0xaf,
   0x0c, 0x1f, 0x69, 0x74, 0xb5, 0x47, 0x28, 0x79, 0xa0, 0x81, 0xb7, 0x20, 0xfb, 0xb2, 0xc9, 0xe3,
   0xc0, 0x18, 0x22, 0x67, 0xc6, 0x34, 0x0a, 0x9b, 0x6b, 0x63, 0x69, 0xfa, 0xce, 0xcd, 0xce, 0x48]

/-- In DER, two integers of 32 bytes that are below `2 ^ 255`. -/
def ecdsa : Ecdsa cryptoPP where
  sign _ _ _ := signatureRaw
  verify _ _ signature := signature = signatureRaw
  maxSignatureLength := 64
  toDer _ raw := [0x30, 0x44, 0x02, 0x20] ++ raw.take 32 ++ [0x02, 0x20] ++ raw.drop 32
  toP1363 _ der := if der.length = 70 then some ((der.drop 4).take 32 ++ der.drop 38) else none

theorem toP1363_toDer : ecdsa.toP1363 64 (ecdsa.toDer (64 * 2) signatureRaw) = some signatureRaw := by
  decide +kernel

theorem lawful_ecdsa : ecdsa.Lawful where
  verify_sign _ _ _ _ := by
    change decide (signatureRaw = signatureRaw) = true
    exact decide_eq_true rfl
  toP1363_toDer _ _ _ _ := toP1363_toDer

end Sample

theorem publicKey_exact_sample :
    (∃ key, PublicKey.make Sample.cryptoPP [] (pointText Sample.cryptoPP (integer secretSample)) =
      .ok key ∧ key.toString Sample.cryptoPP [] =
        pointText Sample.cryptoPP (integer secretSample)) ∧
    PublicKey.make Sample.cryptoPP [] [48] = .error (.exceptionPublicKey [48]) :=
  ⟨(publicKey_exact [] _).1 Sample.canonical, (publicKey_exact [] [48]).2 Sample.not_canonical⟩

theorem sign_verified_sample : ∃ pbKey signed,
    Sample.privateKey.getPublicKey Sample.cryptoPP [] = .ok pbKey ∧
    Sample.privateKey.sign Sample.cryptoPP Sample.ecdsa [] [] Sample.message = .ok signed ∧
    signed.pbKey = pbKey ∧ signed.message = Sample.message ∧
    Sample.privateKey.signText Sample.cryptoPP Sample.ecdsa [] Sample.message =
      .ok signed.base58 :=
  sign_verified Sample.lawful Sample.lawful_ecdsa (.inr Sample.sk_privateKey) [] [] Sample.message

end MeshPP.CryptoUtility
