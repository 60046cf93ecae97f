import MeshPP.CryptoUtility.BrainKey

/-! # Encryption

A message is encrypted for the holder of a private key: a key pair for this
message alone agrees with the public key on a value, from which a cipher key, an
initial vector and a MAC key are derived. The encrypted message is the compressed
point of the key pair (33 bytes), the MAC of the ciphertext (32 bytes) and the
ciphertext. What CryptoPP computes is a parameter. -/

namespace MeshPP.CryptoUtility

open MeshPP.Lib

/-! ## CryptoPP -/

/-- The functions that are called, for the curve secp256k1. -/
structure CryptoPP where
  Point : Type
  /-- `EncodePoint`, compressed or not. -/
  encodePoint : Point → Bool → Bytes
  /-- `DecodePoint` into a new point. -/
  decodePoint : Bytes → Point
  /-- The point of a private exponent, `MakePublicKey` and `GeneratePublicKey`. -/
  exponentiateBase : Nat → Point
  /-- The exponents that are private keys of the curve. -/
  PrivateExponent : Nat → Prop
  /-- `Integer::Encode` into a number of bytes. -/
  encodeInteger : Nat → Nat → Bytes
  privateKeyLength : Nat
  /-- `Agree` with a validated public key, `none` when it returns `false`. -/
  agree : Bytes → Bytes → Option Bytes
  sha256 : Digest 32
  ripemd160 : Digest 20
  /-- `HMAC<SHA256>` with a key. -/
  hmac : Bytes → Digest 32
  /-- `CBC_Mode<AES>` with a key and an initial vector, through a `StreamTransformationFilter`. -/
  cbcEncrypt : Bytes → Bytes → Bytes → Bytes
  cbcDecrypt : Bytes → Bytes → Bytes → Option Bytes

/-- What the code relies on. -/
structure CryptoPP.Lawful (c : CryptoPP) : Prop where
  length_compressed : ∀ a, c.PrivateExponent a →
    (c.encodePoint (c.exponentiateBase a) true).length = 33
  decode_encode : ∀ a compressed, c.PrivateExponent a →
    c.decodePoint (c.encodePoint (c.exponentiateBase a) compressed) = c.exponentiateBase a
  agree_symm : ∀ a b, c.PrivateExponent a → c.PrivateExponent b → ∃ shared,
    c.agree (c.encodeInteger a c.privateKeyLength) (c.encodePoint (c.exponentiateBase b) false) =
      some shared ∧
    c.agree (c.encodeInteger b c.privateKeyLength) (c.encodePoint (c.exponentiateBase a) false) =
      some shared
  cbc_decrypt_encrypt : ∀ key iv message, key.length = 32 → iv.length = 16 →
    c.cbcDecrypt key iv (c.cbcEncrypt key iv message) = some message
  cbc_length : ∀ key iv message, key.length = 32 → iv.length = 16 →
    0 < (c.cbcEncrypt key iv message).length ∧ 16 ∣ (c.cbcEncrypt key iv message).length

variable (c : CryptoPP)

/-- Two `SHA256` filters, one behind the other. -/
def CryptoPP.sha256d : Digest 32 :=
  ⟨fun message => c.sha256.digest (c.sha256.digest message), fun _ => c.sha256.length_digest _⟩

/-- `HashVerificationFilter` with `THROW_EXCEPTION` and `HASH_AT_BEGIN`. -/
def hashVerificationFilter (hmac : Digest 32) (input : Bytes) : Except Fault Unit :=
  if input.take 32 = hmac.digest (input.drop 32) then .ok () else .error .hashVerificationFailed

/-! ## The code -/

def substr (s : Bytes) (pos len : Nat) : Bytes := (s.drop pos).take len

def hash (message : Bytes) : Bytes := c.sha256.digest message

def decompressPk (str : Bytes) : Bytes := c.encodePoint (c.decodePoint str) false

def compressPk (str : Bytes) : Bytes := c.encodePoint (c.decodePoint str) true

/-- The point, or `none` when the flag is `false`. -/
def base58ToPk (b58Str : Bytes) : Except Fault (Option c.Point) := do
  let (code, result) ← base58ToPkHex c.ripemd160 b58Str []
  return if code then some (c.decodePoint result) else none

/-- What the constructor of `public_key` lets through. -/
structure PublicKey where
  strBase58 : Bytes
  valid : ∃ pk, pkToBase58 c.ripemd160 (c.encodePoint pk true) = .ok strBase58

def PublicKey.make (publicKeyPrefix str : Bytes) : Except Fault (PublicKey c) :=
  if publicKeyPrefix ≠ [] ∧ ¬publicKeyPrefix.isPrefixOf str then .error (.exceptionPublicKey str)
  else
    let strBase58 := str.drop publicKeyPrefix.length
    match base58ToPk c strBase58 with
    | .error fault => .error fault
    | .ok none => .error (.exceptionPublicKey (publicKeyPrefix ++ strBase58))
    | .ok (some pk) =>
      match h : pkToBase58 c.ripemd160 (c.encodePoint pk true) with
      | .error fault => .error fault
      | .ok text =>
        if text ≠ strBase58 then
          .error (.exceptionPublicKey (publicKeyPrefix ++ strBase58))
        else .ok ⟨text, pk, h⟩

def PrivateKey.getPublicKey (publicKeyPrefix : Bytes) (key : PrivateKey c.sha256d) :
    Except Fault (PublicKey c) := do
  let (_, sk) ← wifToSk c.sha256d key.base58Wif 0
  let pkB58 ← pkToBase58 c.ripemd160 (c.encodePoint (c.exponentiateBase sk) true)
  PublicKey.make c publicKeyPrefix (publicKeyPrefix ++ pkB58)

def PrivateKey.decrypt (key : PrivateKey c.sha256d) (msg : Bytes) : Except Fault Bytes := do
  if msg.length < 33 + 32 + 16 then throw (.runtimeError "Wrong encrypted message")
  let (_, skI) ← wifToSk c.sha256d key.base58Wif 0
  let sk := c.encodeInteger skI c.privateKeyLength
  let pkStr := decompressPk c (msg.take 33)
  match c.agree sk pkStr with
  | none => throw (.runtimeError "ECDH stage failed")
  | some sharedValue =>
    let derivedKey := hash c (sharedValue ++ [0, 0, 0, 1]) ++ hash c (sharedValue ++ [0, 0, 0, 2]) ++
      hash c (sharedValue ++ [0, 0, 0, 3])
    let encKey := substr derivedKey 0 32
    let encIv := substr derivedKey 32 16
    let macKey := substr derivedKey (32 + 16) 32
    let cipher := msg.drop (33 + 32)
    hashVerificationFilter (c.hmac macKey) (msg.drop 33)
    match c.cbcDecrypt encKey encIv cipher with
    | none => throw .invalidCiphertext
    | some result => return result

/-- `ephemeral` is the exponent that `GenerateKeyPair` chooses at random. -/
def PublicKey.encrypt (key : PublicKey c) (msg : Bytes) (ephemeral : Nat) : Except Fault Bytes := do
  let eSk := c.encodeInteger ephemeral c.privateKeyLength
  let ePk := c.encodePoint (c.exponentiateBase ephemeral) false
  let pkV ← fromBase58 key.strBase58
  let pkStr := decompressPk c (pkV.take (pkV.length - 4))
  match c.agree eSk pkStr with
  | none => throw (.runtimeError "ECDH stage failed")
  | some sharedValue =>
    let derivedKey := hash c (sharedValue ++ [0, 0, 0, 1]) ++ hash c (sharedValue ++ [0, 0, 0, 2]) ++
      hash c (sharedValue ++ [0, 0, 0, 3])
    let encKey := substr derivedKey 0 32
    let encIv := substr derivedKey 32 16
    let macKey := substr derivedKey (32 + 16) 32
    let cipher := c.cbcEncrypt encKey encIv msg
    let mac := (c.hmac macKey).digest cipher
    return compressPk c ePk ++ mac ++ cipher

/-! ## Layout and key schedule -/

/-- The exponent that a private key stands for. -/
def PrivateKey.sk {sha256d : Digest 32} (key : PrivateKey sha256d) : Nat :=
  match wifToSk sha256d key.base58Wif 0 with
  | .ok (_, sk) => sk
  | .error _ => 0

theorem PrivateKey.wifToSk_eq {sha256d : Digest 32} (key : PrivateKey sha256d) :
    wifToSk sha256d key.base58Wif 0 = .ok (true, key.sk) := by
  obtain ⟨sk, hsk⟩ := key.valid
  rw [PrivateKey.sk, hsk]

def derivedKey (shared : Bytes) : Bytes :=
  hash c (shared ++ [0, 0, 0, 1]) ++ hash c (shared ++ [0, 0, 0, 2]) ++ hash c (shared ++ [0, 0, 0, 3])

def encKey (shared : Bytes) : Bytes := substr (derivedKey c shared) 0 32

def encIv (shared : Bytes) : Bytes := substr (derivedKey c shared) 32 16

def macKey (shared : Bytes) : Bytes := substr (derivedKey c shared) (32 + 16) 32

theorem length_derivedKey (shared : Bytes) : (derivedKey c shared).length = 96 := by
  rw [derivedKey, List.length_append, List.length_append, hash, hash, hash, Digest.length_digest,
    Digest.length_digest, Digest.length_digest]

theorem length_substr {s : Bytes} {pos len : Nat} (h : pos + len ≤ s.length) :
    (substr s pos len).length = len := by
  rw [substr, List.length_take, List.length_drop]
  omega

theorem length_encKey (shared : Bytes) : (encKey c shared).length = 32 :=
  length_substr (by rw [length_derivedKey]; decide)

theorem length_encIv (shared : Bytes) : (encIv c shared).length = 16 :=
  length_substr (by rw [length_derivedKey]; decide)

/-- What a private key agrees on with the point in front of a message. -/
def agreed (key : PrivateKey c.sha256d) (msg : Bytes) : Option Bytes :=
  c.agree (c.encodeInteger key.sk c.privateKeyLength) (decompressPk c (msg.take 33))

/-- The MAC field is the MAC of the ciphertext field under the derived key. -/
def Authentic (key : PrivateKey c.sha256d) (msg : Bytes) : Prop :=
  33 + 32 + 16 ≤ msg.length ∧ ∃ shared, agreed c key msg = some shared ∧
    substr msg 33 32 = (c.hmac (macKey c shared)).digest (msg.drop (33 + 32))

variable {c}

theorem decrypt_short {key : PrivateKey c.sha256d} {msg : Bytes}
    (h : msg.length < 33 + 32 + 16) :
    key.decrypt c msg = .error (.runtimeError "Wrong encrypted message") := by
  rw [PrivateKey.decrypt, if_pos h]
  rfl

/-- How a message that is long enough is taken apart. -/
theorem decrypt_eq {key : PrivateKey c.sha256d} {msg : Bytes} (h : 33 + 32 + 16 ≤ msg.length) :
    key.decrypt c msg = match agreed c key msg with
      | none => .error (.runtimeError "ECDH stage failed")
      | some shared =>
        if substr msg 33 32 = (c.hmac (macKey c shared)).digest (msg.drop (33 + 32)) then
          match c.cbcDecrypt (encKey c shared) (encIv c shared) (msg.drop (33 + 32)) with
          | none => .error .invalidCiphertext
          | some result => .ok result
        else .error .hashVerificationFailed := by
  rw [PrivateKey.decrypt, if_neg (Nat.not_lt.mpr h), key.wifToSk_eq]
  change (match agreed c key msg with
    | none => _
    | some shared => _) = _
  cases agreed c key msg with
  | none => rfl
  | some shared =>
    dsimp only
    rw [hashVerificationFilter, List.drop_drop]
    change (if substr msg 33 32 = (c.hmac (macKey c shared)).digest (msg.drop (33 + 32)) then
      _ else _ : Except Fault Unit) >>= _ = _
    split
    · change (match c.cbcDecrypt (encKey c shared) (encIv c shared) (msg.drop (33 + 32)) with
        | none => _
        | some result => _) = _
      cases c.cbcDecrypt (encKey c shared) (encIv c shared) (msg.drop (33 + 32)) <;> rfl
    · rfl

theorem decrypt_not_authentic {key : PrivateKey c.sha256d} {msg : Bytes}
    (h : ¬Authentic c key msg) : ∃ fault, key.decrypt c msg = .error fault := by
  by_cases hshort : msg.length < 33 + 32 + 16
  · exact ⟨_, decrypt_short hshort⟩
  · rw [decrypt_eq (Nat.not_lt.mp hshort)]
    cases hagree : agreed c key msg with
    | none => exact ⟨_, rfl⟩
    | some shared =>
      refine ⟨_, if_neg fun hmac => ?_⟩
      exact h ⟨Nat.not_lt.mp hshort, shared, hagree, hmac⟩

/-! ## The public key -/

/-- The text of a point. -/
def pointText (c : CryptoPP) (point : c.Point) : Bytes :=
  encode (c.ripemd160.seal (c.encodePoint point true))

theorem make_pointText (h : c.Lawful) {a : Nat} (ha : c.PrivateExponent a)
    (publicKeyPrefix : Bytes) : ∃ publicKey,
      PublicKey.make c publicKeyPrefix (publicKeyPrefix ++ pointText c (c.exponentiateBase a)) =
        .ok publicKey ∧ publicKey.strBase58 = pointText c (c.exponentiateBase a) := by
  have hne : c.encodePoint (c.exponentiateBase a) true ≠ [] :=
    List.ne_nil_of_length_pos (by rw [h.length_compressed a ha]; decide)
  have hpk : base58ToPk c (pointText c (c.exponentiateBase a)) =
      .ok (some (c.exponentiateBase a)) := by
    rw [base58ToPk, pointText, base58ToPkHex_of_encodes ⟨hne, fromBase58_encode _⟩]
    exact congrArg (fun point => Except.ok (some point)) (h.decode_encode a true ha)
  have htext := pkToBase58_eq c.ripemd160 (c.encodePoint (c.exponentiateBase a) true)
  have hprefix : publicKeyPrefix.isPrefixOf (publicKeyPrefix ++ pointText c (c.exponentiateBase a)) :=
    List.isPrefixOf_iff_prefix.mpr (List.prefix_append _ _)
  refine ⟨⟨_, _, htext⟩, ?_, rfl⟩
  rw [PublicKey.make, if_neg fun hnot => hnot.2 hprefix]
  dsimp only
  rw [List.drop_left, hpk]
  dsimp only
  split
  · next hfault => rw [htext] at hfault; cases hfault
  · next text htext' =>
    cases Except.ok.inj (htext.symm.trans htext')
    exact if_neg (not_not_intro rfl)

theorem getPublicKey_eq (h : c.Lawful) {key : PrivateKey c.sha256d}
    (hkey : c.PrivateExponent key.sk) (publicKeyPrefix : Bytes) : ∃ publicKey,
      key.getPublicKey c publicKeyPrefix = .ok publicKey ∧
        publicKey.strBase58 = pointText c (c.exponentiateBase key.sk) := by
  obtain ⟨publicKey, hmake, htext⟩ := make_pointText h hkey publicKeyPrefix
  refine ⟨publicKey, ?_, htext⟩
  rw [PrivateKey.getPublicKey, key.wifToSk_eq]
  change pkToBase58 c.ripemd160 _ >>= _ = _
  rw [pkToBase58_eq]
  exact hmake

/-! ## What is encrypted is decrypted -/

theorem encrypt_eq (h : c.Lawful) {a ephemeral : Nat} (ha : c.PrivateExponent a)
    {publicKey : PublicKey c} (htext : publicKey.strBase58 = pointText c (c.exponentiateBase a))
    {shared : Bytes} (hagree : c.agree (c.encodeInteger ephemeral c.privateKeyLength)
      (c.encodePoint (c.exponentiateBase a) false) = some shared) (msg : Bytes) :
    publicKey.encrypt c msg ephemeral = .ok
      (compressPk c (c.encodePoint (c.exponentiateBase ephemeral) false) ++
        (c.hmac (macKey c shared)).digest
          (c.cbcEncrypt (encKey c shared) (encIv c shared) msg) ++
        c.cbcEncrypt (encKey c shared) (encIv c shared) msg) := by
  have hpoint : (c.ripemd160.seal (c.encodePoint (c.exponentiateBase a) true)).take
      ((c.ripemd160.seal (c.encodePoint (c.exponentiateBase a) true)).length - 4) =
        c.encodePoint (c.exponentiateBase a) true :=
    ((c.ripemd160.eq_seal_iff (by decide)).mp rfl).2.1
  rw [PublicKey.encrypt, htext, pointText, fromBase58_encode]
  change (match c.agree (c.encodeInteger ephemeral c.privateKeyLength) (decompressPk c
      ((c.ripemd160.seal (c.encodePoint (c.exponentiateBase a) true)).take
        ((c.ripemd160.seal (c.encodePoint (c.exponentiateBase a) true)).length - 4))) with
    | none => _
    | some shared => _) = _
  rw [hpoint, decompressPk, h.decode_encode a true ha, hagree]
  rfl

/-- The three fields are found again by their offsets. -/
theorem fields {point mac : Bytes} (hpoint : point.length = 33) (hmac : mac.length = 32)
    (cipher : Bytes) :
    (point ++ mac ++ cipher).take 33 = point ∧ substr (point ++ mac ++ cipher) 33 32 = mac ∧
      (point ++ mac ++ cipher).drop (33 + 32) = cipher := by
  have hboth : (point ++ mac).length = 33 + 32 := by rw [List.length_append, hpoint, hmac]
  refine ⟨?_, ?_, ?_⟩
  · rw [List.append_assoc, ← hpoint, List.take_left]
  · rw [substr, List.append_assoc, ← hpoint, List.drop_left, ← hmac, List.take_left]
  · rw [← hboth, List.drop_left]

theorem decrypt_fields {key : PrivateKey c.sha256d} {point mac cipher shared result : Bytes}
    (hpoint : point.length = 33) (hcipher : 16 ≤ cipher.length)
    (hagree : c.agree (c.encodeInteger key.sk c.privateKeyLength) (decompressPk c point) =
      some shared)
    (hmac : (c.hmac (macKey c shared)).digest cipher = mac)
    (hplain : c.cbcDecrypt (encKey c shared) (encIv c shared) cipher = some result) :
    key.decrypt c (point ++ mac ++ cipher) = .ok result := by
  have hmacLength : mac.length = 32 := by rw [← hmac, Digest.length_digest]
  obtain ⟨htake, hsubstr, hdrop⟩ := fields hpoint hmacLength cipher
  have hlong : 33 + 32 + 16 ≤ (point ++ mac ++ cipher).length := by
    rw [List.length_append, List.length_append, hpoint, hmacLength]
    exact Nat.add_le_add_left hcipher _
  rw [decrypt_eq hlong, agreed, htake, hagree]
  dsimp only
  rw [hsubstr, hdrop, if_pos hmac.symm, hplain]

/-- What is encrypted for a key is decrypted with it. -/
theorem encrypt_decrypt (h : c.Lawful) {key : PrivateKey c.sha256d}
    (hkey : c.PrivateExponent key.sk) (publicKeyPrefix : Bytes) : ∃ publicKey,
      key.getPublicKey c publicKeyPrefix = .ok publicKey ∧
        ∀ msg ephemeral, c.PrivateExponent ephemeral → ∃ encrypted,
          publicKey.encrypt c msg ephemeral = .ok encrypted ∧
            key.decrypt c encrypted = .ok msg := by
  obtain ⟨publicKey, hmake, htext⟩ := getPublicKey_eq h hkey publicKeyPrefix
  refine ⟨publicKey, hmake, fun msg ephemeral he => ?_⟩
  obtain ⟨shared, hsend, hreceive⟩ := h.agree_symm ephemeral key.sk he hkey
  refine ⟨_, encrypt_eq h hkey htext hsend msg, ?_⟩
  obtain ⟨hpos, hblocks⟩ := h.cbc_length _ _ msg (length_encKey c shared) (length_encIv c shared)
  rw [compressPk, h.decode_encode ephemeral false he]
  refine decrypt_fields (h.length_compressed ephemeral he) (Nat.le_of_dvd hpos hblocks) ?_ rfl
    (h.cbc_decrypt_encrypt _ _ msg (length_encKey c shared) (length_encIv c shared))
  rw [decompressPk, h.decode_encode ephemeral true he]
  exact hreceive

theorem encryption_correct (h : c.Lawful) (key : PrivateKey c.sha256d) :
    (c.PrivateExponent key.sk → ∀ publicKeyPrefix, ∃ publicKey,
      key.getPublicKey c publicKeyPrefix = .ok publicKey ∧
        ∀ msg ephemeral, c.PrivateExponent ephemeral → ∃ encrypted,
          publicKey.encrypt c msg ephemeral = .ok encrypted ∧
            key.decrypt c encrypted = .ok msg) ∧
      ∀ msg, ¬Authentic c key msg → ∃ fault, key.decrypt c msg = .error fault :=
  ⟨encrypt_decrypt h, fun _ => decrypt_not_authentic⟩

/-- With a library that keeps these laws for all exponents, every private key and every
ephemeral key will do. -/
theorem encryption_correct_all (h : c.Lawful) (hall : ∀ a, c.PrivateExponent a)
    (key : PrivateKey c.sha256d) :
    (∀ publicKeyPrefix, ∃ publicKey, key.getPublicKey c publicKeyPrefix = .ok publicKey ∧
      ∀ msg ephemeral, ∃ encrypted, publicKey.encrypt c msg ephemeral = .ok encrypted ∧
        key.decrypt c encrypted = .ok msg) ∧
      ∀ msg, ¬Authentic c key msg → ∃ fault, key.decrypt c msg = .error fault := by
  refine ⟨fun publicKeyPrefix => ?_, fun _ => decrypt_not_authentic⟩
  obtain ⟨publicKey, hmake, hdecrypt⟩ := encrypt_decrypt h (hall key.sk) publicKeyPrefix
  exact ⟨publicKey, hmake, fun msg ephemeral => hdecrypt msg ephemeral (hall ephemeral)⟩

/-! ## A key, an ephemeral key and a message

The functions give what CryptoPP gives for `secretSample`, the exponent 1 and the
message `hi`. The points are named by their exponents, and the cipher is a mask on
the padded message. -/

namespace Sample

/-- The coordinate that both sides agree on. -/
def shared : Bytes :=
  [0xd0, 0xde, 0x0a, 0xae, 0xae, 0xfa, 0xd0, 0x2b, 0x8b, 0xdc, 0x8a, 0x01, 0xa1, 0xb8, 0xb1, 0x1c,
   0x69, 0x6b, 0xd3, 0xd6, 0x6a, 0x2c, 0x5f, 0x10, 0x78, 0x0d, 0x95, 0xb7, 0xdf, 0x42, 0x64, 0x5c]

/-- The second coordinate of the point of `secretSample`. -/
def ordinate : Bytes :=
  [0xd8, 0x52, 0x28, 0xa6, 0xfb, 0x29, 0x94, 0x0e, 0x85, 0x8e, 0x7e, 0x55, 0x84, 0x2a, 0xe2, 0xbd,
   0x11, 0x5d, 0x1e, 0xd7, 0xcc, 0x0e, 0x82, 0xd9, 0x34, 0xe9, 0x29, 0xc9, 0x76, 0x48, 0xcb, 0x0a]

def baseAbscissa : Bytes :=
  [0x79, 0xbe, 0x66, 0x7e, 0xf9, 0xdc, 0xbb, 0xac, 0x55, 0xa0, 0x62, 0x95, 0xce, 0x87, 0x0b, 0x07,
   0x02, 0x9b, 0xfc, 0xdb, 0x2d, 0xce, 0x28, 0xd9, 0x59, 0xf2, 0x81, 0x5b, 0x16, 0xf8, 0x17, 0x98]

def baseOrdinate : Bytes :=
  [0x48, 0x3a, 0xda, 0x77, 0x26, 0xa3, 0xc4, 0x65, 0x5d, 0xa4, 0xfb, 0xfc, 0x0e, 0x11, 0x08, 0xa8,
   0xfd, 0x17, 0xb4, 0x48, 0xa6, 0x85, 0x54, 0x19, 0x9c, 0x47, 0xd0, 0x8f, 0xfb, 0x10, 0xd4, 0xb8]

/-- `0x02` is for an even second coordinate, as it is at both points. -/
def encodePoint (exponent : Nat) (compressed : Bool) : Bytes :=
  match compressed, decide (exponent = 1) with
  | true, true => 0x02 :: baseAbscissa
  | false, true => 0x04 :: (baseAbscissa ++ baseOrdinate)
  | true, false => 0x02 :: shared
  | false, false => 0x04 :: (shared ++ ordinate)

def decodePoint (str : Bytes) : Nat :=
  if str = encodePoint 1 true ∨ str = encodePoint 1 false then 1 else integer secretSample

def sha256 : Digest 32 where
  digest message :=
    if message = 0x80 :: secretSample then
      [0x81, 0x47, 0x78, 0x6c, 0x4d, 0x15, 0x10, 0x63, 0x33, 0xbf, 0x27, 0x8d, 0x71, 0xda, 0xda, 0xf1,
       0x07, 0x9e, 0xf2, 0xd2, 0x44, 0x0a, 0x4d, 0xde, 0x37, 0xd7, 0x47, 0xde, 0xd5, 0x40, 0x35, 0x92]
    else if message = shared ++ [0, 0, 0, 1] then
      [0x6d, 0xb3, 0x90, 0xf7, 0xd4, 0x6c, 0x2e, 0x3a, 0xeb, 0x69, 0x9f, 0xf7, 0x85, 0x50, 0x14, 0x9a,
       0x05, 0x1c, 0x5d, 0xbb, 0x19, 0xd5, 0xbc, 0x47, 0x2c, 0x1e, 0x5d, 0x2e, 0x61, 0x20, 0xae, 0xea]
    else if message = shared ++ [0, 0, 0, 2] then
      [0xaf, 0xd3, 0x92, 0x26, 0xa3, 0x79, 0xa4, 0xbc, 0x78, 0xf5, 0xd5, 0x04, 0x61, 0x59, 0x83, 0xbc,
       0x77, 0xd4, 0x54, 0x65, 0xd2, 0xdd, 0x68, 0xb9, 0x91, 0xd0, 0x85, 0x9a, 0xdd, 0xfc, 0xe0, 0x49]
    else if message = shared ++ [0, 0, 0, 3] then
      [0xf1, 0x06, 0xcf, 0xf8, 0x7b, 0x54, 0xe2, 0x73, 0x28, 0xd6, 0xbc, 0x61, 0x81, 0x5e, 0x2e, 0xae,
       0x98, 0xb6, 0x90, 0xd0, 0x20, 0xb4, 0x34, 0xe9, 0xcc, 0xa6, 0xe3, 0x66, 0xae, 0x94, 0x2e, 0x34]
    else sha256dSample.digest message
  length_digest message := by
    split
    · rfl
    split
    · rfl
    split
    · rfl
    split <;> rfl

def ripemd160 : Digest 20 := .const
  [0xc6, 0x00, 0x49, 0xb1, 0x5b, 0x5b, 0xca, 0x8c, 0x45, 0x8f, 0x7e, 0xd8, 0x7c, 0x42, 0xff, 0x64,
   0x3e, 0x32, 0x2f, 0x14]

/-- The MAC of the ciphertext. -/
def hmac : Digest 32 := .const
  [0xbd, 0x19, 0x4b, 0x75, 0x97, 0x59, 0x50, 0x70, 0x99, 0x02, 0xd1, 0x98, 0xb9, 0x20, 0x22, 0x9e,
   0xd4, 0x4c, 0x34, 0x5a, 0x3b, 0x95, 0x89, 0xc9, 0x06, 0x89, 0x75, 0x41, 0xe6, 0x93, 0x4b, 0x5c]

/-- The ciphertext of the padded message, xored with the padded message. -/
def mask : Bytes :=
  [0xbc, 0xea, 0xd5, 0x50, 0x7d, 0x9a, 0x21, 0x99, 0xb5, 0xab, 0xdf, 0x99, 0xaf, 0xa5, 0x1f, 0xe7]

def applyMask (s : Bytes) : Bytes := s.mapIdx fun i x => x ^^^ mask.getD (i % 16) 0

def pad (s : Bytes) : Bytes :=
  s ++ List.replicate (16 - s.length % 16) (UInt8.ofNat (16 - s.length % 16))

def unpad (s : Bytes) : Bytes := s.take (s.length - (s.getLast?.getD 0).toNat)

theorem applyMask_applyMask (s : Bytes) : applyMask (applyMask s) = s := by
  refine List.ext_getElem? fun i => ?_
  rw [applyMask, applyMask, List.getElem?_mapIdx, List.getElem?_mapIdx]
  cases s[i]? with
  | none => rfl
  | some x =>
    rw [Option.map_some, Option.map_some, UInt8.xor_assoc, UInt8.xor_self, UInt8.xor_zero]

theorem unpad_pad (s : Bytes) : unpad (pad s) = s := by
  have hpos : 0 < 16 - s.length % 16 := by omega
  have hlast : (pad s).getLast? = some (UInt8.ofNat (16 - s.length % 16)) := by
    rw [pad, List.getLast?_append, List.getLast?_replicate, if_neg (by omega)]
    rfl
  have hbyte : (UInt8.ofNat (16 - s.length % 16)).toNat = 16 - s.length % 16 :=
    UInt8.toNat_ofNat_of_lt' (show 16 - s.length % 16 < 256 by omega)
  rw [unpad, hlast, Option.getD_some, hbyte, pad, List.length_append, List.length_replicate,
    Nat.add_sub_cancel, List.take_left]

theorem length_pad (s : Bytes) : 0 < (pad s).length ∧ 16 ∣ (pad s).length := by
  rw [pad, List.length_append, List.length_replicate]
  exact ⟨by omega, by omega⟩

def cryptoPP : CryptoPP where
  Point := Nat
  encodePoint := encodePoint
  decodePoint := decodePoint
  exponentiateBase a := a
  PrivateExponent a := a = 1 ∨ a = integer secretSample
  encodeInteger a _ := if a = 1 then List.replicate 31 0 ++ [1] else secretSample
  privateKeyLength := 32
  agree _ _ := some shared
  sha256 := sha256
  ripemd160 := ripemd160
  hmac _ := hmac
  cbcEncrypt _ _ message := applyMask (pad message)
  cbcDecrypt _ _ cipher := some (unpad (applyMask cipher))

theorem decode_encode {a : Nat} (ha : a = 1 ∨ a = integer secretSample) (compressed : Bool) :
    decodePoint (encodePoint a compressed) = a := by
  obtain rfl | rfl := ha <;> cases compressed <;> decide +kernel

theorem lawful : cryptoPP.Lawful where
  length_compressed a ha := by
    obtain rfl | rfl := ha <;> decide +kernel
  decode_encode _ compressed ha := decode_encode ha compressed
  agree_symm _ _ _ _ := ⟨shared, rfl, rfl⟩
  cbc_decrypt_encrypt _ _ message _ _ := by
    change some (unpad (applyMask (applyMask (pad message)))) = some message
    rw [applyMask_applyMask, unpad_pad]
  cbc_length _ _ message _ _ := by
    change 0 < (applyMask (pad message)).length ∧ 16 ∣ (applyMask (pad message)).length
    rw [applyMask, List.length_mapIdx]
    exact length_pad message

theorem encodesSecret : EncodesSecret cryptoPP.sha256d
    (encode (cryptoPP.sha256d.seal (0x80 :: secretSample))) secretSample :=
  encodesSecret_encode cryptoPP.sha256d rfl

def privateKey : PrivateKey cryptoPP.sha256d := ⟨_, _, wifToSk_of_encodes encodesSecret 0⟩

theorem sk_privateKey : privateKey.sk = integer secretSample := by
  rw [PrivateKey.sk, privateKey, wifToSk_of_encodes encodesSecret]

end Sample

theorem encryption_correct_sample : (∃ publicKey,
    Sample.privateKey.getPublicKey Sample.cryptoPP [] = .ok publicKey ∧ ∃ encrypted,
      publicKey.encrypt Sample.cryptoPP [104, 105] 1 = .ok encrypted ∧
        Sample.privateKey.decrypt Sample.cryptoPP encrypted = .ok [104, 105]) ∧
    ∃ fault, Sample.privateKey.decrypt Sample.cryptoPP [] = .error fault := by
  obtain ⟨hsound, hthrows⟩ := encryption_correct Sample.lawful Sample.privateKey
  obtain ⟨publicKey, hmake, hencrypt⟩ := hsound (.inr Sample.sk_privateKey) []
  exact ⟨⟨publicKey, hmake, hencrypt [104, 105] 1 (.inl rfl)⟩,
    hthrows [] fun h => absurd h.1 (by decide)⟩

end MeshPP.CryptoUtility
