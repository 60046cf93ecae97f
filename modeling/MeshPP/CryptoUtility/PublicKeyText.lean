import MeshPP.CryptoUtility.Base58

/-! # The text of a public key

A public key is written in base58 with the first four bytes of its RIPEMD-160
digest behind it. `base58ToPkHex` gets the empty vector for a text that is
not base58 and has no branch for what is too short to hold a checksum. -/

namespace MeshPP.CryptoUtility

/-! ## Checksums -/

/-- A hash function with digests of `size` bytes. -/
structure Digest (size : Nat) where
  digest : Bytes → Bytes
  length_digest : ∀ message, (digest message).length = size

/-- A payload and the first bytes of its digest. -/
def Digest.seal {size : Nat} (hash : Digest size) (payload : Bytes) : Bytes :=
  payload ++ (hash.digest payload).take 4

theorem Digest.length_seal {size : Nat} (hash : Digest size) (hsize : 4 ≤ size)
    (payload : Bytes) : (hash.seal payload).length = payload.length + 4 := by
  rw [Digest.seal, List.length_append, List.length_take, hash.length_digest,
    Nat.min_eq_left hsize]

/-- A sealed payload is found by its length, and its checksum is the one that is stored. -/
theorem Digest.eq_seal_iff {size : Nat} (hash : Digest size) (hsize : 4 ≤ size)
    {vch payload : Bytes} : vch = hash.seal payload ↔
      4 ≤ vch.length ∧ vch.take (vch.length - 4) = payload ∧
        (hash.digest payload).take 4 = vch.drop (vch.length - 4) := by
  constructor
  · intro h
    have hlength := hash.length_seal hsize payload
    rw [h, hlength, Nat.add_sub_cancel, Digest.seal, List.take_left, List.drop_left]
    exact ⟨Nat.le_add_left 4 _, rfl, rfl⟩
  · intro ⟨_, hpayload, hchk⟩
    rw [Digest.seal, hchk, ← hpayload, List.take_append_drop]

theorem fromBase58_total (s : Bytes) : ∃ vch, fromBase58 s = .ok vch := ⟨_, fromBase58_eq s⟩

theorem fromBase58_encode (s : Bytes) : fromBase58 (encode s) = .ok s := by
  rw [fromBase58_spaced (encode_alphabet s) (.refl _), decode_encode]

/-! ## The code -/

section
variable (ripemd160 : Digest 20)

def pkToBase58 (key : Bytes) : Except Fault Bytes :=
  let chkStr := ripemd160.digest key
  let keyTemp := key ++ chkStr.take 4
  toBase58 keyTemp

/-- The flag and what `pk` is afterwards. -/
def base58ToPkHex (b58Str pk : Bytes) : Except Fault (Bool × Bytes) := do
  let vch ← fromBase58 b58Str
  if 4 < vch.length then
    let result := vch.take (vch.length - 4)
    let storedChkStr := vch.drop (vch.length - 4)
    let chkStr := (ripemd160.digest result).take 4
    if chkStr ≠ storedChkStr then return (false, pk) else return (true, result)
  else return (true, pk)

/-! ## What is accepted -/

theorem pkToBase58_eq (key : Bytes) :
    pkToBase58 ripemd160 key = .ok (encode (ripemd160.seal key)) := toBase58_eq _

/-- The text is that of a payload with its checksum, and the payload is not empty. -/
def EncodesKey (b58Str key : Bytes) : Prop :=
  key ≠ [] ∧ fromBase58 b58Str = .ok (ripemd160.seal key)

/-- An encoding gives its payload, and anything else is refused and leaves `pk`. -/
def ReadsKey (b58Str pk : Bytes) : Prop :=
  (∃ key, EncodesKey ripemd160 b58Str key ∧
      base58ToPkHex ripemd160 b58Str pk = .ok (true, key)) ∨
    ((¬∃ key, EncodesKey ripemd160 b58Str key) ∧
      base58ToPkHex ripemd160 b58Str pk = .ok (false, pk))

variable {ripemd160}

theorem base58ToPkHex_of_encodes {b58Str key : Bytes} (h : EncodesKey ripemd160 b58Str key)
    (pk : Bytes) : base58ToPkHex ripemd160 b58Str pk = .ok (true, key) := by
  obtain ⟨hne, hvch⟩ := h
  obtain ⟨_, hpayload, hchk⟩ := (ripemd160.eq_seal_iff (by decide)).mp (Eq.refl (ripemd160.seal key))
  have hlong : 4 < (ripemd160.seal key).length := by
    rw [ripemd160.length_seal (by decide)]
    have := List.length_pos_iff.mpr hne
    omega
  rw [base58ToPkHex, hvch]
  refine (if_pos hlong).trans ?_
  rw [hpayload, if_neg (not_not_intro hchk)]
  rfl

theorem base58ToPkHex_of_not_encodes {b58Str vch : Bytes} (hvch : fromBase58 b58Str = .ok vch)
    (hlong : 4 < vch.length) (h : ¬∃ key, EncodesKey ripemd160 b58Str key) (pk : Bytes) :
    base58ToPkHex ripemd160 b58Str pk = .ok (false, pk) := by
  have hchk : (ripemd160.digest (vch.take (vch.length - 4))).take 4 ≠ vch.drop (vch.length - 4) := by
    intro hchk
    refine h ⟨vch.take (vch.length - 4), ?_, ?_⟩
    · refine List.ne_nil_of_length_pos ?_
      rw [List.length_take]
      omega
    · rw [hvch]
      exact congrArg Except.ok ((ripemd160.eq_seal_iff (by decide)).mpr ⟨hlong.le, rfl, hchk⟩)
  rw [base58ToPkHex, hvch]
  exact (if_pos hlong).trans (if_pos hchk)

theorem base58ToPkHex_short {b58Str vch : Bytes} (hvch : fromBase58 b58Str = .ok vch)
    (hshort : ¬4 < vch.length) (pk : Bytes) :
    base58ToPkHex ripemd160 b58Str pk = .ok (true, pk) := by
  rw [base58ToPkHex, hvch]
  exact if_neg hshort

/-- Neither of the two answers can be given for what is too short. -/
theorem ReadsKey.long {b58Str pk vch : Bytes} (h : ReadsKey ripemd160 b58Str pk)
    (hvch : fromBase58 b58Str = .ok vch) : 4 < vch.length := by
  by_contra hshort
  obtain ⟨key, ⟨hne, henc⟩, _⟩ | ⟨_, hfalse⟩ := h
  · have hlength := ripemd160.length_seal (by decide) key
    rw [← Except.ok.inj (hvch.symm.trans henc)] at hlength
    have := List.length_pos_iff.mpr hne
    omega
  · rw [base58ToPkHex_short hvch hshort] at hfalse
    cases hfalse

variable (ripemd160)

theorem readsKey_iff :
    (∀ key pk, key ≠ [] → ∃ b58Str, pkToBase58 ripemd160 key = .ok b58Str ∧
      base58ToPkHex ripemd160 b58Str pk = .ok (true, key)) ∧
    ∀ b58Str pk, ReadsKey ripemd160 b58Str pk ↔
      ∃ vch, fromBase58 b58Str = .ok vch ∧ 4 < vch.length := by
  constructor
  · intro key pk hne
    exact ⟨_, pkToBase58_eq ripemd160 key,
      base58ToPkHex_of_encodes ⟨hne, fromBase58_encode _⟩ pk⟩
  · intro b58Str pk
    obtain ⟨vch, hvch⟩ := fromBase58_total b58Str
    refine ⟨fun h => ⟨vch, hvch, h.long hvch⟩, fun ⟨vch', hvch', hlong⟩ => ?_⟩
    by_cases h : ∃ key, EncodesKey ripemd160 b58Str key
    · obtain ⟨key, hkey⟩ := h
      exact .inl ⟨key, hkey, base58ToPkHex_of_encodes hkey pk⟩
    · exact .inr ⟨h, base58ToPkHex_of_not_encodes hvch' hlong h pk⟩

end

/-- A hash function that gives one digest. -/
def Digest.const (d : Bytes) : Digest d.length := ⟨fun _ => d, fun _ => rfl⟩

/-- The RIPEMD-160 digest of `a`. -/
def ripemd160A : Digest 20 := .const
  [0x0b, 0xdc, 0x9d, 0x2d, 0x25, 0x6b, 0x3e, 0xe9, 0xda, 0xae, 0x34, 0x7b, 0xe6, 0xf4, 0xdc, 0x83,
    0x5a, 0x46, 0x7f, 0xfe]

theorem readsKey_iff_a : ∃ b58Str, pkToBase58 ripemd160A [97] = .ok b58Str ∧
    base58ToPkHex ripemd160A b58Str [] = .ok (true, [97]) :=
  (readsKey_iff ripemd160A).1 [97] [] (by decide)

/-- The text `0` is not base58 and is taken for a key. -/
theorem short_text_accepted : base58ToPkHex ripemd160A [48] [] = .ok (true, []) ∧
    ¬ReadsKey ripemd160A [48] [] := by
  have hvch : fromBase58 [48] = .ok [] := by decide
  exact ⟨base58ToPkHex_short hvch (by decide) [],
    fun h => absurd (h.long hvch) (by decide)⟩

end MeshPP.CryptoUtility
