import MeshPP.CryptoUtility.Signature
import MeshPP.P2PSocket.Network

/-! # Nodes that hold keys

The node id is the text of the public key of the node, and what the node signs
is signed with the private key. Over links that carry what is sent, each signed
packet is then verified where it arrives. -/

set_option linter.unusedSectionVars false

namespace MeshPP.P2PSocket
open MeshPP.Lib MeshPP.Kbucket MeshPP.CryptoUtility

/-! ## Strings and their bytes -/

def bytesOf (s : String) : Bytes := s.toList.map fun x => UInt8.ofNat x.toNat

def textOf (bytes : Bytes) : String := String.ofList (bytes.map fun x => Char.ofNat x.toNat)

theorem bytesOf_textOf (bytes : Bytes) : bytesOf (textOf bytes) = bytes := by
  unfold bytesOf textOf
  rw [String.toList_ofList, List.map_map]
  refine (List.map_congr_left fun x _ => ?_).trans (List.map_id bytes)
  have hvalid : x.toNat.isValidChar := .inl (Nat.lt_of_lt_of_le x.toNat_lt (by decide))
  have hchar : (Char.ofNat x.toNat).toNat = x.toNat := by
    rw [Char.ofNat, dif_pos hvalid]
    rfl
  change UInt8.ofNat (Char.ofNat x.toNat).toNat = x
  rw [hchar, UInt8.ofNat_toNat]

/-! ## Sites -/

/-- The node of a private key; `nonce` is what the random pool yields for a message. -/
def Site.ofKey (c : CryptoPP) (e : Ecdsa c) (publicKeyPrefix : Bytes) (gmTime : Int → String)
    (nonce : String → Bytes) (key : PrivateKey c.sha256d) : Site where
  selfId :=
    match key.getPublicKey c publicKeyPrefix with
    | .ok pbKey => textOf (pbKey.toString c publicKeyPrefix)
    | .error _ => ""
  library :=
    { validPublicKey str := (PublicKey.make c publicKeyPrefix (bytesOf str)).isOk
      verifySignature nodeid message signed :=
        match PublicKey.make c publicKeyPrefix (bytesOf nodeid) with
        | .ok pbKey => CryptoUtility.verifySignature c e pbKey (bytesOf message) (bytesOf signed)
        | .error _ => false
      sign message :=
        match key.sign c e publicKeyPrefix (nonce message) (bytesOf message) with
        | .ok signed => textOf signed.base58
        | .error _ => ""
      gmTime }

theorem sign_ofKey {c : CryptoPP} {e : Ecdsa c} (hc : c.Lawful) (he : e.Lawful)
    {publicKeyPrefix : Bytes} {gmTime : Int → String} {nonce : String → Bytes}
    {key : PrivateKey c.sha256d} (hkey : c.PrivateExponent key.sk) (message : String) :
    (Site.ofKey c e publicKeyPrefix gmTime nonce key).library.sign message =
      textOf (encode (e.toDer ((e.sign key.sk (nonce message) (bytesOf message)).length * 2)
        (e.sign key.sk (nonce message) (bytesOf message)))) := by
  obtain ⟨pbKey, hget, htext⟩ := getPublicKey_eq hc hkey publicKeyPrefix
  have hsign := signText_eq (e := e) key (nonce message) (bytesOf message)
  unfold Site.ofKey Library.sign
  dsimp only
  rw [sign_eq hc he hkey hget htext hsign]

/-- The nodes verify what any of them has signed, at the time it has signed it. -/
structure Recognised {N : Type} (sites : N → Site) : Prop where
  gmTime : ∀ n m, (sites n).library.gmTime = (sites m).library.gmTime
  valid : ∀ n m, (sites n).library.validPublicKey (sites m).selfId = true
  verified : ∀ n m message, (sites n).library.verifySignature (sites m).selfId message
    ((sites m).library.sign message) = true

theorem recognised_ofKey {c : CryptoPP} {e : Ecdsa c} (hc : c.Lawful) (he : e.Lawful)
    (publicKeyPrefix : Bytes) (gmTime : Int → String) {N : Type} (nonce : N → String → Bytes)
    {keys : N → PrivateKey c.sha256d} (hkeys : ∀ n, c.PrivateExponent (keys n).sk) :
    Recognised fun n => Site.ofKey c e publicKeyPrefix gmTime (nonce n) (keys n) := by
  have hid : ∀ n, ∃ pbKey, PublicKey.make c publicKeyPrefix
      (bytesOf (Site.ofKey c e publicKeyPrefix gmTime (nonce n) (keys n)).selfId) = .ok pbKey ∧
      pbKey.strBase58 = pointText c (c.exponentiateBase (keys n).sk) := by
    intro n
    obtain ⟨pbKey, hget, htext⟩ := getPublicKey_eq hc (hkeys n) publicKeyPrefix
    obtain ⟨made, hmake, hmade⟩ := make_pointText hc (hkeys n) publicKeyPrefix
    refine ⟨made, ?_, hmade⟩
    have hself : (Site.ofKey c e publicKeyPrefix gmTime (nonce n) (keys n)).selfId =
        textOf (publicKeyPrefix ++ pointText c (c.exponentiateBase (keys n).sk)) := by
      unfold Site.ofKey
      dsimp only
      rw [hget]
      exact congrArg (fun text => textOf (publicKeyPrefix ++ text)) htext
    rw [hself, bytesOf_textOf, hmake]
  refine ⟨fun _ _ => rfl, fun n m => ?_, fun n m message => ?_⟩
  · obtain ⟨pbKey, hmake, -⟩ := hid m
    change (PublicKey.make c publicKeyPrefix _).isOk = true
    rw [hmake]
    rfl
  · obtain ⟨pbKey, hmake, htext⟩ := hid m
    rw [sign_ofKey hc he (hkeys m)]
    generalize (Site.ofKey c e publicKeyPrefix gmTime (nonce m) (keys m)).selfId = name at hmake ⊢
    unfold Site.ofKey Library.verifySignature
    dsimp only
    rw [hmake]
    dsimp only
    rw [bytesOf_textOf]
    exact verifySignature_signText hc he (hkeys m) htext (signText_eq _ _ _)

/-! ## Signed packets -/

/-- `verify_signature` is called with what a packet has, and returns `true`. -/
def Verifies (library : Library) (nodeid : String) (stamp : Int) (signature : String) : Prop :=
  ∀ s, @verifySignature library nodeid (@stampedMessage library nodeid stamp) signature s =
    .ok true s

/-- Each signed packet is verified where it arrives. -/
structure SignedPackets {N : Type} (sites : N → Site) (w : N → Station) : Prop where
  ping : ∀ n p msg, .delivered p (.ping msg) ∈ (w n).node.trace → msg.signature ≠ "" →
    Verifies (sites n).library msg.nodeid msg.stamp msg.signature
  pong : ∀ n p msg, .delivered p (.pong msg) ∈ (w n).node.trace → msg.signature ≠ "" →
    Verifies (sites n).library msg.nodeid msg.stamp msg.signature

section
variable [Sha256] [EmptyDestination] {N : Type} {sites : N → Site} {links : Links N PeerId}
  {w : N → Station}

/-- What a node has signed with a stamp is verified where the stamp is read. -/
theorem Recognised.stamped (hr : Recognised sites) (n m : N) (stamp : Int) :
    (sites n).library.verifySignature (sites m).selfId
      (@stampedMessage (sites n).library (sites m).selfId stamp)
      ((sites m).library.sign (@stampedMessage (sites m).library (sites m).selfId stamp)) = true := by
  have hmessage : @stampedMessage (sites n).library (sites m).selfId stamp =
      @stampedMessage (sites m).library (sites m).selfId stamp := by
    unfold stampedMessage
    rw [hr.gmTime n m]
  rw [hmessage, hr.verified]

theorem Recognised.verifies (hr : Recognised sites) (n m : N) (stamp : Int) :
    Verifies (sites n).library (sites m).selfId stamp
      ((sites m).library.sign (@stampedMessage (sites m).library (sites m).selfId stamp)) := by
  intro s
  unfold verifySignature
  rw [if_pos (hr.valid n m), hr.stamped]
  rfl

theorem Sound.signedPackets (h : Sound sites links w) (hr : Recognised sites) :
    SignedPackets sites w where
  ping n p msg hd hsigned := by
    obtain ⟨m, q, -, hs⟩ := h.sent hd rfl
    obtain ⟨before, -, hname, hempty | ⟨-, hsignature⟩⟩ := (h.kept m).sincere hs
    · exact absurd hempty hsigned
    · rw [hsignature, hname]
      exact hr.verifies n m msg.stamp
  pong n p msg hd hsigned := by
    obtain ⟨m, q, -, hs⟩ := h.sent hd rfl
    obtain ⟨before, -, hname, -, hempty | hsignature⟩ := (h.kept m).sincere hs
    · exact absurd hempty hsigned
    · rw [hsignature, hname]
      exact hr.verifies n m msg.stamp

/-- **In every run of a network of nodes that hold keys, each signed packet is verified where it
arrives.** -/
theorem network_authentic [DecidableEq N] {c : CryptoPP} {e : Ecdsa c} (hc : c.Lawful)
    (he : e.Lawful) {publicKeyPrefix : Bytes} {gmTime : Int → String} {nonce : N → String → Bytes}
    {keys : N → PrivateKey c.sha256d} (hkeys : ∀ n, c.PrivateExponent (keys n).sk)
    {ops : List (N × P2POp)}
    (h : Created (fun n => Site.ofKey c e publicKeyPrefix gmTime (nonce n) (keys n)) w)
    (hm : Meets (networkStep fun n => Site.ofKey c e publicKeyPrefix gmTime (nonce n) (keys n))
      (ports.Carries links) w ops) :
    SignedPackets (fun n => Site.ofKey c e publicKeyPrefix gmTime (nonce n) (keys n))
      (final (networkStep fun n => Site.ofKey c e publicKeyPrefix gmTime (nonce n) (keys n))
        w ops) :=
  (h.sound_final hm).signedPackets (recognised_ofKey hc he publicKeyPrefix gmTime nonce hkeys)

end

namespace Sample

/-- Two processes with the same key, one on each end of a link. -/
abbrev keySite (_ : Place) : Site :=
  .ofKey CryptoUtility.Sample.cryptoPP CryptoUtility.Sample.ecdsa [] (fun _ => gmTime)
    (fun _ => []) CryptoUtility.Sample.privateKey

abbrev keyDigest : Sha256 where
  digest str :=
    if str = "6UUbAGbTLLWfY2gAc8XmjGBz2c7WT4fYB5r1L1aHDwAY88ujex" then
      0xc33cacdd41b48c247a1915a9d939fd44aedfd6c565dff3083b8d4093b399e0e0
    else 0
  digest_lt str := by split <;> decide

def greeting [Sha256] [EmptyDestination] : List (Place × P2POp) :=
  relay keySite Place.links (fun n => start (keySite n))
    [(.hub, "left"), (.left, "hub"), (.hub, "left")]

def greeted [Sha256] [EmptyDestination] : Bool :=
  created (keySite .hub) && allOrder keySite Place.links (fun n => start (keySite n)) greeting

theorem created_of_greeted [Sha256] [EmptyDestination] (h : greeted = true) :
    Created keySite fun n => start (keySite n) :=
  created_start fun _ => (Bool.and_eq_true_iff.mp h).1

theorem carries_of_greeted [Sha256] [EmptyDestination] (h : greeted = true) :
    Meets (networkStep keySite) (ports.Carries Place.links) (fun n => start (keySite n))
      greeting :=
  (meets_allOrder (Bool.and_eq_true_iff.mp h).2).mono fun _ _ h => h.carries

theorem greeted_true : @greeted keyDigest emptyDestination = true := by decide +kernel

end Sample

theorem network_authentic_greeting :
    letI := Sample.keyDigest
    letI := Sample.emptyDestination
    SignedPackets Sample.keySite
      (final (networkStep Sample.keySite) (fun n => Sample.start (Sample.keySite n))
        Sample.greeting) := by
  let _ := Sample.keyDigest
  let _ := Sample.emptyDestination
  have h := Sample.greeted_true
  exact network_authentic CryptoUtility.Sample.lawful CryptoUtility.Sample.lawful_ecdsa
    (fun _ => .inr CryptoUtility.Sample.sk_privateKey) (Sample.created_of_greeted h)
    (Sample.carries_of_greeted h)

end MeshPP.P2PSocket
