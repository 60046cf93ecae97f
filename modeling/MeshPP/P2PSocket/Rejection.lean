import MeshPP.P2PSocket.Registration

/-! # The rejection of a `Ping` or a `Pong`

A packet that does not authenticate its sender is passed over. The constructor of
the public key is called outside of what `verify_signature` catches, so that a
node id which is no key ends the whole call of `receive` instead. -/

set_option linter.unusedSectionVars false

namespace MeshPP.P2PSocket
open MeshPP.Lib MeshPP.Kbucket

section
variable [Sha256] [EmptyDestination] [Library] {s : Internals} {p : PeerId} {r : Received}
  {calls : PacketCalls}

/-- The stamp is not in the window, the signature is not the node's, or there is none and the
peer has not been verified. -/
def Unauthentic (s : Internals) (p : PeerId) (nodeid : String) (stamp : Int) (signature : String)
    (now : Int) : Prop :=
  outdated stamp now ∨
  signature ≠ "" ∧ ¬ (Library.validPublicKey nodeid ∧
    Library.verifySignature nodeid (stampedMessage nodeid stamp) signature) ∨
  signature = "" ∧ ¬ s.state.isPeerVerified p

/-- A `Ping` or a `Pong` that fails authentication. -/
def Rejected (s : Internals) (p : PeerId) (now : Int) : Packet → Prop
  | .ping msg => Unauthentic s p msg.nodeid msg.stamp msg.signature now
  | .pong msg => Unauthentic s p msg.nodeid msg.stamp msg.signature now
  | _ => False

/-- A public key is to be made of a text that is none. -/
def MakesKey (s : Internals) (now : Int) : Packet → Prop
  | .ping msg => ¬ outdated msg.stamp now ∧ msg.signature ≠ "" ∧ ¬ Library.validPublicKey msg.nodeid
  | .pong msg => s.state.selfId ≠ msg.nodeid ∧ ¬ outdated msg.stamp now ∧ msg.signature ≠ "" ∧
      ¬ Library.validPublicKey msg.nodeid
  | _ => False

/-- The packet changes nothing, is answered by nothing, and the packets behind it are handled
as if it were not there. -/
def HasNoEffect (s : Internals) (p : PeerId) (r : Received) (packet : Packet)
    (calls : PacketCalls) : Prop :=
  ∃ r' s', receivePacket p r (packet, calls) s = .ok r' s' ∧
    r'.peer = r.peer ∧ r'.returnPackets = r.returnPackets ∧
    s'.state = s.state ∧ s'.notifyRemovedPeers = s.notifyRemovedPeers ∧
    s'.trace = s.trace ++ [.delivered p packet] ∧
    ∀ rest, ((packet, calls) :: rest).foldlM (receivePacket p) r s =
      rest.foldlM (receivePacket p) r' s'

/-! ## The packet is passed over -/

/-- Programs that return, and neither send nor change the state of the node. -/
def silent : Frame Internals where
  le s s' := s'.state = s.state ∧ s'.notifyRemovedPeers = s.notifyRemovedPeers ∧
    s'.trace = s.trace
  refl _ := ⟨rfl, rfl, rfl⟩
  trans h h' := ⟨h'.1.trans h.1, h'.2.1.trans h.2.1, h'.2.2.trans h.2.2⟩
  excused _ := False
  excused_of_le _ h := h

section
variable {nodeid signature : String} {stamp now : Int}

theorem Unauthentic.not_signed (hu : Unauthentic s p nodeid stamp signature now)
    (hin : ¬ outdated stamp now) (hs : signature ≠ "") (hv : Library.validPublicKey nodeid) :
    Library.verifySignature nodeid (stampedMessage nodeid stamp) signature = false := by
  rcases hu with hout | ⟨-, hnot⟩ | ⟨hempty, -⟩
  · exact absurd hout hin
  · exact Bool.eq_false_iff.mpr fun ht => hnot ⟨hv, ht⟩
  · exact absurd hempty hs

theorem Unauthentic.not_verified (hu : Unauthentic s p nodeid stamp signature now)
    (hin : ¬ outdated stamp now) (hs : signature = "") : s.state.isPeerVerified p = false := by
  rcases hu with hout | ⟨hsigned, -⟩ | ⟨-, hnot⟩
  · exact absurd hout hin
  · exact absurd hs hsigned
  · exact Bool.eq_false_iff.mpr hnot

end

theorem silent_verifySignature {nodeid message signature : String}
    (hv : Library.validPublicKey nodeid = true) :
    Ends silent (verifySignature nodeid message signature) s fun b s' =>
      s' = s ∧ b = Library.verifySignature nodeid message signature := by
  unfold verifySignature
  rw [if_pos hv]
  exact ends_pure ⟨rfl, rfl⟩

theorem silent_authenticatePing {msg : Ping} {now : Int}
    (hu : Unauthentic s p msg.nodeid msg.stamp msg.signature now)
    (hk : ¬ MakesKey s now (.ping msg)) :
    Ends silent (authenticatePing p msg now) s fun b _ => b = false := by
  unfold authenticatePing
  split
  · exact ends_pure rfl
  · next hin =>
    split
    · next hsigned =>
      have hv : Library.validPublicKey msg.nodeid = true := by
        by_contra hv
        exact hk ⟨hin, hsigned, hv⟩
      refine (silent_verifySignature hv).bind fun b s' _ h => ?_
      obtain ⟨rfl, rfl⟩ := h
      rw [hu.not_signed hin hsigned hv]
      exact ends_pure rfl
    · next hunsigned =>
      exact Ends.get_bind (ends_pure (hu.not_verified hin (not_not.mp hunsigned)))

theorem silent_canResetExternalAddress (peerConnection currentConnection : IpAddress) :
    Ends silent (canResetExternalAddress peerConnection currentConnection) s fun _ s' =>
      s'.state = s.state := by
  unfold canResetExternalAddress isTheFirstConfiguredAddress
  refine Ends.get_bind ?_
  split
  · exact ends_pure rfl
  · refine Ends.get_bind ?_
    split
    · exact ends_pure rfl
    · split
      · exact Ends.bind (Q := fun _ t => t.state = s.state) (ends_modify ⟨rfl, rfl, rfl⟩ rfl)
          fun _ _ _ h => ends_pure h
      · exact ends_pure rfl

theorem silent_receivePing {msg : Ping} {connection : IpAddress}
    (hconn : calls.infoConnection = some connection)
    (hu : Unauthentic s p msg.nodeid msg.stamp msg.signature calls.now)
    (hk : ¬ MakesKey s calls.now (.ping msg)) :
    Ends silent (receivePing p msg calls r) s fun r' _ => r' = r := by
  have hcheck : Ends silent (checkPing p msg calls r) s fun b _ => b = false := by
    unfold checkPing
    rw [hconn]
    refine Ends.get_bind ?_
    refine (silent_canResetExternalAddress connection r.currentConnection).bind fun b s₁ _ h₁ => ?_
    have hu₁ : Unauthentic s₁ p msg.nodeid msg.stamp msg.signature calls.now := by
      unfold Unauthentic
      rw [h₁]
      exact hu
    refine (silent_authenticatePing hu₁ hk).bind fun b s₂ _ h₂ => ?_
    subst h₂
    exact ends_pure rfl
  refine hcheck.bind fun b s₁ _ h₁ => ?_
  subst h₁
  exact ends_pure rfl

theorem silent_receivePong {msg : Pong}
    (hu : Unauthentic s p msg.nodeid msg.stamp msg.signature calls.now)
    (hk : ¬ MakesKey s calls.now (.pong msg)) :
    Ends silent (receivePong p msg calls) s fun _ _ => True := by
  have hcheck : Ends silent (checkPong p msg calls.now) s fun b _ => b = false := by
    unfold checkPong
    refine Ends.get_bind ?_
    split
    · exact ends_pure rfl
    · next hother =>
      split
      · exact ends_pure rfl
      · next hin =>
        split
        · next hsigned =>
          have hv : Library.validPublicKey msg.nodeid = true := by
            by_contra hv
            exact hk ⟨hother, hin, hsigned, hv⟩
          refine (silent_verifySignature hv).mono fun b s' _ h => ?_
          obtain ⟨-, rfl⟩ := h
          exact hu.not_signed hin hsigned hv
        · next hunsigned =>
          exact Ends.get_bind (ends_pure (hu.not_verified hin (not_not.mp hunsigned)))
  refine hcheck.bind fun b s₁ _ h₁ => ?_
  subst h₁
  exact ends_pure trivial

/-! ## The packet ends the call -/

theorem throws_verifySignature {nodeid message signature : String}
    (hv : ¬ Library.validPublicKey nodeid) :
    verifySignature nodeid message signature s = .error (.publicKey nodeid) s := by
  unfold verifySignature
  rw [if_neg hv]
  rfl

theorem throws_receivePing {msg : Ping} {connection : IpAddress}
    (hconn : calls.infoConnection = some connection) (hk : MakesKey s calls.now (.ping msg)) :
    ∃ s', receivePing p msg calls r s = .error (.publicKey msg.nodeid) s' := by
  obtain ⟨hin, hsigned, hv⟩ := hk
  obtain ⟨canReset, s₁, hrun, -, -⟩ :=
    (silent_canResetExternalAddress (s := s) connection r.currentConnection).returns fun hx => hx
  have hcheck : checkPing p msg calls r s = .error (.publicKey msg.nodeid) s₁ := by
    unfold checkPing
    rw [hconn]
    refine (bind_run_ok (a := connection) (t := s) rfl).trans ?_
    rw [get_bind_run]
    refine (bind_run_ok hrun).trans (bind_run_error ?_)
    unfold authenticatePing
    rw [if_neg hin, if_pos hsigned]
    exact bind_run_error (throws_verifySignature hv)
  exact ⟨s₁, bind_run_error hcheck⟩

theorem throws_receivePong {msg : Pong} (hk : MakesKey s calls.now (.pong msg)) :
    receivePong p msg calls s = .error (.publicKey msg.nodeid) s := by
  obtain ⟨hother, hin, hsigned, hv⟩ := hk
  refine bind_run_error ?_
  unfold checkPong
  rw [get_bind_run, if_neg hother, if_neg hin, if_pos hsigned]
  exact throws_verifySignature hv

/-! ## Both together -/

theorem hasNoEffect_of_silent (hi : s.state.Indexed) {packet : Packet}
    (h : Ends silent (receiveCase p (s.state.nodeOf p) calls (r.connected packet calls) packet)
      (s.delivered p packet) fun r' _ => r' = r.connected packet calls) :
    HasNoEffect s p r packet calls := by
  obtain ⟨r', s', hrun, ⟨hstate, hnotify, htrace⟩, rfl⟩ := h.returns fun hx => hx
  have hpacket := (receivePacket_run hi p r (packet, calls)).trans hrun
  refine ⟨_, s', hpacket, ?_, ?_, hstate, hnotify, htrace, fun rest => ?_⟩
  · unfold Received.connected
    split <;> rfl
  · unfold Received.connected
    split <;> rfl
  · rw [List.foldlM_cons]
    exact bind_run_ok hpacket

theorem hasNoEffect_iff (hi : s.state.Indexed) {packet : Packet} {connection : IpAddress}
    (hconn : calls.infoConnection = some connection) (hr : Rejected s p calls.now packet) :
    HasNoEffect s p r packet calls ↔ ¬ MakesKey s calls.now packet := by
  cases packet with
  | ping msg =>
    refine ⟨fun ⟨r', s', hrun, _⟩ hk => ?_, fun hk => hasNoEffect_of_silent hi ?_⟩
    · obtain ⟨s₁, hthrown⟩ := throws_receivePing (s := s.delivered p (.ping msg)) (p := p)
        (r := r.connected (.ping msg) calls) hconn hk
      cases (hrun.symm.trans (receivePacket_run hi p r _)).trans hthrown
    · exact silent_receivePing hconn hr hk
  | pong msg =>
    refine ⟨fun ⟨r', s', hrun, _⟩ hk => ?_, fun hk => hasNoEffect_of_silent hi ?_⟩
    · have hthrown : receiveCase p (s.state.nodeOf p) calls (r.connected (.pong msg) calls)
          (.pong msg) (s.delivered p (.pong msg)) = .error (.publicKey msg.nodeid) _ :=
        bind_run_error (throws_receivePong hk)
      cases (hrun.symm.trans (receivePacket_run hi p r _)).trans hthrown
    · exact Ends.bind (silent_receivePong hr hk) fun _ _ _ _ => ends_pure rfl
  | _ => exact hr.elim

/-- **A rejected packet has no effect exactly if no public key is made of a text that is none.** -/
theorem rejected_has_no_effect {discoveryServer : Bool} {bindToAddress : IpAddress}
    {connectToAddresses : List IpAddress} {selfId : String} {s₀ : Internals}
    (hcreate : create discoveryServer bindToAddress connectToAddresses selfId = .ok s₀)
    {ops : List P2POp} {peer : PeerId} {packets : List (Packet × PacketCalls)}
    (hs : InFrontOf s₀ ops peer p packets r s) {packet : Packet} {connection : IpAddress}
    (hconn : calls.infoConnection = some connection) (hr : Rejected s p calls.now packet) :
    HasNoEffect s p r packet calls ↔ ¬ MakesKey s calls.now packet :=
  hasNoEffect_iff (bears_owned.inFrontOf (owned_create hcreate) hs).indexed hconn hr

end

/-! ## A text that is no key -/

namespace Sample

/-- A `Ping` whose node id is no public key, with some signature. -/
def badPing : Ping := { ping own with nodeid := "node" }

/-- A `Ping` that is too late. -/
def latePing : Ping := { ping own with stamp := time - 60 }

theorem badPing_makesKey (s : Internals) :
    @MakesKey library s (calls "203.0.113.2").now (.ping badPing) :=
  ⟨by decide, by decide, by decide⟩

theorem badPing_rejected (s : Internals) :
    @Rejected library s "p" (calls "203.0.113.2").now (.ping badPing) :=
  let _ := library
  .inr (.inl ⟨(badPing_makesKey s).2.1, fun h => (badPing_makesKey s).2.2 h.1⟩)

theorem latePing_rejected (s : Internals) :
    @Rejected library s "p" (calls "203.0.113.2").now (.ping latePing) :=
  .inl (by decide)

theorem latePing_not_makesKey (s : Internals) :
    ¬ @MakesKey library s (calls "203.0.113.2").now (.ping latePing) :=
  fun h => h.1 (by decide)

end Sample

theorem rejected_ping_throws :
    ¬ ∀ [Sha256] [EmptyDestination] [Library] (discoveryServer : Bool) (bindToAddress : IpAddress)
      (connectToAddresses : List IpAddress) (selfId : String) (s₀ : Internals),
      create discoveryServer bindToAddress connectToAddresses selfId = .ok s₀ →
      ∀ (ops : List P2POp) (peer p : PeerId) (packets : List (Packet × PacketCalls)) (r : Received)
        (s : Internals), InFrontOf s₀ ops peer p packets r s →
        ∀ (packet : Packet) (calls : PacketCalls) (connection : IpAddress),
        calls.infoConnection = some connection → Rejected s p calls.now packet →
        HasNoEffect s p r packet calls := by
  intro h
  let _ := Sample.sha256
  let _ := Sample.emptyDestination
  let _ := Sample.library
  obtain ⟨s₀, r, s, hs₀, hs, -⟩ := Sample.exists_of_accepts Sample.accepts_own
  have heffect := h false Sample.bind [] Sample.own s₀ hs₀ [] "" "p" _ r s hs _
    (Sample.calls "203.0.113.2") _ rfl (Sample.badPing_rejected s)
  have hi := (bears_owned.inFrontOf (owned_create hs₀) hs).indexed
  exact (hasNoEffect_iff hi rfl (Sample.badPing_rejected s)).mp heffect (Sample.badPing_makesKey s)

/-- A `Ping` that is too late is passed over. -/
theorem rejected_has_no_effect_late :
    letI := Sample.sha256
    letI := Sample.emptyDestination
    letI := Sample.library
    ∃ s r, HasNoEffect s "p" r (.ping Sample.latePing) (Sample.calls "203.0.113.2") := by
  let _ := Sample.sha256
  let _ := Sample.emptyDestination
  let _ := Sample.library
  obtain ⟨s₀, r, s, hs₀, hs, -⟩ := Sample.exists_of_accepts Sample.accepts_own
  exact ⟨s, r, (rejected_has_no_effect hs₀ hs rfl (Sample.latePing_rejected s)).mpr
    (Sample.latePing_not_makesKey s)⟩

end MeshPP.P2PSocket
