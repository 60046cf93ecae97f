import MeshPP.P2PSocket.Rejection

/-! # When `receive` does not throw

An exception ends `receive` where it is thrown, and what the batch holds is lost.
A packet throws none when the calls that the socket is asked for return, a key is
made only of a text that is one, a join has the right port, and an accepted `Ping`
does not name this node. -/

set_option linter.unusedSectionVars false

namespace MeshPP.P2PSocket
open MeshPP.Lib MeshPP.Kbucket

section
variable [Sha256] [EmptyDestination] [Library] {s : Internals} {p : PeerId} {r : Received}
  {calls : PacketCalls} {selfId : String}

/-- The calls that `receive` makes for a packet return. The one of `info` may throw. -/
structure PacketCalls.Return (calls : PacketCalls) : Prop where
  infoConnection : calls.infoConnection.isSome
  infoIntroduce : calls.infoIntroduce.isSome
  send : ∀ i, calls.send i = true

/-- Nothing that is done for the packet throws. -/
structure Unfailing (p : PeerId) (r : Received) (x : Packet × PacketCalls) (s : Internals) :
    Prop where
  calls : x.2.Return
  key : ¬ MakesKey s x.2.now x.1
  port : x.1 = .streamJoin → (r.connected x.1 x.2).OnPort s.state
  other : ∀ msg, x.1 = .ping msg →
    Accepted (s.delivered p x.1) p msg x.2 (r.connected x.1 x.2) →
    stringDistance msg.nodeid ≠ stringDistance s.state.selfId

/-! ## The primitives -/

theorem returns_skCall {α : Type} {answer : Option α} (h : answer.isSome) :
    Returns (skCall answer) s := by
  obtain ⟨a, rfl⟩ := Option.isSome_iff_exists.mp h
  exact ⟨a, s, rfl⟩

theorem returns_skSend {returns : Bool} (h : returns = true) (p : PeerId) (packet : Packet) :
    Returns (skSend returns p packet) s := by
  subst h
  exact returns_modify _ s

theorem returns_updateState (f : P2PState → P2PState) : Returns (updateState f) s :=
  returns_modify _ s

theorem returns_tryState {f : P2PState → Except Fault P2PState} {t : P2PState}
    (h : f s.state = .ok t) : Returns (tryState f) s := ⟨(), _, tryState_run h⟩

theorem returns_verifySignature {nodeid message signature : String}
    (h : Library.validPublicKey nodeid = true) :
    Returns (verifySignature nodeid message signature) s := by
  unfold verifySignature
  rw [if_pos h]
  exact returns_pure _ s

/-! ## A `Ping` and a `Pong` -/

theorem returns_canResetExternalAddress (peerConnection currentConnection : IpAddress) :
    Returns (canResetExternalAddress peerConnection currentConnection) s := by
  unfold canResetExternalAddress isTheFirstConfiguredAddress
  refine Returns.get_bind ?_
  split
  · exact returns_pure _ s
  · refine Returns.get_bind ?_
    split
    · exact returns_pure _ s
    · split
      · exact (returns_modify _ s).bind fun _ t _ => returns_pure _ t
      · exact returns_pure _ s

theorem returns_authenticatePing {msg : Ping} {now : Int} (hk : ¬ MakesKey s now (.ping msg))
    {s' : Internals} : Returns (authenticatePing p msg now) s' := by
  unfold authenticatePing
  split
  · exact returns_pure _ s'
  · next hin =>
    split
    · next hsigned =>
      have hv : Library.validPublicKey msg.nodeid = true := by
        by_contra hv
        exact hk ⟨hin, hsigned, hv⟩
      refine (returns_verifySignature hv).bind fun b t _ => ?_
      cases b with
      | false => exact returns_pure _ t
      | true => exact (returns_updateState _).bind fun _ t' _ => returns_pure _ t'
    · exact Returns.get_bind (returns_pure _ s')

theorem returns_checkPing {msg : Ping} (hc : calls.Return)
    (hk : ¬ MakesKey s calls.now (.ping msg)) {s' : Internals} :
    Returns (checkPing p msg calls r) s' := by
  unfold checkPing
  refine (returns_skCall hc.infoConnection).bind fun _ s₁ _ => ?_
  refine Returns.get_bind ?_
  refine (returns_canResetExternalAddress _ _).bind fun canReset s₂ _ => ?_
  refine (returns_authenticatePing hk).bind fun b s₃ _ => ?_
  cases b with
  | false => exact returns_pure _ s₃
  | true =>
    change Returns (acceptExternalAddress msg _ canReset) s₃
    unfold acceptExternalAddress
    split
    · exact (returns_updateState _).bind fun _ t _ => returns_pure _ t
    · exact returns_pure _ s₃

theorem returns_receivePong {msg : Pong} (hc : calls.Return)
    (hk : ¬ MakesKey s calls.now (.pong msg)) : Returns (receivePong p msg calls) s := by
  have hcheck : Returns (checkPong p msg calls.now) s := by
    unfold checkPong
    refine Returns.get_bind ?_
    split
    · exact returns_pure _ s
    · next hother =>
      split
      · exact returns_pure _ s
      · next hin =>
        split
        · next hsigned =>
          refine returns_verifySignature ?_
          by_contra hv
          exact hk ⟨hother, hin, hsigned, hv⟩
        · exact Returns.get_bind (returns_pure _ s)
  unfold receivePong
  refine hcheck.bind fun b s₁ _ => ?_
  cases b with
  | false => exact returns_pure _ s₁
  | true => exact Returns.get_bind (returns_skSend (hc.send 0) _ _)

/-! ## The other packets -/

theorem returns_receiveJoin (hi : s.state.Indexed) (hf : s.state.PeerFound) (hc : calls.Return)
    (hport : r.OnPort s.state) : Returns (receiveJoin p calls r) s := by
  have hon : s.state.fixedLocalPort = 0 ∨
      r.currentConnection.local.port = s.state.fixedLocalPort := hport
  unfold receiveJoin
  refine Returns.get_bind ?_
  rw [if_pos hon]
  obtain ⟨t, hadd, hact⟩ := (hi.addActive r.currentConnection p).resolve_right fun h => h.2 hf
  refine (returns_tryState hadd).bind fun _ s₁ h₁ => ?_
  obtain ⟨-, rfl⟩ := EStateM.Result.ok.inj ((tryState_run hadd).symm.trans h₁)
  rw [hc.send 0]
  refine (returns_skSend rfl _ _).bind fun _ s₂ h₂ => ?_
  obtain ⟨-, rfl⟩ := EStateM.Result.ok.inj h₂
  refine (returns_updateState _).bind fun _ s₃ h₃ => ?_
  obtain ⟨-, rfl⟩ := EStateM.Result.ok.inj h₃
  refine (returns_updateState _).bind fun _ s₄ h₄ => ?_
  obtain ⟨-, rfl⟩ := EStateM.Result.ok.inj h₄
  have hlater := hact.indexed.removeLater p 10 true false
  have hfixed : P2PState.Same (t.removeLater p 10 true false)
      { t.removeLater p 10 true false with fixedLocalPort := r.currentConnection.local.port } :=
    P2PState.same_of_eq hlater.indexed rfl rfl rfl
  obtain ⟨t', hpassive, -⟩ := hfixed.indexed.addPassive { r.currentConnection with remote := .none }
  exact (returns_tryState hpassive).bind fun _ s₅ _ => returns_pure r s₅

theorem returns_receiveOpenFailed (hi : s.state.Indexed) (address : IpAddress)
    (packet : AppPacket) : Returns (receiveOpenFailed p address packet r) s := by
  unfold receiveOpenFailed
  refine Returns.bind ?_ fun _ t _ => returns_pure _ t
  unfold removeIfConfiguredAddress
  refine Returns.get_bind ?_
  split
  · obtain ⟨t, hrun, -⟩ := hi.removeLaterAddress address 0 false
    exact returns_tryState hrun
  · exact returns_pure _ s

theorem returns_receiveDrop (nodeid : String) : Returns (receiveDrop p nodeid r) s := by
  unfold receiveDrop
  refine (returns_updateState _).bind fun _ s₁ _ => ?_
  refine (returns_updateState _).bind fun _ s₂ _ => ?_
  split
  · exact (returns_updateState _).bind fun _ s₃ _ => returns_pure _ s₃
  · exact returns_pure _ s₂

theorem returns_receiveNodeDetails (hc : calls.Return) (nodeids : List String) :
    Returns (receiveNodeDetails p nodeids calls) s := by
  unfold receiveNodeDetails
  refine Returns.get_bind ((returns_updateState _).bind fun _ s₁ _ => ?_)
  exact returns_foldlM (fun _ (x : String × Nat) _ => returns_skSend (hc.send x.2) _ _) _ () s₁

theorem returns_receiveIntroduceTo (hc : calls.Return) (nodeid : String) :
    Returns (receiveIntroduceTo p nodeid calls r) s := by
  unfold receiveIntroduceTo
  refine Returns.get_bind ?_
  split
  · refine (returns_skCall hc.infoIntroduce).bind fun _ s₁ _ => ?_
    refine (returns_skSend (hc.send 0) _ _).bind fun _ s₂ _ => ?_
    exact returns_skSend (hc.send 1) _ _
  · exact returns_pure _ s

theorem returns_receiveOpenConnectionWith (hi : s.state.Indexed) (addr : IpAddress) :
    Returns (receiveOpenConnectionWith addr r) s := by
  unfold receiveOpenConnectionWith
  refine Returns.get_bind ?_
  split
  · obtain ⟨t, hrun, -⟩ :=
      hi.addPassiveAttempts { addr with «local» := r.currentConnection.local } 1000
    exact returns_tryState hrun
  · exact returns_pure _ s

theorem returns_receiveOther (nodeid contents : String) :
    Returns (receiveOther nodeid contents r) s := by
  unfold receiveOther
  split
  · exact (returns_updateState _).bind fun _ s₁ _ => returns_pure _ s₁
  · exact returns_pure _ s

/-! ## One packet -/

theorem Unfailing.ping {msg : Ping} (h : Unfailing p r (.ping msg, calls) s)
    (ho : Owned selfId s) : Returns (receivePacket p r (.ping msg, calls)) s := by
  have hreturns : Returns (checkPing p msg calls (r.connected (.ping msg) calls))
      (s.delivered p (.ping msg)) := returns_checkPing h.calls h.key
  obtain ⟨accepted, s₁, hcheck⟩ := hreturns
  cases accepted with
  | true =>
    have ha : Accepted (s.delivered p (.ping msg)) p msg calls (r.connected (.ping msg) calls) :=
      ⟨s₁, hcheck⟩
    have hne : stringDistance msg.nodeid ≠ stringDistance selfId := ho.name ▸ h.other msg rfl ha
    exact ((ho.registers ha (h.calls.send 0)).1 hne).run
  | false =>
    unfold Returns
    rw [receivePacket_run ho.indexed]
    exact ⟨_, s₁, bind_run_ok hcheck⟩

theorem Unfailing.returns {x : Packet × PacketCalls} (h : Unfailing p r x s)
    (ho : Owned selfId s) (hf : s.state.PeerFound) : Returns (receivePacket p r x) s := by
  have hi : (s.delivered p x.1).state.Indexed := ho.indexed
  have hrun := receivePacket_run ho.indexed p r x
  unfold Returns
  rw [hrun]
  obtain ⟨packet, calls⟩ := x
  have hc : calls.Return := h.calls
  cases packet with
  | streamJoin => exact returns_receiveJoin (s := s.delivered p .streamJoin) hi hf hc (h.port rfl)
  | streamDrop => exact returns_receiveDrop _
  | streamProtocolError buffer =>
    exact (returns_updateState _).bind fun _ t _ => returns_pure _ t
  | socketOpenRefused address => exact returns_receiveOpenFailed hi address _
  | socketOpenError address => exact returns_receiveOpenFailed hi address _
  | ping msg =>
    rw [← hrun]
    exact h.ping ho
  | pong msg =>
    exact (returns_receivePong (s := s.delivered p (.pong msg)) hc h.key).bind
      fun _ t _ => returns_pure _ t
  | findNode nodeid =>
    have hsend : Returns (receiveFindNode p calls) (s.delivered p (.findNode nodeid)) :=
      Returns.get_bind (returns_skSend (hc.send 0) _ _)
    exact hsend.bind fun _ t _ => returns_pure _ t
  | nodeDetails origin nodeids =>
    exact (returns_receiveNodeDetails hc nodeids).bind fun _ t _ => returns_pure _ t
  | introduceTo nodeid =>
    exact (returns_receiveIntroduceTo hc nodeid).bind fun _ t _ => returns_pure _ t
  | openConnectionWith addr =>
    exact (returns_receiveOpenConnectionWith hi addr).bind fun _ t _ => returns_pure _ t
  | other contents => exact returns_receiveOther _ contents
  | unknown => exact returns_pure _ _

end

end MeshPP.P2PSocket
