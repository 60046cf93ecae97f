import MeshPP.P2PSocket.P2PSocket
import MeshPP.P2PSocket.PeerView

/-! # What the packets do to the table of peers

Most of what `receive` does for a packet leaves the bucket and the active items
alone, whether it returns or throws (`calm`). -/

set_option linter.unusedSectionVars false

namespace MeshPP.P2PSocket
open MeshPP.Lib MeshPP.Kbucket

variable [Sha256] [EmptyDestination] [Library]

/-- The state changes by `R`, and nothing is noted or forgotten but in the trace. -/
structure Turn (R : P2PState → P2PState → Prop) (s s' : Internals) : Prop where
  state : s.state.Indexed → R s.state s'.state
  notify : s'.notifyRemovedPeers = s.notifyRemovedPeers
  trace : s.trace <+: s'.trace

/-- The bucket and the active items are as before. -/
abbrev Calm : Internals → Internals → Prop := Turn P2PState.Same

/-- Programs that leave the bucket and the active items alone. -/
def calm : Frame Internals where
  le := Calm
  refl _ := ⟨.refl, rfl, List.prefix_refl _⟩
  trans h h' := ⟨fun hi => (h.state hi).trans (h'.state (h.state hi).indexed),
    h'.notify.trans h.notify, h.trace.trans h'.trace⟩
  excused _ := True
  excused_of_le _ _ := trivial

section
variable {α β : Type} {s : Internals}

/-! ## The primitives -/

theorem calm_of_state {f : P2PState → P2PState}
    (hf : s.state.Indexed → P2PState.Same s.state (f s.state)) :
    Calm s { s with state := f s.state } := ⟨hf, rfl, List.prefix_refl _⟩

theorem calm_updateState {f : P2PState → P2PState}
    (hf : s.state.Indexed → P2PState.Same s.state (f s.state)) :
    Ends calm (updateState f) s fun _ s' => s' = { s with state := f s.state } :=
  ends_modify (calm_of_state hf) rfl

theorem ends_readState (F : Frame Internals) (hx : F.excused s) (f : P2PState → Except Fault α) :
    Ends F (readState f) s fun a s' => s' = s ∧ f s.state = .ok a := by
  unfold readState
  refine Ends.get_bind ?_
  split
  · next b hb => exact ends_pure ⟨rfl, hb⟩
  · exact ends_error rfl (F.refl _) hx

theorem tryState_run {f : P2PState → Except Fault P2PState} {t : P2PState}
    (h : f s.state = .ok t) : tryState f s = .ok () { s with state := t } := by
  unfold tryState readState
  simp only [bind_assoc, get_bind_run, h, pure_bind]
  rfl

theorem calm_tryState {f : P2PState → Except Fault P2PState}
    (hf : s.state.Indexed → ∃ t, f s.state = .ok t ∧ P2PState.Same s.state t) :
    Ends calm (tryState f) s fun _ s' => ∃ t, f s.state = .ok t ∧ s' = { s with state := t } := by
  refine (ends_readState calm trivial f).bind fun t s' hle h => ?_
  obtain ⟨rfl, ht⟩ := h
  refine (calm_updateState fun hi => ?_).mono fun _ s' _ h => ⟨t, ht, h⟩
  obtain ⟨t', ht', hsame⟩ := hf hi
  obtain rfl := Except.ok.inj (ht.symm.trans ht')
  exact hsame

theorem calm_record (event : SocketEvent) :
    Ends calm (record event) s fun _ s' => s' = { s with trace := s.trace ++ [event] } :=
  ends_modify ⟨.refl, rfl, List.prefix_append _ _⟩ rfl

theorem ends_skCall (F : Frame Internals) (hx : F.excused s) (answer : Option α) :
    Ends F (skCall answer) s fun a s' => s' = s ∧ answer = some a := by
  cases answer with
  | none => exact ends_error rfl (F.refl _) hx
  | some a => exact ends_pure ⟨rfl, rfl⟩

theorem calm_skSend (returns : Bool) (p : PeerId) (packet : Packet) :
    Ends calm (skSend returns p packet) s fun _ s' => s'.state = s.state := by
  cases returns with
  | false => exact ends_error rfl (calm.refl _) trivial
  | true => exact (calm_record _).mono fun _ s' _ h => by rw [h]

/-! ## The checks of a `Ping` -/

/-- The signature of a `Ping` is one of the node that it names. -/
def Ping.Signed (msg : Ping) : Prop :=
  msg.signature ≠ "" ∧ Library.validPublicKey msg.nodeid ∧
    Library.verifySignature msg.nodeid (stampedMessage msg.nodeid msg.stamp) msg.signature

/-- The connection is known, the stamp is in the window, and `verify_signature` accepts the
signature of the `Ping`. -/
def Ping.Verified (msg : Ping) (calls : PacketCalls) : Prop :=
  calls.infoConnection.isSome ∧ outdated msg.stamp calls.now = false ∧ msg.Signed

instance (msg : Ping) (calls : PacketCalls) : Decidable (msg.Verified calls) :=
  inferInstanceAs (Decidable (_ ∧ _ ∧ msg.signature ≠ "" ∧ _ ∧ _))

theorem ends_verifySignature (F : Frame Internals) (hx : F.excused s)
    (nodeid message signature : String) :
    Ends F (verifySignature nodeid message signature) s fun b s' => s' = s ∧
      (b → Library.validPublicKey nodeid ∧ Library.verifySignature nodeid message signature) := by
  unfold verifySignature
  split
  · next hv => exact ends_pure ⟨rfl, fun hb => ⟨hv, hb⟩⟩
  · exact ends_error rfl (F.refl _) hx

theorem calm_authenticatePing (p : PeerId) (msg : Ping) (now : Int) :
    Ends calm (authenticatePing p msg now) s fun b _ =>
      b → msg.signature ≠ "" → outdated msg.stamp now = false ∧ msg.Signed := by
  unfold authenticatePing
  split
  · exact ends_pure fun hb => nomatch hb
  · next hin =>
    split
    · next hne =>
      refine (ends_verifySignature calm trivial _ _ _).bind fun b s' _ h => ?_
      obtain ⟨rfl, hb⟩ := h
      cases b with
      | false => exact ends_pure fun hb => nomatch hb
      | true =>
        refine (calm_updateState fun hi => P2PState.same_of_eq hi rfl rfl rfl).bind
          fun _ _ _ _ => ends_pure fun _ _ => ⟨Bool.eq_false_iff.mpr hin, hne, hb rfl⟩
    · next heq =>
      exact Ends.get_bind (ends_pure fun _ hne => absurd hne heq)

theorem calm_isTheFirstConfiguredAddress (peerConnection item : IpAddress) :
    Ends calm (isTheFirstConfiguredAddress peerConnection item) s fun _ s' =>
      s'.state = s.state := by
  unfold isTheFirstConfiguredAddress
  refine Ends.get_bind ?_
  split
  · exact ends_pure rfl
  · split
    · have hcalm : Calm s { s with theFirstConnectToAddressFromSocket := peerConnection } :=
        ⟨.refl, rfl, List.prefix_refl _⟩
      exact Ends.bind (Q := fun _ t => t.state = s.state) (ends_modify hcalm rfl)
        fun _ _ _ h => ends_pure h
    · exact ends_pure rfl

theorem calm_canResetExternalAddress (peerConnection currentConnection : IpAddress) :
    Ends calm (canResetExternalAddress peerConnection currentConnection) s fun _ s' =>
      s'.state = s.state := by
  unfold canResetExternalAddress
  refine Ends.get_bind ?_
  split
  · exact ends_pure rfl
  · exact calm_isTheFirstConfiguredAddress _ _

theorem calm_acceptExternalAddress (msg : Ping) (stored : IpAddress) (canReset : Bool) :
    Ends calm (acceptExternalAddress msg stored canReset) s fun _ _ => True := by
  unfold acceptExternalAddress
  split
  · exact (calm_updateState fun hi => P2PState.same_of_eq hi rfl rfl rfl).bind
      fun _ _ _ _ => ends_pure trivial
  · exact ends_pure trivial

theorem calm_checkPing (p : PeerId) (msg : Ping) (calls : PacketCalls) (r : Received) :
    Ends calm (checkPing p msg calls r) s fun b _ =>
      b → msg.signature ≠ "" → msg.Verified calls := by
  unfold checkPing
  refine (ends_skCall calm trivial _).bind fun _ s₁ _ h₁ => ?_
  have hconnection : calls.infoConnection.isSome := by
    rw [h₁.2]
    rfl
  refine Ends.get_bind ?_
  refine (calm_canResetExternalAddress _ _).bind fun _ s₃ _ _ => ?_
  refine (calm_authenticatePing p msg calls.now).bind fun b s₄ _ hb => ?_
  cases b with
  | false => exact ends_pure fun h => nomatch h
  | true =>
    exact (calm_acceptExternalAddress _ _ _).mono fun _ _ _ _ _ hne => ⟨hconnection, hb rfl hne⟩

/-! ## The packets that leave the active items alone -/

theorem calm_foldlM {f : α → SocketM Unit} (hf : ∀ x s, Ends calm (f x) s fun _ _ => True)
    (l : List α) : Ends calm (l.foldlM (fun _ x => f x) ()) s fun _ _ => True :=
  ends_foldlM (fun _ _ _ => True) (fun x _ _ t _ _ => hf x t) l () s (calm.refl s) trivial

theorem calm_checkPong (p : PeerId) (msg : Pong) (now : Int) :
    Ends calm (checkPong p msg now) s fun _ _ => True := by
  unfold checkPong
  refine Ends.get_bind ?_
  split
  · exact ends_pure trivial
  · split
    · exact ends_pure trivial
    · split
      · exact (ends_verifySignature calm trivial _ _ _).mono fun _ _ _ _ => trivial
      · exact Ends.get_bind (ends_pure trivial)

theorem calm_receivePong (p : PeerId) (msg : Pong) (calls : PacketCalls) :
    Ends calm (receivePong p msg calls) s fun _ _ => True := by
  unfold receivePong
  refine (calm_checkPong p msg calls.now).bind fun b s₁ _ _ => ?_
  cases b with
  | false => exact ends_pure trivial
  | true => exact Ends.get_bind ((calm_skSend _ _ _).mono fun _ _ _ _ => trivial)

theorem calm_receiveFindNode (p : PeerId) (calls : PacketCalls) :
    Ends calm (receiveFindNode p calls) s fun _ _ => True :=
  Ends.get_bind ((calm_skSend _ _ _).mono fun _ _ _ _ => trivial)

theorem same_filterIntroduceCandidates {t : P2PState} (h : t.Indexed) (nodeids : List String) :
    P2PState.Same t (t.filterIntroduceCandidates nodeids).2 := by
  induction nodeids generalizing t with
  | nil => exact .refl h
  | cons nodeid rest ih =>
    have hone : P2PState.Same t (t.introduceCandidate nodeid).2 := by
      unfold P2PState.introduceCandidate
      split
      · exact .refl h
      · split
        · exact .refl h
        · split
          · exact .refl h
          · split
            · exact P2PState.same_of_eq h rfl rfl rfl
            · exact .refl h
    exact hone.trans (ih hone.indexed)

theorem calm_receiveNodeDetails (p : PeerId) (nodeids : List String) (calls : PacketCalls) :
    Ends calm (receiveNodeDetails p nodeids calls) s fun _ _ => True := by
  unfold receiveNodeDetails
  refine Ends.get_bind ?_
  refine (calm_updateState fun hi => same_filterIntroduceCandidates hi nodeids).bind
    fun _ s₁ _ _ => ?_
  exact calm_foldlM (fun x _ => (calm_skSend _ _ _).mono fun _ _ _ _ => trivial) _

theorem calm_receiveIntroduceTo (p : PeerId) (nodeid : String) (calls : PacketCalls)
    (r : Received) : Ends calm (receiveIntroduceTo p nodeid calls r) s fun _ _ => True := by
  unfold receiveIntroduceTo
  refine Ends.get_bind ?_
  split
  · refine (ends_skCall calm trivial _).bind fun _ _ _ _ => ?_
    refine (calm_skSend _ _ _).bind fun _ _ _ _ => ?_
    exact (calm_skSend _ _ _).mono fun _ _ _ _ => trivial
  · exact ends_pure trivial

theorem calm_receiveOpenConnectionWith (addr : IpAddress) (r : Received) :
    Ends calm (receiveOpenConnectionWith addr r) s fun _ _ => True := by
  unfold receiveOpenConnectionWith
  refine Ends.get_bind ?_
  split
  · exact (calm_tryState fun hi => hi.addPassiveAttempts _ _).mono fun _ _ _ _ => trivial
  · exact ends_pure trivial

theorem same_processNodeDrop {t : P2PState} (h : t.Indexed) (nodeid : String) :
    P2PState.Same t (t.processNodeDrop nodeid) := by
  unfold P2PState.processNodeDrop
  split
  · exact .refl h
  · split
    · exact P2PState.same_of_eq h rfl rfl rfl
    · split
      · exact P2PState.same_of_eq h rfl rfl rfl
      · exact .refl h

theorem same_processNodeJoin {t : P2PState} (h : t.Indexed) (nodeid : String) :
    P2PState.Same t (t.processNodeJoin nodeid) := by
  unfold P2PState.processNodeJoin
  split
  · exact .refl h
  · exact P2PState.same_of_eq h rfl rfl rfl

theorem calm_removeIfConfiguredAddress (item : IpAddress) :
    Ends calm (removeIfConfiguredAddress item) s fun _ _ => True := by
  unfold removeIfConfiguredAddress
  refine Ends.get_bind ?_
  split
  · exact (calm_tryState fun hi => hi.removeLaterAddress _ _ _).mono fun _ _ _ _ => trivial
  · exact ends_pure trivial

theorem calm_receiveOpenFailed (p : PeerId) (address : IpAddress) (packet : AppPacket)
    (r : Received) : Ends calm (receiveOpenFailed p address packet r) s fun r' _ =>
      r' = r.push ("p2p: " ++ p) packet :=
  (calm_removeIfConfiguredAddress address).bind fun _ _ _ _ => ends_pure rfl

theorem calm_receiveOther (nodeid contents : String) (r : Received) :
    Ends calm (receiveOther nodeid contents r) s fun r' _ =>
      r' = if nodeid ≠ "" then r.push nodeid (.extension contents)
        else { r with peer := nodeid } := by
  unfold receiveOther
  split
  · exact (calm_updateState fun hi => same_processNodeJoin hi nodeid).bind
      fun _ _ _ _ => ends_pure rfl
  · exact ends_pure rfl

end

/-- The packets that change the bucket or an active item. -/
def Packet.moves : Packet → Bool
  | .streamJoin | .streamDrop | .streamProtocolError _ | .ping _ => true
  | _ => false

/-- What `receive` returns for a packet that changes neither. -/
def Received.calmly (r : Received) (p : PeerId) (nodeid : String) : Packet → Received
  | .socketOpenRefused address => r.push ("p2p: " ++ p) (.socketOpenRefused address)
  | .socketOpenError address => r.push ("p2p: " ++ p) (.socketOpenError address)
  | .other contents =>
    if nodeid ≠ "" then r.push nodeid (.extension contents) else { r with peer := nodeid }
  | _ => r

theorem calm_receiveCase {s : Internals} {p : PeerId} {nodeid : String} {calls : PacketCalls}
    {r : Received} {packet : Packet} (h : packet.moves = false) :
    Ends calm (receiveCase p nodeid calls r packet) s fun r' _ =>
      r' = r.calmly p nodeid packet := by
  cases packet with
  | streamJoin => cases h
  | streamDrop => cases h
  | streamProtocolError buffer => cases h
  | ping msg => cases h
  | socketOpenRefused address => exact calm_receiveOpenFailed p address _ r
  | socketOpenError address => exact calm_receiveOpenFailed p address _ r
  | pong msg => exact (calm_receivePong p msg calls).bind fun _ _ _ _ => ends_pure rfl
  | findNode nodeid => exact (calm_receiveFindNode p calls).bind fun _ _ _ _ => ends_pure rfl
  | nodeDetails origin nodeids =>
    exact (calm_receiveNodeDetails p nodeids calls).bind fun _ _ _ _ => ends_pure rfl
  | introduceTo nodeid =>
    exact (calm_receiveIntroduceTo p nodeid calls r).bind fun _ _ _ _ => ends_pure rfl
  | openConnectionWith addr =>
    exact (calm_receiveOpenConnectionWith addr r).bind fun _ _ _ _ => ends_pure rfl
  | other contents => exact calm_receiveOther nodeid contents r
  | unknown => exact ends_pure rfl

end MeshPP.P2PSocket
