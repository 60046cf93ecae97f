import MeshPP.P2PSocket.Operations

/-! # What a node says

A node sends a packet in answer to one that it was given, because it is time to,
or because the application asks it to. Everything it says is under its own id,
and it passes on only the nodes it has a connection to. -/

set_option linter.unusedSectionVars false

namespace MeshPP.P2PSocket
open MeshPP.Lib MeshPP.Kbucket

section
variable [Sha256] [EmptyDestination] [Library]

/-! ## Programs that send -/

/-- Programs that send what is `allowed`, and leave the own id alone. -/
def utters (allowed : PeerId → Packet → Prop) : Frame Internals where
  le s s' := s'.state.selfId = s.state.selfId ∧
    ∃ new : List (PeerId × Packet), s'.trace = s.trace ++ new.map (fun x => .sent x.1 x.2) ∧
      ∀ x ∈ new, allowed x.1 x.2
  refl _ := ⟨rfl, [], by simp, by simp⟩
  trans := by
    rintro s t r ⟨hid, new, ht, hallowed⟩ ⟨hid', new', ht', hallowed'⟩
    refine ⟨hid'.trans hid, new ++ new', ?_, fun x hx => ?_⟩
    · rw [ht', ht, List.map_append, List.append_assoc]
    · exact (List.mem_append.mp hx).elim (hallowed x) (hallowed' x)
  excused _ := True
  excused_of_le _ _ := trivial

variable {s : Internals} {allowed : PeerId → Packet → Prop} {α : Type} {p : PeerId}
  {calls : PacketCalls} {r : Received}

theorem quiet_le {s s' : Internals} (hid : s'.state.selfId = s.state.selfId)
    (ht : s'.trace = s.trace) : (utters allowed).le s s' :=
  ⟨hid, [], by simp [ht], by simp⟩

theorem utters_updateState {f : P2PState → P2PState} (hf : (f s.state).selfId = s.state.selfId) :
    Ends (utters allowed) (updateState f) s fun _ _ => True :=
  ends_modify (quiet_le hf rfl) trivial

theorem utters_tryState {f : P2PState → Except Fault P2PState}
    (hf : ∀ t, f s.state = .ok t → t.selfId = s.state.selfId) :
    Ends (utters allowed) (tryState f) s fun _ _ => True := by
  refine (ends_readState (utters allowed) trivial f).bind fun t s' _ h => ?_
  obtain ⟨rfl, ht⟩ := h
  exact utters_updateState (hf t ht)

theorem utters_skSend {returns : Bool} {packet : Packet} (h : allowed p packet) :
    Ends (utters allowed) (skSend returns p packet) s fun _ s' => s'.state = s.state := by
  cases returns with
  | false => exact ends_error rfl ((utters allowed).refl _) trivial
  | true => exact ends_modify ⟨rfl, [(p, packet)], rfl, by simpa using h⟩ rfl

theorem utters_foldlM {f : α → SocketM Unit} {l : List α}
    (hf : ∀ x ∈ l, ∀ t, t.state.selfId = s.state.selfId → Ends (utters allowed) (f x) t fun _ _ => True) :
    Ends (utters allowed) (l.foldlM (fun _ x => f x) ()) s fun _ _ => True := by
  refine (ends_foldlM (fun rest _ _ => ∀ x ∈ rest, x ∈ l) (fun x rest _ t hle hrest => ?_) l () s
    ((utters allowed).refl s) fun _ h => h).mono fun _ _ _ _ => trivial
  exact (hf x (hrest x List.mem_cons_self) t hle.1).mono
    fun _ _ _ _ y hy => hrest y (List.mem_cons_of_mem _ hy)

/-! ## The own id -/

namespace P2PState
variable {t t' : P2PState} {addr : IpAddress}

theorem selfId_addPassive (h : t.addPassive addr = .ok t') : t'.selfId = t.selfId := by
  obtain ⟨r, -, h⟩ := ok_of_bind h
  cases h
  rfl

theorem selfId_addPassiveAttempts {openAttempts : Nat}
    (h : t.addPassiveAttempts addr openAttempts = .ok t') : t'.selfId = t.selfId := by
  obtain ⟨r, -, h⟩ := ok_of_bind h
  cases h
  rfl

theorem selfId_addActive {p : PeerId} (h : t.addActive addr p = .ok t') :
    t'.selfId = t.selfId := by
  obtain ⟨r, -, h⟩ := ok_of_bind h
  cases h
  rfl

theorem selfId_removeLaterAddress {step : Nat} {sendDrop onlyIfPassive mustNotify : Bool}
    (h : t.removeLaterAddress addr step sendDrop onlyIfPassive mustNotify = .ok t') :
    t'.selfId = t.selfId := by
  obtain ⟨r, -, h⟩ := ok_of_bind h
  cases h
  rfl

theorem selfId_setActiveNodeid {p : PeerId} {nodeid : String}
    (h : t.setActiveNodeid p nodeid = .ok t') : t'.selfId = t.selfId := by
  obtain ⟨r, -, h⟩ := ok_of_bind h
  cases h
  rfl

theorem selfId_removePending {ord : IterOrder} {r : (List (String × Bool) × List PeerId) × P2PState}
    (h : t.removePending ord = .ok r) : r.2.selfId = t.selfId := by
  obtain ⟨toRemove, -, h⟩ := ok_of_bind h
  cases h
  rfl

theorem selfId_processNodeDrop (nodeid : String) :
    (t.processNodeDrop nodeid).selfId = t.selfId := by
  unfold processNodeDrop
  split
  · rfl
  · split
    · rfl
    · split <;> rfl

theorem selfId_processNodeJoin (nodeid : String) :
    (t.processNodeJoin nodeid).selfId = t.selfId := by
  unfold processNodeJoin
  split <;> rfl

theorem introduceCandidate_kept (nodeid : String) :
    (t.introduceCandidate nodeid).2.selfId = t.selfId ∧
      (t.introduceCandidate nodeid).2.kbucket = t.kbucket := by
  unfold introduceCandidate
  split
  · exact ⟨rfl, rfl⟩
  · split
    · exact ⟨rfl, rfl⟩
    · split
      · exact ⟨rfl, rfl⟩
      · split <;> exact ⟨rfl, rfl⟩

/-- A node asks for another one that is not itself and that it has no connection to. -/
theorem introduceCandidate_wanted {nodeid : String} (h : (t.introduceCandidate nodeid).1 = true) :
    nodeid ≠ t.selfId ∧ t.getPeerId nodeid = none := by
  unfold introduceCandidate at h
  split at h
  · cases h
  · next hself =>
    split at h
    · cases h
    · next hfind =>
      refine ⟨hself, ?_⟩
      rw [getPeerId, Option.not_isSome_iff_eq_none.mp hfind]
      rfl

theorem filterIntroduceCandidates_kept (nodeids : List String) :
    (t.filterIntroduceCandidates nodeids).2.selfId = t.selfId ∧
      (t.filterIntroduceCandidates nodeids).2.kbucket = t.kbucket := by
  induction nodeids generalizing t with
  | nil => exact ⟨rfl, rfl⟩
  | cons nodeid rest ih =>
    obtain ⟨hid, hk⟩ := t.introduceCandidate_kept nodeid
    exact ⟨ih.1.trans hid, ih.2.trans hk⟩

theorem filterIntroduceCandidates_wanted {nodeids : List String} {nodeid : String}
    (h : nodeid ∈ (t.filterIntroduceCandidates nodeids).1) :
    nodeid ∈ nodeids ∧ nodeid ≠ t.selfId ∧ t.getPeerId nodeid = none := by
  induction nodeids generalizing t with
  | nil => cases h
  | cons candidate rest ih =>
    obtain ⟨hid, hk⟩ := t.introduceCandidate_kept candidate
    have hrest : nodeid ∈ ((t.introduceCandidate candidate).2.filterIntroduceCandidates rest).1 →
        nodeid ∈ candidate :: rest ∧ nodeid ≠ t.selfId ∧ t.getPeerId nodeid = none := by
      intro hmem
      obtain ⟨hin, hself, hpeer⟩ := ih hmem
      refine ⟨List.mem_cons_of_mem _ hin, hid ▸ hself, ?_⟩
      rw [getPeerId, hk] at hpeer
      exact hpeer
    unfold filterIntroduceCandidates at h
    dsimp only at h
    split at h
    · next hwanted =>
      rcases List.mem_cons.mp h with rfl | h
      · exact ⟨List.mem_cons_self, introduceCandidate_wanted hwanted⟩
      · exact hrest h
    · exact hrest h

end P2PState

/-! ## Answers -/

/-- What a node in the state `t` answers to a packet of `p`, and to whom. -/
inductive Replies (t : P2PState) (p : PeerId) : Packet → PeerId → Packet → Prop
  | ping (stamp : Int) (connection : IpAddress) :
    Replies t p .streamJoin p (signedPing t.selfId stamp connection)
  | pong (msg : Ping) (stamp : Int) (signature : String) :
    signature = "" ∨ signature = Library.sign (stampedMessage t.selfId stamp) →
    Replies t p (.ping msg) p (.pong ⟨t.selfId, stamp, signature⟩)
  | findNode (msg : Pong) : Replies t p (.pong msg) p (.findNode t.selfId)
  | nodeDetails (nodeid : String) :
    Replies t p (.findNode nodeid) p (.nodeDetails t.selfId t.getKbucketNodeids)
  | introduceTo {origin nodeid : String} {nodeids : List String} : nodeid ∈ nodeids →
    nodeid ≠ t.selfId → t.getPeerId nodeid = none →
    Replies t p (.nodeDetails origin nodeids) p (.introduceTo nodeid)
  | openConnectionWith {nodeid : String} {q : PeerId} (addr : IpAddress) :
    t.getPeerId nodeid = some q → Replies t p (.introduceTo nodeid) p (.openConnectionWith addr)
  | introduced {nodeid : String} {q : PeerId} (addr : IpAddress) :
    t.getPeerId nodeid = some q → Replies t p (.introduceTo nodeid) q (.openConnectionWith addr)

theorem utters_receiveJoin :
    Ends (utters (Replies s.state p .streamJoin)) (receiveJoin p calls r) s fun _ _ => True := by
  unfold receiveJoin
  refine Ends.get_bind ?_
  split
  · refine (utters_tryState fun t ht => P2PState.selfId_addActive ht).bind fun _ s₁ h₁ _ => ?_
    refine (utters_skSend (.ping _ _)).bind fun _ s₂ h₂ _ => ?_
    refine (utters_updateState rfl).bind fun _ s₃ h₃ _ => ?_
    refine (utters_updateState rfl).bind fun _ s₄ h₄ _ => ?_
    refine (utters_tryState fun t ht => P2PState.selfId_addPassive ht).bind fun _ s₅ h₅ _ => ?_
    exact ends_pure trivial
  · exact ends_error rfl ((utters _).refl _) trivial

theorem utters_checkPing (msg : Ping) :
    Ends (utters allowed) (checkPing p msg calls r) s fun _ _ => True := by
  unfold checkPing
  refine (ends_skCall (utters allowed) trivial _).bind fun _ s₁ _ _ => ?_
  refine Ends.get_bind ?_
  refine Ends.bind (Q := fun _ _ => True) ?_ fun canReset s₂ _ _ => ?_
  · unfold canResetExternalAddress isTheFirstConfiguredAddress
    refine Ends.get_bind ?_
    split
    · exact ends_pure trivial
    · refine Ends.get_bind ?_
      split
      · exact ends_pure trivial
      · split
        · exact Ends.bind (Q := fun _ _ => True) (ends_modify (quiet_le rfl rfl) trivial)
            fun _ _ _ _ => ends_pure trivial
        · exact ends_pure trivial
  refine Ends.bind (Q := fun _ _ => True) ?_ fun b s₃ _ _ => ?_
  · unfold authenticatePing
    split
    · exact ends_pure trivial
    · split
      · refine (ends_verifySignature (utters allowed) trivial _ _ _).bind fun b s₃ _ _ => ?_
        cases b with
        | false => exact ends_pure trivial
        | true => exact (utters_updateState rfl).bind fun _ _ _ _ => ends_pure trivial
      · exact Ends.get_bind (ends_pure trivial)
  cases b with
  | false => exact ends_pure trivial
  | true =>
    change Ends (utters allowed) (acceptExternalAddress msg _ canReset) s₃ _
    unfold acceptExternalAddress
    split
    · exact (utters_updateState rfl).bind fun _ _ _ _ => ends_pure trivial
    · exact ends_pure trivial

theorem utters_registerPing {t : P2PState} (ht : s.state.selfId = t.selfId) (msg : Ping) :
    Ends (utters (Replies t p (.ping msg))) (registerPing p msg calls r) s fun _ _ => True := by
  unfold registerPing
  refine Ends.bind (Q := fun _ _ => True) ?_ fun status s₁ h₁ _ => ?_
  · unfold addContact
    refine Ends.get_bind ?_
    split
    · next status t' hadd =>
      have hid : t'.selfId = s.state.selfId := by
        rcases s.state.addContact_cases p msg.nodeid with ⟨status, b, -, hrun⟩ | ⟨-, what, -, hrun⟩
        · obtain ⟨-, rfl⟩ := Prod.mk.inj (Except.ok.inj (hadd.symm.trans hrun))
          rfl
        · cases hadd.symm.trans hrun
      exact (utters_updateState hid).bind fun _ _ _ _ => ends_pure trivial
    · exact ends_error rfl ((utters _).refl _) trivial
  refine Ends.get_bind ?_
  rw [h₁.1, ht]
  have hsignature : ∀ stamped : String, (if msg.signature ≠ "" then Library.sign stamped else "") = "" ∨
      (if msg.signature ≠ "" then Library.sign stamped else "") = Library.sign stamped := by
    intro stamped
    split
    · exact .inr rfl
    · exact .inl rfl
  refine (utters_skSend (.pong _ _ _ (hsignature _))).bind fun _ s₂ _ _ => ?_
  split
  · refine (utters_updateState rfl).bind fun _ s₃ _ _ => ?_
    exact (utters_tryState fun t ht => P2PState.selfId_setActiveNodeid ht).bind
      fun _ _ _ _ => ends_pure trivial
  · exact (utters_updateState (P2PState.selfId_processNodeDrop _)).bind
      fun _ _ _ _ => ends_pure trivial

theorem utters_receivePing (msg : Ping) :
    Ends (utters (Replies s.state p (.ping msg))) (receivePing p msg calls r) s
      fun _ _ => True := by
  refine (utters_checkPing msg).bind fun b s₁ h₁ _ => ?_
  cases b with
  | false => exact ends_pure trivial
  | true => exact utters_registerPing h₁.1 msg

theorem utters_receivePong (msg : Pong) :
    Ends (utters (Replies s.state p (.pong msg))) (receivePong p msg calls) s fun _ _ => True := by
  unfold receivePong
  refine Ends.bind (Q := fun _ _ => True) ?_ fun b s₁ h₁ _ => ?_
  · unfold checkPong
    refine Ends.get_bind ?_
    split
    · exact ends_pure trivial
    · split
      · exact ends_pure trivial
      · split
        · exact (ends_verifySignature (utters _) trivial _ _ _).mono fun _ _ _ _ => trivial
        · exact Ends.get_bind (ends_pure trivial)
  cases b with
  | false => exact ends_pure trivial
  | true =>
    refine Ends.get_bind ?_
    rw [h₁.1]
    exact (utters_skSend (.findNode msg)).mono fun _ _ _ _ => trivial

theorem utters_receiveNodeDetails (origin : String) (nodeids : List String) :
    Ends (utters (Replies s.state p (.nodeDetails origin nodeids)))
      (receiveNodeDetails p nodeids calls) s fun _ _ => True := by
  unfold receiveNodeDetails
  refine Ends.get_bind ?_
  refine (utters_updateState (P2PState.filterIntroduceCandidates_kept nodeids).1).bind
    fun _ s₁ _ _ => utters_foldlM fun x hx s₂ _ => ?_
  obtain ⟨hin, hself, hpeer⟩ := P2PState.filterIntroduceCandidates_wanted (List.fst_mem_of_mem_zipIdx hx)
  exact (utters_skSend (.introduceTo hin hself hpeer)).mono fun _ _ _ _ => trivial

theorem utters_receiveIntroduceTo (nodeid : String) :
    Ends (utters (Replies s.state p (.introduceTo nodeid)))
      (receiveIntroduceTo p nodeid calls r) s fun _ _ => True := by
  unfold receiveIntroduceTo
  refine Ends.get_bind ?_
  split
  · next q hq =>
    refine (ends_skCall (utters _) trivial _).bind fun addr s₁ _ _ => ?_
    refine (utters_skSend (.openConnectionWith addr hq)).bind fun _ s₂ _ _ => ?_
    exact (utters_skSend (.introduced _ hq)).mono fun _ _ _ _ => trivial
  · exact ends_pure trivial

theorem utters_removeIfConfiguredAddress (item : IpAddress) :
    Ends (utters allowed) (removeIfConfiguredAddress item) s fun _ _ => True := by
  unfold removeIfConfiguredAddress
  refine Ends.get_bind ?_
  split
  · exact utters_tryState fun t ht => P2PState.selfId_removeLaterAddress ht
  · exact ends_pure trivial

/-- One packet, whether it is handled or throws. -/
theorem utters_receiveCase (nodeid : String) (packet : Packet) :
    Ends (utters (Replies s.state p packet)) (receiveCase p nodeid calls r packet) s
      fun _ _ => True := by
  cases packet with
  | streamJoin => exact utters_receiveJoin
  | streamProtocolError buffer =>
    refine (utters_updateState rfl).bind fun _ _ _ _ => ?_
    split <;> exact ends_pure trivial
  | socketOpenRefused address =>
    exact (utters_removeIfConfiguredAddress address).bind fun _ _ _ _ => ends_pure trivial
  | socketOpenError address =>
    exact (utters_removeIfConfiguredAddress address).bind fun _ _ _ _ => ends_pure trivial
  | streamDrop =>
    refine (utters_updateState rfl).bind fun _ _ _ _ => ?_
    refine (utters_updateState rfl).bind fun _ _ _ _ => ?_
    split
    · exact (utters_updateState (P2PState.selfId_processNodeDrop _)).bind
        fun _ _ _ _ => ends_pure trivial
    · exact ends_pure trivial
  | ping msg => exact utters_receivePing msg
  | pong msg => exact (utters_receivePong msg).bind fun _ _ _ _ => ends_pure trivial
  | findNode name =>
    refine Ends.bind (Q := fun _ _ => True) (Ends.get_bind ?_) fun _ _ _ _ => ends_pure trivial
    exact (utters_skSend (.nodeDetails name)).mono fun _ _ _ _ => trivial
  | nodeDetails origin nodeids =>
    exact (utters_receiveNodeDetails origin nodeids).bind fun _ _ _ _ => ends_pure trivial
  | introduceTo name =>
    exact (utters_receiveIntroduceTo name).bind fun _ _ _ _ => ends_pure trivial
  | openConnectionWith addr =>
    refine Ends.bind (Q := fun _ _ => True) (Ends.get_bind ?_) fun _ _ _ _ => ends_pure trivial
    split
    · exact utters_tryState fun t ht => P2PState.selfId_addPassiveAttempts ht
    · exact ends_pure trivial
  | other contents =>
    change Ends _ (receiveOther nodeid contents r) s _
    unfold receiveOther
    split
    · exact (utters_updateState (P2PState.selfId_processNodeJoin _)).bind
        fun _ _ _ _ => ends_pure trivial
    · exact ends_pure trivial
  | unknown => exact ends_pure trivial

/-- What was delivered comes first, and then what is sent in answer to it. -/
theorem utters_receivePacket (hi : s.state.Indexed) (p : PeerId) (r : Received)
    (x : Packet × PacketCalls) :
    Leaves (receivePacket p r x) s
      (fun _ => (utters (Replies s.state p x.1)).le (s.delivered p x.1))
      ((utters (Replies s.state p x.1)).le (s.delivered p x.1)) := by
  rw [Leaves, receivePacket_run hi]
  exact (utters_receiveCase (s := s.delivered p x.1) _ x.1).leaves.mono (fun _ _ h => h.1)
    fun _ h => h

/-! ## The other operations -/

theorem utters_timerAction (calls : TimerCalls) :
    Ends (utters fun _ packet => ∃ stamp connection,
      packet = .ping ⟨s.state.selfId, stamp, "", connection⟩) (timerAction calls) s
      fun _ _ => True := by
  unfold timerAction
  refine (ends_skCall (utters _) trivial _).bind fun _ s₁ h₁ _ => ?_
  refine (utters_updateState rfl).bind fun _ s₂ h₂ _ => ?_
  refine (ends_readState (utters _) trivial _).bind fun connected s₃ h₃ _ => ?_
  refine utters_foldlM fun p _ s₄ h₄ => ?_
  refine (ends_skCall (utters _) trivial _).bind fun connection s₅ h₅ _ => ?_
  refine Ends.get_bind ?_
  rw [h₅.1, h₄, h₃.1, h₂.1, h₁.1]
  exact (utters_skSend ⟨_, _, rfl⟩).mono fun _ _ _ _ => trivial

theorem utters_addConfigured : Ends (utters allowed) addConfigured s fun _ _ => True :=
  Ends.get_bind (utters_foldlM fun _ _ _ _ =>
    utters_tryState fun _ ht => P2PState.selfId_addPassive ht)

theorem utters_reconnect (toConnect : List IpAddress) (calls : WaitCalls) :
    Ends (utters allowed) (reconnect calls toConnect) s fun _ _ => True := by
  have hlast : ∀ s₁, Ends (utters allowed)
      (if calls.reconnectTimerExpired then addConfigured else pure ()) s₁ fun _ _ => True := by
    intro s₁
    split
    · exact utters_addConfigured
    · exact ends_pure trivial
  have hpure : ∀ s₁, Ends (utters allowed) ((pure () : SocketM Unit) >>= fun _ =>
      if calls.reconnectTimerExpired then addConfigured else pure ()) s₁ fun _ _ => True :=
    fun s₁ => (ends_pure (Q := fun _ _ => True) trivial).bind fun _ s₂ _ _ => hlast s₂
  unfold reconnect
  by_cases hempty : toConnect.isEmpty = true
  · rw [if_pos hempty]
    refine (ends_readState (utters allowed) trivial _).bind fun connected s₁ _ _ => ?_
    by_cases hall : (connected.isEmpty && calls.connectTimerExpired) = true
    · rw [if_pos hall]
      exact utters_addConfigured.bind fun _ s₂ _ _ => hlast s₂
    · rw [if_neg hall]
      exact hpure s₁
  · rw [if_neg hempty]
    exact hpure s

theorem utters_removePending (calls : WaitCalls) :
    Ends (utters fun _ packet => packet = .streamDrop) (removePending calls) s
      fun _ _ => True := by
  unfold removePending
  refine (ends_readState (utters _) trivial _).bind fun toRemove s₁ h₁ ht => ?_
  have hid : toRemove.2.selfId = s₁.state.selfId := by
    rw [ht.1]
    exact P2PState.selfId_removePending ht.2
  refine Ends.bind (Q := fun _ _ => True) (ends_modify (quiet_le hid rfl) trivial)
    fun _ s₂ _ _ => utters_foldlM fun p _ s₃ _ => ?_
  exact (utters_updateState rfl).bind fun _ _ _ _ =>
    (utters_skSend rfl).mono fun _ _ _ _ => trivial

theorem utters_listenOn (x : IpAddress × Nat) (calls : WaitCalls) :
    Ends (utters allowed) (listenOn calls x) s fun _ _ => True := by
  unfold listenOn
  refine Ends.get_bind ?_
  dsimp only
  split
  · exact ends_error rfl ((utters _).refl _) trivial
  · refine Ends.onFailure ?_ fun _ _ => utters_updateState rfl
    refine (ends_skCall (utters _) trivial _).bind fun peers s₄ _ _ => ?_
    refine utters_foldlM fun peer _ s₅ _ => ?_
    exact (ends_skCall (utters _) trivial _).bind fun connection _ _ _ =>
      utters_tryState fun t ht => P2PState.selfId_addActive ht

theorem utters_openTo (x : IpAddress × Nat) (calls : WaitCalls) :
    Ends (utters allowed) (openTo calls x) s fun _ _ => True := by
  unfold openTo
  refine Ends.bind (Q := fun _ _ => True) (Ends.onFailure ?_ fun s₁ _ => ?_) fun _ _ _ _ =>
    utters_updateState rfl
  · refine (ends_readState (utters _) trivial _).bind fun _ _ _ _ => ?_
    refine (ends_skCall (utters _) trivial _).bind fun _ _ _ _ => ?_
    exact utters_tryState fun t ht => P2PState.selfId_removeLaterAddress ht
  · exact (utters_removeIfConfiguredAddress x.1).bind fun _ _ _ _ => utters_updateState rfl

/-- All that `prepare_wait` sends is drops. -/
theorem utters_prepareWait (calls : WaitCalls) :
    Ends (utters fun _ packet => packet = .streamDrop) (prepareWait calls) s fun _ _ => True := by
  unfold prepareWait
  refine (utters_removePending calls).bind fun _ s₁ _ _ => ?_
  refine (ends_readState (utters _) trivial _).bind fun toListen s₂ _ _ => ?_
  refine (utters_foldlM fun x _ _ _ => utters_listenOn x calls).bind fun _ s₃ _ _ => ?_
  refine (ends_readState (utters _) trivial _).bind fun toConnect s₄ _ _ => ?_
  refine (utters_reconnect toConnect calls).bind fun _ s₅ _ _ => ?_
  refine (utters_foldlM fun x _ _ _ => utters_openTo x calls).bind fun _ s₆ _ _ => ?_
  exact (ends_skCall (utters _) trivial _).mono fun _ _ _ _ => trivial

theorem utters_send (peer : String) (pack : SendPacket) (returns : Bool) :
    Ends (utters fun p packet => s.state.getPeerId peer = some p ∧
      ∃ contents, pack = .extension contents ∧ packet = .other contents)
      (send peer pack returns) s fun _ _ => True := by
  unfold send
  refine Ends.get_bind ?_
  split
  · exact ends_error rfl ((utters _).refl _) trivial
  · next p hp =>
    cases pack with
    | streamDrop => exact utters_updateState rfl
    | extension contents =>
      exact (utters_skSend ⟨hp, contents, rfl, rfl⟩).mono fun _ _ _ _ => trivial

end

end MeshPP.P2PSocket
