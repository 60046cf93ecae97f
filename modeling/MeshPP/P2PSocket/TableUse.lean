import MeshPP.P2PSocket.Operations
import MeshPP.P2PSocket.Schedule

/-! # What a node asks of its table

A node changes its table of peers by operations of the table alone. A packet can
have only its own peer made active or scheduled, `timer_action` counts the
schedule down, and `prepare_wait` begins with what is due. An invariant of the
table that bears what a program asks for holds when the program ends, and the
table behind a run of the node is that of a run of the table. -/

set_option linter.unusedSectionVars false

namespace MeshPP.P2PSocket
open MeshPP.Lib MeshPP.Kbucket

section
variable [Sha256] [EmptyDestination] [Library]

abbrev Internals.table (s : Internals) : CommunicationState PeerState String :=
  s.state.programState

/-- What a program asks for: who is made active, and who is to be removed in how many steps. -/
inductive Uses (joins : IpAddress → PeerId → Prop) (later : PeerId → Nat → Prop) :
    CommunicationOp PeerState → Prop
  | addPassive (addr : IpAddress) (value : PeerState) : Uses joins later (.addPassive addr value)
  | addActive {addr : IpAddress} {p : PeerId} : joins addr p →
    Uses joins later (.addActive addr p default)
  | setActiveValue (p : PeerId) (value : PeerState) : Uses joins later (.setActiveValue p value)
  | removeLater {p : PeerId} {step : Nat} (sendDrop mustNotify : Bool) : later p step →
    Uses joins later (.removeLater p step sendDrop mustNotify)
  | removeLaterAddress (addr : IpAddress) (step : Nat) (mustNotify : Bool) :
    Uses joins later (.removeLaterAddress addr step false true mustNotify)
  | removeFromTodoList (addr : IpAddress) : Uses joins later (.removeFromTodoList addr)

/-! ## What it changes -/

namespace CommunicationState
variable {t t' : CommunicationState PeerState String}

/-- The active items are as before, and so is what is noted for them. -/
structure Unmoved (t t' : CommunicationState PeerState String) : Prop where
  indexed : t'.Indexed
  peerId : t'.mapByPeerId = t.mapByPeerId
  items : ∀ (i : Nat) (item : StateItem PeerState), item.active →
    (t'.peers[i]? = some item ↔ t.peers[i]? = some item)
  remove : ∀ (i : Nat) (item : StateItem PeerState), t.peers[i]? = some item → item.active →
    t'.mapToRemove.lookup i = t.mapToRemove.lookup i

theorem Indexed.unmoved (h : t.Indexed) : Unmoved t t :=
  ⟨h, rfl, fun _ _ _ => .rfl, fun _ _ _ _ => rfl⟩

theorem Quiet.unmoved (h : Quiet t t') (hi : t'.Indexed) : Unmoved t t' :=
  ⟨hi, h.peerId, fun i item ha => ⟨fun hitem => h.only i item hitem ha,
    fun hitem => (h.kept i item hitem ha).1⟩, fun i item hitem ha => (h.kept i item hitem ha).2⟩

/-- What a program can do to the table with one operation. -/
inductive Change (joins : IpAddress → PeerId → Prop) (later : PeerId → Nat → Prop)
    (t t' : CommunicationState PeerState String) : Prop
  | unmoved : Unmoved t t' → Change joins later t t'
  | activated {addr : IpAddress} {q : PeerId} {value : PeerState} {index : Nat} :
    joins addr q → Activated t t' addr q value index → Change joins later t t'
  | revalued {index : Nat} {stored : StateItem PeerState} {value : PeerState} :
    t.peers[index]? = some stored → Revalued t t' index stored value → Change joins later t t'
  | scheduled {q : PeerId} {step : Nat} (sendDrop mustNotify : Bool) : later q step →
    t' = (t.removeLater q step sendDrop mustNotify).2 → Change joins later t t'

end CommunicationState

theorem Uses.change {joins : IpAddress → PeerId → Prop} {later : PeerId → Nat → Prop}
    {op : CommunicationOp PeerState} {t : CommunicationState PeerState String}
    (hop : Uses joins later op) (h : t.Indexed) : t.Change joins later (t.step op).2 := by
  cases hop with
  | addPassive addr value =>
    obtain ⟨code, t', index, hadd, hp⟩ := h.addPassive addr value
    rw [CommunicationState.step_ok (ok_bind hadd _)]
    exact .unmoved (hp.quiet.unmoved hp.indexed)
  | @addActive addr q hq =>
    obtain ⟨code, t', index, hadd, ha⟩ | ⟨hadd, -⟩ := h.addActive addr q default
    · rw [CommunicationState.step_ok (ok_bind hadd _)]
      exact .activated hq ha
    · rw [CommunicationState.step_error
        (show t.apply (.addActive addr q default) = .error .assertion by
          rw [CommunicationState.apply, hadd]
          rfl)]
      exact .unmoved h.unmoved
  | setActiveValue q value =>
    obtain ⟨-, hset⟩ | ⟨index, stored, t', -, hstored, hset, ht'⟩ := h.setActiveValue q value
    · rw [CommunicationState.step_ok (ok_bind hset _)]
      exact .unmoved h.unmoved
    · rw [CommunicationState.step_ok (ok_bind hset _)]
      exact .revalued hstored ht'
  | removeLater sendDrop mustNotify hq => exact .scheduled sendDrop mustNotify hq rfl
  | removeLaterAddress addr step mustNotify =>
    obtain ⟨b, t', hrun, hi, rfl | ⟨index, rfl, -, hpassive⟩⟩ :=
      h.removeLaterAddress addr step true mustNotify
    · rw [CommunicationState.step_ok (ok_bind hrun _)]
      exact .unmoved h.unmoved
    · rw [CommunicationState.step_ok (ok_bind hrun _)]
      obtain ⟨stored, hstored, hnone⟩ := hpassive rfl
      refine .unmoved ⟨hi, rfl, fun _ _ _ => .rfl, fun i item hitem ha => ?_⟩
      exact (UMap.lookup_insert _ _ _ _).trans
        (if_neg (CommunicationState.ne_of_active hitem ha hstored hnone))
  | removeFromTodoList addr =>
    obtain ⟨hpeers, -, hremove⟩ := t.removeFromTodoList_tables addr
    have hid : (t.removeFromTodoList addr).2.mapByPeerId = t.mapByPeerId := by
      unfold CommunicationState.removeFromTodoList
      split <;> rfl
    exact .unmoved ⟨h.removeFromTodoList addr, hid,
      fun i item _ => iff_of_eq (congrArg (·[i]? = some item) hpeers),
      fun i item _ _ => congrArg (AList.lookup i) hremove⟩

/-- Programs that change the table by operations of one kind. -/
def asking (P : CommunicationOp PeerState → Prop) : Frame Internals where
  le s s' := ∃ ops, (∀ op ∈ ops, P op) ∧ s'.table = final CommunicationState.step s.table ops
  refl _ := ⟨[], by simp, rfl⟩
  trans := by
    rintro s t r ⟨ops, hops, ht⟩ ⟨more, hmore, hr⟩
    refine ⟨ops ++ more, fun op hop => (List.mem_append.mp hop).elim (hops op) (hmore op), ?_⟩
    rw [hr, ht, final_append]
  excused _ := True
  excused_of_le _ _ := trivial

/-- Programs that ask for no more than `joins` and `later` have. -/
abbrev consults (joins : IpAddress → PeerId → Prop) (later : PeerId → Nat → Prop) :
    Frame Internals := asking (Uses joins later)

variable {s s' : Internals} {joins : IpAddress → PeerId → Prop} {later : PeerId → Nat → Prop}
  {P : CommunicationOp PeerState → Prop} {α : Type} {p : PeerId} {calls : PacketCalls}
  {r : Received}

theorem asking_same (h : s'.table = s.table) : (asking P).le s s' := ⟨[], by simp, h⟩

theorem asking_op {op : CommunicationOp PeerState} (hop : P op)
    (h : s'.table = (s.table.step op).2) : (asking P).le s s' :=
  ⟨[op], by simpa using hop, h⟩

/-! ## The operations of `p2pstate_ex` -/

namespace P2PState
variable {t t' : P2PState} {addr : IpAddress}

theorem table_addPassive (h : t.addPassive addr = .ok t') :
    t'.programState = (t.programState.step (.addPassive addr default)).2 := by
  obtain ⟨r, hr, h⟩ := ok_of_bind h
  cases h
  rw [CommunicationState.step_ok (ok_bind hr _)]

theorem table_addPassiveAttempts {openAttempts : Nat}
    (h : t.addPassiveAttempts addr openAttempts = .ok t') : t'.programState =
      (t.programState.step (.addPassive addr { (default : PeerState) with openAttempts })).2 := by
  obtain ⟨r, hr, h⟩ := ok_of_bind h
  cases h
  rw [CommunicationState.step_ok (ok_bind hr _)]

theorem table_addActive {p : PeerId} (h : t.addActive addr p = .ok t') :
    t'.programState = (t.programState.step (.addActive addr p default)).2 := by
  obtain ⟨r, hr, h⟩ := ok_of_bind h
  cases h
  rw [CommunicationState.step_ok (ok_bind hr _)]

theorem table_setActiveNodeid {p : PeerId} {nodeid : String}
    (h : t.setActiveNodeid p nodeid = .ok t') : t'.programState =
      (t.programState.step (.setActiveValue p { (default : PeerState) with nodeId := nodeid })).2 := by
  obtain ⟨r, hr, h⟩ := ok_of_bind h
  cases h
  rw [CommunicationState.step_ok (ok_bind hr _)]

theorem table_removeLaterAddress {step : Nat} {sendDrop onlyIfPassive mustNotify : Bool}
    (h : t.removeLaterAddress addr step sendDrop onlyIfPassive mustNotify = .ok t') :
    t'.programState =
      (t.programState.step (.removeLaterAddress addr step sendDrop onlyIfPassive mustNotify)).2 := by
  obtain ⟨r, hr, h⟩ := ok_of_bind h
  cases h
  rw [CommunicationState.step_ok (ok_bind hr _)]

theorem table_removePending {ord : IterOrder} {r : (List (String × Bool) × List PeerId) × P2PState}
    (h : t.removePending ord = .ok r) :
    r.2.programState = (t.programState.step (.removePending ord)).2 := by
  obtain ⟨toRemove, hrun, h⟩ := ok_of_bind h
  cases h
  rw [CommunicationState.step_ok (ok_bind hrun _)]
  rfl

theorem table_processNodeDrop (nodeid : String) :
    (t.processNodeDrop nodeid).programState = t.programState := by
  unfold processNodeDrop
  split
  · rfl
  · split
    · rfl
    · split <;> rfl

theorem table_processNodeJoin (nodeid : String) :
    (t.processNodeJoin nodeid).programState = t.programState := by
  unfold processNodeJoin
  split <;> rfl

theorem table_filterIntroduceCandidates (nodeids : List String) :
    (t.filterIntroduceCandidates nodeids).2.programState = t.programState := by
  induction nodeids generalizing t with
  | nil => rfl
  | cons nodeid rest ih =>
    refine (ih (t := (t.introduceCandidate nodeid).2)).trans ?_
    unfold introduceCandidate
    split
    · rfl
    · split
      · rfl
      · split
        · rfl
        · split <;> rfl

end P2PState

/-! ## Programs -/

theorem consults_updateState {f : P2PState → P2PState}
    (hf : (f s.state).programState = s.table) :
    Ends (consults joins later) (updateState f) s fun _ _ => True :=
  ends_modify (asking_same hf) trivial

theorem consults_tryState {f : P2PState → Except Fault P2PState} {op : CommunicationOp PeerState}
    (hop : Uses joins later op)
    (hf : ∀ t, f s.state = .ok t → t.programState = (s.table.step op).2) :
    Ends (consults joins later) (tryState f) s fun _ _ => True := by
  refine (ends_readState (consults joins later) trivial f).bind fun t s' _ h => ?_
  obtain ⟨rfl, ht⟩ := h
  exact ends_modify (asking_op hop (hf t ht)) trivial

theorem consults_skSend (returns : Bool) (q : PeerId) (packet : Packet) :
    Ends (consults joins later) (skSend returns q packet) s fun _ _ => True := by
  cases returns with
  | false => exact ends_error rfl ((consults joins later).refl _) trivial
  | true => exact ends_modify (asking_same rfl) trivial

theorem consults_foldlM {f : α → SocketM Unit} {l : List α}
    (hf : ∀ x ∈ l, ∀ t, Ends (consults joins later) (f x) t fun _ _ => True) :
    Ends (consults joins later) (l.foldlM (fun _ x => f x) ()) s fun _ _ => True := by
  refine (ends_foldlM (fun rest _ _ => ∀ x ∈ rest, x ∈ l) (fun x rest _ t _ hrest => ?_) l () s
    ((consults joins later).refl s) fun _ h => h).mono fun _ _ _ _ => trivial
  exact (hf x (hrest x List.mem_cons_self) t).mono
    fun _ _ _ _ y hy => hrest y (List.mem_cons_of_mem _ hy)

/-! ## One packet -/

/-- The packets for which `receive` schedules its peer to be removed at once. -/
def Packet.closing : Packet → Bool
  | .streamDrop | .streamProtocolError _ => true
  | _ => false

theorem consults_receiveJoin (hjoins : joins r.currentConnection p) (hlater : later p 10) :
    Ends (consults joins later) (receiveJoin p calls r) s fun _ _ => True := by
  unfold receiveJoin
  refine Ends.get_bind ?_
  split
  · refine (consults_tryState (.addActive hjoins) fun t ht =>
      P2PState.table_addActive ht).bind fun _ s₁ _ _ => ?_
    refine (consults_skSend _ _ _).bind fun _ s₂ _ _ => ?_
    refine Ends.bind (Q := fun _ _ => True) (ends_modify (asking_op
      (.removeLater true false hlater) rfl) trivial) fun _ s₃ _ _ => ?_
    refine (consults_updateState rfl).bind fun _ s₄ _ _ => ?_
    refine (consults_tryState (.addPassive _ _) fun t ht =>
      P2PState.table_addPassive ht).bind fun _ s₅ _ _ => ?_
    exact ends_pure trivial
  · exact ends_error rfl ((consults _ _).refl _) trivial

theorem consults_checkPing (msg : Ping) :
    Ends (consults joins later) (checkPing p msg calls r) s fun _ _ => True := by
  unfold checkPing
  refine (ends_skCall (consults joins later) trivial _).bind fun _ s₁ _ _ => ?_
  refine Ends.get_bind ?_
  refine Ends.bind (Q := fun _ _ => True) ?_ fun canReset s₂ _ _ => ?_
  · unfold canResetExternalAddress isTheFirstConfiguredAddress
    refine Ends.get_bind ?_
    split
    · exact ends_pure trivial
    · refine Ends.get_bind ?_
      split
      · exact ends_pure trivial
      · split
        · exact Ends.bind (Q := fun _ _ => True) (ends_modify (asking_same rfl) trivial)
            fun _ _ _ _ => ends_pure trivial
        · exact ends_pure trivial
  refine Ends.bind (Q := fun _ _ => True) ?_ fun b s₃ _ _ => ?_
  · unfold authenticatePing
    split
    · exact ends_pure trivial
    · split
      · refine (ends_verifySignature (consults joins later) trivial _ _ _).bind fun b s₃ _ _ => ?_
        cases b with
        | false => exact ends_pure trivial
        | true => exact (consults_updateState rfl).bind fun _ _ _ _ => ends_pure trivial
      · exact Ends.get_bind (ends_pure trivial)
  cases b with
  | false => exact ends_pure trivial
  | true =>
    change Ends (consults joins later) (acceptExternalAddress msg _ canReset) s₃ _
    unfold acceptExternalAddress
    split
    · exact (consults_updateState rfl).bind fun _ _ _ _ => ends_pure trivial
    · exact ends_pure trivial

theorem consults_registerPing (msg : Ping) (hlater : later p 10) :
    Ends (consults joins later) (registerPing p msg calls r) s fun _ _ => True := by
  unfold registerPing
  refine Ends.bind (Q := fun _ _ => True) ?_ fun status s₁ _ _ => ?_
  · unfold addContact
    refine Ends.get_bind ?_
    split
    · next status t' hadd =>
      have htable : t'.programState = s.table := by
        rcases s.state.addContact_cases p msg.nodeid with ⟨status, b, -, hrun⟩ | ⟨-, what, -, hrun⟩
        · obtain ⟨-, rfl⟩ := Prod.mk.inj (Except.ok.inj (hadd.symm.trans hrun))
          rfl
        · cases hadd.symm.trans hrun
      exact (consults_updateState htable).bind fun _ _ _ _ => ends_pure trivial
    · exact ends_error rfl ((consults _ _).refl _) trivial
  refine Ends.get_bind ?_
  refine (consults_skSend _ _ _).bind fun _ s₂ _ _ => ?_
  split
  · refine Ends.bind (Q := fun _ _ => True) (ends_modify (asking_op
      (.removeLater true true hlater) rfl) trivial) fun _ s₃ _ _ => ?_
    exact (consults_tryState (.setActiveValue _ _) fun t ht =>
      P2PState.table_setActiveNodeid ht).bind fun _ _ _ _ => ends_pure trivial
  · exact (consults_updateState (P2PState.table_processNodeDrop _)).bind
      fun _ _ _ _ => ends_pure trivial

theorem consults_receivePing (msg : Ping) (hlater : Accepted s p msg calls r → later p 10) :
    Ends (consults joins later) (receivePing p msg calls r) s fun _ _ => True := by
  refine (consults_checkPing msg).with_run.bind fun b s₁ _ h₁ => ?_
  cases b with
  | false => exact ends_pure trivial
  | true => exact consults_registerPing msg (hlater ⟨s₁, h₁.1⟩)

theorem consults_receivePong (msg : Pong) :
    Ends (consults joins later) (receivePong p msg calls) s fun _ _ => True := by
  unfold receivePong
  refine Ends.bind (Q := fun _ _ => True) ?_ fun b s₁ _ _ => ?_
  · unfold checkPong
    refine Ends.get_bind ?_
    split
    · exact ends_pure trivial
    · split
      · exact ends_pure trivial
      · split
        · exact (ends_verifySignature (consults _ _) trivial _ _ _).mono fun _ _ _ _ => trivial
        · exact Ends.get_bind (ends_pure trivial)
  cases b with
  | false => exact ends_pure trivial
  | true => exact Ends.get_bind (consults_skSend _ _ _)

theorem consults_removeIfConfiguredAddress (item : IpAddress) :
    Ends (consults joins later) (removeIfConfiguredAddress item) s fun _ _ => True := by
  unfold removeIfConfiguredAddress
  refine Ends.get_bind ?_
  split
  · exact consults_tryState (.removeLaterAddress _ _ _) fun t ht =>
      P2PState.table_removeLaterAddress ht
  · exact ends_pure trivial

theorem consults_receiveCase (nodeid : String) (packet : Packet)
    (hjoin : packet = .streamJoin → joins r.currentConnection p ∧ later p 10)
    (hping : ∀ msg, packet = .ping msg → Accepted s p msg calls r → later p 10)
    (hclose : packet.closing → later p 0) :
    Ends (consults joins later) (receiveCase p nodeid calls r packet) s fun _ _ => True := by
  cases packet with
  | streamJoin => exact consults_receiveJoin (hjoin rfl).1 (hjoin rfl).2
  | streamProtocolError buffer =>
    refine Ends.bind (Q := fun _ _ => True) (ends_modify (asking_op
      (.removeLater true false (hclose rfl)) rfl) trivial) fun _ _ _ _ => ?_
    split <;> exact ends_pure trivial
  | socketOpenRefused address =>
    exact (consults_removeIfConfiguredAddress address).bind fun _ _ _ _ => ends_pure trivial
  | socketOpenError address =>
    exact (consults_removeIfConfiguredAddress address).bind fun _ _ _ _ => ends_pure trivial
  | streamDrop =>
    refine (consults_updateState rfl).bind fun _ _ _ _ => ?_
    refine Ends.bind (Q := fun _ _ => True) (ends_modify (asking_op
      (.removeLater false false (hclose rfl)) rfl) trivial) fun _ _ _ _ => ?_
    split
    · exact (consults_updateState (P2PState.table_processNodeDrop _)).bind
        fun _ _ _ _ => ends_pure trivial
    · exact ends_pure trivial
  | ping msg => exact consults_receivePing msg (hping msg rfl)
  | pong msg => exact (consults_receivePong msg).bind fun _ _ _ _ => ends_pure trivial
  | findNode name =>
    exact Ends.bind (Q := fun _ _ => True) (Ends.get_bind (consults_skSend _ _ _))
      fun _ _ _ _ => ends_pure trivial
  | nodeDetails origin nodeids =>
    refine Ends.bind (Q := fun _ _ => True) (Ends.get_bind ?_) fun _ _ _ _ => ends_pure trivial
    exact (consults_updateState (P2PState.table_filterIntroduceCandidates nodeids)).bind
      fun _ _ _ _ => consults_foldlM fun _ _ _ => consults_skSend _ _ _
  | introduceTo name =>
    refine Ends.bind (Q := fun _ _ => True) (Ends.get_bind ?_) fun _ _ _ _ => ends_pure trivial
    split
    · refine (ends_skCall (consults _ _) trivial _).bind fun _ _ _ _ => ?_
      exact (consults_skSend _ _ _).bind fun _ _ _ _ => consults_skSend _ _ _
    · exact ends_pure trivial
  | openConnectionWith addr =>
    refine Ends.bind (Q := fun _ _ => True) (Ends.get_bind ?_) fun _ _ _ _ => ends_pure trivial
    split
    · exact consults_tryState (.addPassive _ _) fun t ht => P2PState.table_addPassiveAttempts ht
    · exact ends_pure trivial
  | other contents =>
    change Ends _ (receiveOther nodeid contents r) s _
    unfold receiveOther
    split
    · exact (consults_updateState (P2PState.table_processNodeJoin _)).bind
        fun _ _ _ _ => ends_pure trivial
    · exact ends_pure trivial
  | unknown => exact ends_pure trivial

/-! ## The other operations -/

theorem consults_dropRemoved (calls : WaitCalls) (q : PeerId) :
    Ends (consults joins later) (dropRemoved calls q) s fun _ _ => True :=
  (consults_updateState rfl).bind fun _ _ _ _ => consults_skSend _ _ _

theorem consults_addConfigured : Ends (consults joins later) addConfigured s fun _ _ => True :=
  Ends.get_bind (consults_foldlM fun _ _ _ =>
    consults_tryState (.addPassive _ _) fun _ ht => P2PState.table_addPassive ht)

theorem consults_reconnect (toConnect : List IpAddress) (calls : WaitCalls) :
    Ends (consults joins later) (reconnect calls toConnect) s fun _ _ => True := by
  have hlast : ∀ s₁, Ends (consults joins later)
      (if calls.reconnectTimerExpired then addConfigured else pure ()) s₁ fun _ _ => True := by
    intro s₁
    split
    · exact consults_addConfigured
    · exact ends_pure trivial
  have hpure : ∀ s₁, Ends (consults joins later) ((pure () : SocketM Unit) >>= fun _ =>
      if calls.reconnectTimerExpired then addConfigured else pure ()) s₁ fun _ _ => True :=
    fun s₁ => (ends_pure (Q := fun _ _ => True) trivial).bind fun _ s₂ _ _ => hlast s₂
  unfold reconnect
  by_cases hempty : toConnect.isEmpty = true
  · rw [if_pos hempty]
    refine (ends_readState (consults joins later) trivial _).bind fun connected s₁ _ _ => ?_
    by_cases hall : (connected.isEmpty && calls.connectTimerExpired) = true
    · rw [if_pos hall]
      exact consults_addConfigured.bind fun _ s₂ _ _ => hlast s₂
    · rw [if_neg hall]
      exact hpure s₁
  · rw [if_neg hempty]
    exact hpure s

/-- Who is listened to is made active. -/
theorem consults_listenOn (calls : WaitCalls) (x : IpAddress × Nat)
    (hjoins : ∀ peers, calls.listen x.2 = some peers → ∀ peer ∈ peers, ∀ connection,
      peer.2 = some connection → joins connection peer.1) :
    Ends (consults joins later) (listenOn calls x) s fun _ _ => True := by
  unfold listenOn
  refine Ends.get_bind ?_
  dsimp only
  split
  · exact ends_error rfl ((consults _ _).refl _) trivial
  · refine Ends.onFailure ?_ fun s₁ _ => ends_modify (asking_op (.removeFromTodoList _) rfl) trivial
    refine (ends_skCall (consults _ _) trivial _).bind fun peers s₂ _ h => ?_
    refine consults_foldlM fun peer hpeer s₃ => ?_
    refine (ends_skCall (consults _ _) trivial _).bind fun connection s₄ _ hc => ?_
    exact consults_tryState (.addActive (hjoins peers h.2 peer hpeer connection hc.2)) fun t ht =>
      P2PState.table_addActive ht

theorem consults_openTo (calls : WaitCalls) (x : IpAddress × Nat) :
    Ends (consults joins later) (openTo calls x) s fun _ _ => True := by
  have hremove : ∀ s₁, Ends (consults joins later)
      (updateState fun t => t.removeFromTodoList x.1) s₁ fun _ _ => True := fun s₁ =>
    ends_modify (asking_op (.removeFromTodoList x.1) rfl) trivial
  unfold openTo
  refine Ends.bind (Q := fun _ _ => True) (Ends.onFailure ?_ fun s₁ _ => ?_) fun _ s₁ _ _ =>
    hremove s₁
  · refine (ends_readState (consults _ _) trivial _).bind fun _ _ _ _ => ?_
    refine (ends_skCall (consults _ _) trivial _).bind fun _ _ _ _ => ?_
    exact consults_tryState (.removeLaterAddress _ _ _) fun t ht =>
      P2PState.table_removeLaterAddress ht
  · exact (consults_removeIfConfiguredAddress x.1).bind fun _ s₂ _ _ => hremove s₂

/-! ## What `prepare_wait` is made of -/

theorem readState_run {f : P2PState → Except Fault α} {a : α} (h : f s.state = .ok a) :
    readState f s = .ok a s := by
  unfold readState
  rw [get_bind_run, h]
  rfl

/-- `remove_pending` has its effect before the first drop is sent. -/
theorem removePending_run (hi : s.state.Indexed) (calls : WaitCalls) :
    ∃ keys drops indices s₁, P2PState.Clears s.state s₁.state keys ∧
      CommunicationState.Removed s.table s₁.table keys drops indices ∧
      (∀ nodeid, (nodeid, true) ∈ keys → nodeid ∈ s₁.notifyRemovedPeers) ∧
      removePending calls s = drops.foldlM (fun _ q => dropRemoved calls q) () s₁ := by
  obtain ⟨keys, drops, table, indices, hrun, hr⟩ :=
    CommunicationState.Indexed.removePending hi calls.ord
  obtain ⟨keys', drops', t, hrun', hclears⟩ := hi.removePending calls.ord
  obtain ⟨hkeys, rfl⟩ := Prod.mk.inj (Except.ok.inj (hrun'.symm.trans (ok_bind hrun _)))
  obtain ⟨rfl, rfl⟩ := Prod.mk.inj hkeys
  let notify : USet String := ((keys'.filter Prod.snd).map Prod.fst).foldl
    (fun set key => set.insert key ()) s.notifyRemovedPeers
  refine ⟨_, _, indices, { s with state := _, notifyRemovedPeers := notify }, hclears, hr,
    fun nodeid hm => (mem_foldl_insert _ _ _).mpr (.inr (by simpa using hm)), ?_⟩
  unfold removePending
  rw [bind_run_ok (readState_run hrun')]
  rfl

/-- What `prepare_wait` does behind `remove_pending`. -/
def attend (calls : WaitCalls) : SocketM Unit := do
  let toListen ← readState fun t => t.programState.getToListen calls.ord
  toListen.zipIdx.foldlM (fun _ x => listenOn calls x) ()
  let toConnect ← readState fun t => t.programState.getToConnect calls.ord
  reconnect calls toConnect
  toConnect.zipIdx.foldlM (fun _ x => openTo calls x) ()
  skCall (if calls.prepareWait then some () else none)

theorem prepareWait_eq (calls : WaitCalls) :
    prepareWait calls = (do removePending calls; attend calls) := rfl

theorem ends_attend {F : Frame Internals} (hx : ∀ s, F.excused s) {calls : WaitCalls}
    (hlisten : ∀ x s, Ends F (listenOn calls x) s fun _ _ => True)
    (hreconnect : ∀ toConnect s, Ends F (reconnect calls toConnect) s fun _ _ => True)
    (hopen : ∀ x s, Ends F (openTo calls x) s fun _ _ => True) :
    Ends F (attend calls) s fun _ _ => True := by
  have hfold : ∀ {β : Type} {f : β → SocketM Unit} (l : List β) (s : Internals),
      (∀ x s, Ends F (f x) s fun _ _ => True) →
      Ends F (l.foldlM (fun _ x => f x) ()) s fun _ _ => True := fun l s hf =>
    (ends_foldlM (fun _ _ _ => True) (fun x _ _ t _ _ => hf x t) l () s (F.refl s) trivial).mono
      fun _ _ _ _ => trivial
  unfold attend
  refine (ends_readState F (hx _) _).bind fun toListen s₁ _ _ => ?_
  refine (hfold _ _ hlisten).bind fun _ s₂ _ _ => ?_
  refine (ends_readState F (hx _) _).bind fun toConnect s₃ _ _ => ?_
  refine (hreconnect _ _).bind fun _ s₄ _ _ => ?_
  refine (hfold _ _ hopen).bind fun _ s₅ _ _ => ?_
  exact (ends_skCall F (hx _) _).mono fun _ _ _ _ => trivial

/-! ## Invariants of the table -/

/-- `J` holds of tables that are in order, and bears what is asked for under `joins` and
`later`. -/
structure Borne (J : CommunicationState PeerState String → Prop)
    (joins : IpAddress → PeerId → Prop) (later : PeerId → Nat → Prop) : Prop where
  indexed : ∀ t, J t → t.Indexed
  uses : ∀ t op, J t → Uses joins later op → J (t.step op).2

/-- Whoever `listen` answers with is allowed to join. -/
def WaitCalls.Joins (calls : WaitCalls) (joins : IpAddress → PeerId → Prop) : Prop :=
  ∀ i peers, calls.listen i = some peers → ∀ peer ∈ peers, ∀ connection,
    peer.2 = some connection → joins connection peer.1

theorem leaves_tryState {f : P2PState → Except Fault P2PState} {Q : Unit → Internals → Prop}
    {E : Internals → Prop} (hok : ∀ t, f s.state = .ok t → Q () { s with state := t })
    (herror : E s) : Leaves (tryState f) s Q E := by
  cases hf : f s.state with
  | ok t => exact leaves_ok (tryState_run hf) (hok t hf)
  | error fault =>
    refine leaves_error (e := .fault fault) ?_ herror
    unfold tryState readState
    simp only [bind_assoc, get_bind_run, hf]
    rfl

/-- What every packet keeps of the table, `receive` keeps. -/
theorem leaves_receive {J : CommunicationState PeerState String → Prop}
    {C : PeerId → Received → Packet × PacketCalls → Internals → Prop} {ord : IterOrder}
    {peer : PeerId} {batch : Option (PeerId × List (Packet × PacketCalls))}
    (h : J s.table) (hc : ReceiveMeets C ord peer batch s)
    (hstep : ∀ q r x s, C q r x s → J s.table →
      Leaves (receivePacket q r x) s (fun _ s' => J s'.table) fun s' => J s'.table) :
    Leaves (receive ord peer batch) s (fun _ s' => J s'.table) fun s' => J s'.table := by
  unfold receive
  refine Leaves.get_bind ?_
  cases hkeys : ord.order s.notifyRemovedPeers.keys with
  | cons removed rest => exact leaves_ok rfl h
  | nil =>
    cases batch with
    | none => exact leaves_error rfl h
    | some b =>
      refine (leaves_foldlM_meets (fun _ s => J s.table) (fun x r t hx ht => hstep b.1 r x t hx ht)
        b.2 ⟨peer, .none, []⟩ s (hc hkeys b.1 b.2 rfl) h).bind fun r s' _ h => leaves_pure h

namespace Borne
variable {J J' : CommunicationState PeerState String → Prop} {q : PeerId}

theorem allUses (hb : Borne J joins later) {ops : List (CommunicationOp PeerState)} :
    ∀ {t : CommunicationState PeerState String}, J t → (∀ op ∈ ops, Uses joins later op) →
      J (final CommunicationState.step t ops) := by
  induction ops with
  | nil => exact fun h _ => h
  | cons op ops ih =>
    intro t h hops
    exact ih (hb.uses t op h (hops op List.mem_cons_self))
      fun o ho => hops o (List.mem_cons_of_mem _ ho)

theorem consulted (hb : Borne J joins later) {m : SocketM α} {Q : α → Internals → Prop}
    (h : J s.table) (hm : Ends (consults joins later) m s Q) :
    Leaves m s (fun _ s' => J s'.table) fun s' => J s'.table := by
  have hkeep : ∀ s', (consults joins later).le s s' → J s'.table := by
    rintro s' ⟨ops, hops, hs'⟩
    rw [hs']
    exact hb.allUses h hops
  exact hm.leaves.mono (fun _ s' hs' => hkeep s' hs'.1) hkeep

theorem packet (hb : Borne J joins later) {x : Packet × PacketCalls} (h : J s.table)
    (hjoin : x.1 = .streamJoin → joins (r.connected x.1 x.2).currentConnection q ∧ later q 10)
    (hping : ∀ msg, x.1 = .ping msg →
      Accepted (s.delivered q x.1) q msg x.2 (r.connected x.1 x.2) → later q 10)
    (hclose : x.1.closing → later q 0) :
    Leaves (receivePacket q r x) s (fun _ s' => J s'.table) fun s' => J s'.table := by
  unfold Leaves
  rw [receivePacket_run (hb.indexed _ h)]
  exact hb.consulted (s := s.delivered q x.1) h (consults_receiveCase _ _ hjoin hping hclose)

/-- A join that throws has not got as far as the table, or as the schedule. -/
theorem receiveJoin (hb : Borne J joins later) {calls : PacketCalls} (hi : s.table.Indexed)
    (hadd : ∀ {t : CommunicationState PeerState String} {index : Nat},
      s.table.Activated t r.currentConnection p default index →
        J (t.removeLater p 10 true false).2) :
    Leaves (P2PSocket.receiveJoin p calls r) s (fun _ s' => J s'.table)
      fun s' => J s'.table ∨ s'.table = s.table ∨ calls.send 0 = false := by
  unfold P2PSocket.receiveJoin
  refine Leaves.get_bind (leaves_ite ?_ (leaves_error rfl (.inr (.inl rfl))))
  refine Leaves.bind (Q := fun _ s₁ => ∃ index,
    s.table.Activated s₁.table r.currentConnection p default index)
    (leaves_tryState (fun t ht => ?_) (.inr (.inl rfl))) fun _ s₁ _ h₁ => ?_
  · obtain ⟨code, table, index, hrun, ha⟩ | ⟨hrun, -⟩ := hi.addActive r.currentConnection p default
    · have htable := P2PState.table_addActive ht
      rw [CommunicationState.step_ok (ok_bind hrun _)] at htable
      refine ⟨index, ?_⟩
      show s.table.Activated t.programState _ p _ index
      rw [htable]
      exact ha
    · obtain ⟨_, hr, -⟩ := ok_of_bind ht
      cases hr.symm.trans hrun
  obtain ⟨index, ha⟩ := h₁
  cases hsend : calls.send 0 with
  | false => exact leaves_error rfl (.inr (.inr rfl))
  | true =>
    refine (leaves_sent (Q := fun _ s₂ => s₂.table = s₁.table) rfl).bind fun _ s₂ _ h₂ => ?_
    have h₃ : J (s₂.table.removeLater p 10 true false).2 := h₂ ▸ hadd ha
    refine (leaves_updateState (Q := fun _ s₃ => J s₃.table) h₃).bind fun _ s₃ _ h₃ => ?_
    have hkeep : ∀ {m : SocketM Unit} {s₃ : Internals}, J s₃.table →
        Ends (consults joins later) m s₃ (fun _ _ => True) →
        Leaves m s₃ (fun _ s' => J s'.table)
          fun s' => J s'.table ∨ s'.table = s.table ∨ true = false :=
      fun h hm => (hb.consulted h hm).mono (fun _ _ h => h) fun _ h => .inl h
    refine (hkeep h₃ (consults_updateState rfl)).bind fun _ s₄ _ h₄ => ?_
    refine (hkeep h₄ (consults_tryState (.addPassive _ _) fun t ht =>
      P2PState.table_addPassive ht)).bind fun _ s₅ _ h₅ => ?_
    exact leaves_pure h₅

/-- What `J'` has of the table without what was due, it has behind `prepare_wait`. -/
theorem prepareWait (hb : Borne J' joins later) {calls : WaitCalls} (hi : s.table.Indexed)
    (hlisten : calls.Joins joins)
    (hremoved : ∀ {t keys drops indices}, s.table.Removed t keys drops indices → J' t) :
    Leaves (P2PSocket.prepareWait calls) s (fun _ s' => J' s'.table) fun s' => J' s'.table := by
  have hpending : Leaves (removePending calls) s (fun _ s' => J' s'.table)
      fun s' => J' s'.table := by
    obtain ⟨keys, drops, indices, s₁, -, hr, -, hrun⟩ := removePending_run hi calls
    unfold Leaves
    rw [hrun]
    exact hb.consulted (s := s₁) (hremoved hr)
      (consults_foldlM fun q _ _ => consults_dropRemoved calls q)
  rw [prepareWait_eq]
  refine hpending.bind fun _ s₁ _ h₁ => ?_
  exact hb.consulted h₁ (ends_attend (fun _ => trivial)
    (fun x _ => consults_listenOn calls x fun peers hpeers peer hpeer connection hc =>
      hlisten x.2 peers hpeers peer hpeer connection hc)
    (fun toConnect _ => consults_reconnect toConnect calls) fun x _ => consults_openTo calls x)

/-- `timer_action` counts the schedule down, unless the socket's own throws. -/
theorem timerAction (hb : Borne J' joins later) {calls : TimerCalls}
    (h : J' (if calls.timerAction then s.table.doStep else s.table)) :
    Leaves (P2PSocket.timerAction calls) s (fun _ s' => J' s'.table) fun s' => J' s'.table := by
  unfold P2PSocket.timerAction
  cases hcall : calls.timerAction with
  | false =>
    rw [hcall] at h
    exact leaves_error rfl h
  | true =>
    rw [hcall] at h
    simp only [if_true]
    refine Leaves.bind (Q := fun _ s₁ => s₁ = s) (leaves_pure rfl) fun _ s₁ _ h₁ => ?_
    subst h₁
    refine (leaves_updateState (Q := fun _ s₂ => J' s₂.table) h).bind fun _ s₂ _ h₂ => ?_
    refine hb.consulted (Q := fun _ _ => True) h₂ ?_
    refine (ends_readState _ trivial _).bind fun connected _ _ _ => ?_
    refine consults_foldlM fun q _ s₃ => ?_
    exact (ends_skCall _ trivial _).bind fun _ _ _ _ => Ends.get_bind (consults_skSend _ _ _)

theorem send (hb : Borne J joins later) {peer : String} {pack : SendPacket} (returns : Bool)
    (h : J s.table)
    (hdrop : pack = .streamDrop → ∀ q, s.state.getPeerId peer = some q → later q 0) :
    Leaves (P2PSocket.send peer pack returns) s (fun _ s' => J s'.table) fun s' => J s'.table := by
  unfold P2PSocket.send
  refine Leaves.get_bind ?_
  cases hq : s.state.getPeerId peer with
  | none => exact leaves_error rfl h
  | some q =>
    cases pack with
    | streamDrop => exact leaves_updateState (hb.uses _ _ h (.removeLater _ _ (hdrop rfl q hq)))
    | extension contents => exact hb.consulted h (consults_skSend _ _ _)

end Borne

/-! ## What a node asks for in a run -/

/-- No removal that sends a drop is asked for by address. -/
theorem Uses.sendsNoDrop {op : CommunicationOp PeerState} (h : Uses joins later op) :
    CommunicationState.SendsNoDrop op := by
  cases h with
  | removeLaterAddress addr step mustNotify => rfl
  | _ => trivial

/-- Programs that ask for no such removal. -/
abbrev asks : Frame Internals := asking CommunicationState.SendsNoDrop

/-- Whoever may join or be removed. -/
theorem asks_of_consults {m : SocketM α} {Q : α → Internals → Prop}
    (h : Ends (consults (fun _ _ => True) fun _ _ => True) m s Q) : Ends asks m s Q :=
  h.weaken (fun _ ⟨ops, hops, ht⟩ => ⟨ops, fun op hop => (hops op hop).sendsNoDrop, ht⟩) id

theorem asks_receivePacket (q : PeerId) (r : Received) (x : Packet × PacketCalls) :
    Ends asks (receivePacket q r x) s fun _ _ => True := by
  unfold receivePacket record
  refine Ends.bind (Q := fun _ _ => True) (ends_modify (asking_same rfl) trivial) fun _ s₁ _ _ => ?_
  refine (ends_readState asks trivial _).bind fun nodeid s₂ _ _ => ?_
  exact asks_of_consults (consults_receiveCase nodeid x.1 (fun _ => ⟨trivial, trivial⟩)
    (fun _ _ _ => trivial) fun _ => trivial)

theorem asks_receive (ord : IterOrder) (peer : PeerId)
    (batch : Option (PeerId × List (Packet × PacketCalls))) :
    Ends asks (receive ord peer batch) s fun _ _ => True := by
  unfold receive
  refine Ends.get_bind ?_
  split
  · exact Ends.bind (Q := fun _ _ => True) (ends_modify (asking_same rfl) trivial)
      fun _ _ _ _ => ends_pure trivial
  · refine (ends_skCall asks trivial _).bind fun b s₁ _ _ => ?_
    refine (ends_foldlM (fun _ _ _ => True) (fun x _ r t _ _ => asks_receivePacket b.1 r x) b.2
      ⟨peer, .none, []⟩ s₁ (asks.refl s₁) trivial).bind fun _ _ _ _ => ends_pure trivial

theorem asks_prepareWait (calls : WaitCalls) :
    Ends asks (prepareWait calls) s fun _ _ => True := by
  rw [prepareWait_eq]
  refine Ends.bind (Q := fun _ _ => True) ?_ fun _ s₁ _ _ => asks_of_consults (ends_attend
    (fun _ => trivial) (fun x _ => consults_listenOn calls x fun _ _ _ _ _ _ => trivial)
    (fun toConnect _ => consults_reconnect toConnect calls) fun x _ => consults_openTo calls x)
  unfold removePending
  refine (ends_readState asks trivial _).bind fun toRemove s₁ _ h => ?_
  obtain ⟨rfl, hrun⟩ := h
  have hremoved : ∀ s₂ : Internals, s₂.state = toRemove.2 → asks.le s₁ s₂ := fun s₂ h₂ =>
    have hop : CommunicationState.SendsNoDrop (T := PeerState) (.removePending calls.ord) := trivial
    asking_op hop ((congrArg P2PState.programState h₂).trans (P2PState.table_removePending hrun))
  refine Ends.bind (Q := fun _ _ => True) (ends_modify (hremoved _ rfl) trivial)
    fun _ s₂ _ _ => ?_
  exact asks_of_consults (consults_foldlM fun q _ _ => consults_dropRemoved calls q)

theorem asks_timerAction (calls : TimerCalls) :
    Ends asks (timerAction calls) s fun _ _ => True := by
  unfold timerAction
  refine (ends_skCall asks trivial _).bind fun _ s₁ _ _ => ?_
  have hop : CommunicationState.SendsNoDrop (T := PeerState) .doStep := trivial
  refine Ends.bind (Q := fun _ _ => True) (ends_modify (asking_op hop rfl) trivial)
    fun _ s₂ _ _ => ?_
  refine (ends_readState asks trivial _).bind fun connected s₃ _ _ => asks_of_consults ?_
  exact consults_foldlM fun q _ s₄ => (ends_skCall _ trivial _).bind fun _ _ _ _ =>
    Ends.get_bind (consults_skSend _ _ _)

theorem asks_send (peer : String) (pack : SendPacket) (returns : Bool) :
    Ends asks (send peer pack returns) s fun _ _ => True := by
  unfold send
  refine Ends.get_bind ?_
  split
  · exact ends_error rfl (asks.refl s) trivial
  · next q hq =>
    cases pack with
    | streamDrop =>
      have hop : CommunicationState.SendsNoDrop (T := PeerState)
          (.removeLater q 0 true false) := trivial
      exact ends_modify (asking_op hop rfl) trivial
    | extension contents => exact asks_of_consults (consults_skSend _ _ _)

theorem asks_step (s : Internals) (op : P2POp) : asks.le s (s.step op).2 := by
  have houtcome : ∀ {β : Type} {m : SocketM β} (out : β → P2POut),
      Ends asks m s (fun _ _ => True) → asks.le s (outcome out (m s)).2 := fun out h =>
    outcome_of_leaves out h.leaves fun _ _ h => h.1
  cases op with
  | receive ord peer batch => exact houtcome _ (asks_receive ord peer batch)
  | prepareWait calls => exact houtcome _ (asks_prepareWait calls)
  | send peer pack returns => exact houtcome _ (asks_send peer pack returns)
  | timerAction calls => exact houtcome _ (asks_timerAction calls)

theorem table_addPassives {t t' : P2PState} {addresses : List IpAddress}
    (h : addresses.foldlM P2PState.addPassive t = .ok t') :
    ∃ ops, (∀ op ∈ ops, CommunicationState.SendsNoDrop op) ∧
      t'.programState = final CommunicationState.step t.programState ops := by
  induction addresses generalizing t with
  | nil =>
    obtain rfl := Except.ok.inj h
    exact ⟨[], by simp, rfl⟩
  | cons addr rest ih =>
    obtain ⟨t₁, hadd, h⟩ := ok_of_bind h
    obtain ⟨ops, hops, ht⟩ := ih h
    refine ⟨.addPassive addr default :: ops, fun op hop => ?_, ?_⟩
    · rcases List.mem_cons.mp hop with rfl | hop
      · exact trivial
      · exact hops op hop
    · rw [ht, P2PState.table_addPassive hadd]
      rfl

theorem asks_create {discoveryServer : Bool} {bindToAddress : IpAddress}
    {connectToAddresses : List IpAddress} {selfId : String}
    (h : create discoveryServer bindToAddress connectToAddresses selfId = .ok s) :
    ∃ ops, (∀ op ∈ ops, CommunicationState.SendsNoDrop op) ∧
      s.table = final CommunicationState.step CommunicationState.init ops := by
  unfold create at h
  obtain ⟨addresses, -, h⟩ := ok_of_bind h
  split at h
  · cases h
  · dsimp only at h
    split at h
    · next state hrun =>
      obtain rfl := Except.ok.inj h
      obtain ⟨ops, hops, ht⟩ := table_addPassives hrun
      refine ⟨ops, hops, ht.trans ?_⟩
      split <;> rfl
    · cases h

/-- **The table of a node behind a run is that of a run of the table itself, in which no removal
that sends a drop is scheduled by address.** -/
theorem run_asks {discoveryServer : Bool} {bindToAddress : IpAddress}
    {connectToAddresses : List IpAddress} {selfId : String} {s₀ : Internals}
    (hcreate : create discoveryServer bindToAddress connectToAddresses selfId = .ok s₀)
    (ops : List P2POp) :
    ∃ asked, (∀ op ∈ asked, CommunicationState.SendsNoDrop op) ∧
      (final Internals.step s₀ ops).table =
        final CommunicationState.step CommunicationState.init asked := by
  obtain ⟨asked, hasked, htable⟩ := asks_create hcreate
  have hrun : asks.le s₀ (final Internals.step s₀ ops) :=
    invariant_final (C := fun _ _ => True) (fun s op h _ => asks.trans h (asks_step s op))
      (asks.refl s₀) (meets_of_forall (fun _ _ => trivial) s₀ ops)
  obtain ⟨more, hmore, hfinal⟩ := hrun
  refine ⟨asked ++ more, fun op hop => (List.mem_append.mp hop).elim (hasked op) (hmore op), ?_⟩
  rw [hfinal, htable, final_append]

end

end MeshPP.P2PSocket
