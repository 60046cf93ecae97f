import MeshPP.P2PSocket.Silence

/-! # Peers that are heard from

A `Ping` that is registered puts its peer back to ten steps. A peer that has one
registered in every stretch of ten timer actions stays connected, as long as it
neither leaves nor joins again, the application does not drop it, and nobody
else comes from its address. -/

set_option linter.unusedSectionVars false

namespace MeshPP.P2PSocket
open MeshPP.Lib MeshPP.Kbucket

/-! ## The place of one peer -/

namespace CommunicationState

section
variable {T K : Type} [Inhabited T] [Inhabited K] [DecidableEq K] [CommunicationValue T K]
  [EmptyDestination] {s s' : CommunicationState T K} {p q : PeerId} {addr : IpAddress}

/-- `p` has no item. -/
structure Absent (s : CommunicationState T K) (p : PeerId) : Prop where
  indexed : s.Indexed
  none : ∀ (j : Nat) (item : StateItem T), s.peers[j]? = some item → item.peer ≠ some p

theorem Absent.of_kept (h : s.Absent p) (hi : s'.Indexed)
    (hkept : ∀ (j : Nat) (item : StateItem T), s'.peers[j]? = some item → item.peer = some p →
      ∃ (i : Nat) (old : StateItem T), s.peers[i]? = some old ∧ old.peer = some p) :
    s'.Absent p := by
  refine ⟨hi, fun j item hj hp => ?_⟩
  obtain ⟨i, old, hold, hpold⟩ := hkept j item hj hp
  exact h.none i old hold hpold

theorem Absent.timed (h : s.Absent p) (P : Option ToRemoveInfo → Prop) : s.Timed p P :=
  ⟨h.indexed, fun i item hitem hp => absurd hp (h.none i item hitem)⟩

/-- `p` has one item, and it is at `addr`. -/
structure Seated (s : CommunicationState T K) (p : PeerId) (addr : IpAddress) : Prop where
  indexed : s.Indexed
  seat : ∃ (i : Nat) (item : StateItem T), s.mapByPeerId.lookup p = some i ∧
    s.peers[i]? = some item ∧ item.peer = some p ∧ item.address = addr
  only : ∀ (j : Nat) (item : StateItem T), s.peers[j]? = some item → item.peer = some p →
    s.mapByPeerId.lookup p = some j

theorem Seated.of_kept (h : s.Seated p addr) (hi : s'.Indexed)
    (hid : s'.mapByPeerId.lookup p = s.mapByPeerId.lookup p)
    (hkept : ∀ (i : Nat) (item : StateItem T), s.peers[i]? = some item → item.peer = some p →
      item.address = addr → ∃ item', s'.peers[i]? = some item' ∧ item'.peer = some p ∧
        item'.address = addr)
    (honly : ∀ (j : Nat) (item : StateItem T), s'.peers[j]? = some item → item.peer = some p →
      ∃ old, s.peers[j]? = some old ∧ old.peer = some p) : s'.Seated p addr := by
  obtain ⟨i, item, hslot, hitem, hp, haddr⟩ := h.seat
  obtain ⟨item', hitem', hp', haddr'⟩ := hkept i item hitem hp haddr
  refine ⟨hi, ⟨i, item', hid.trans hslot, hitem', hp', haddr'⟩, fun j it hj hpj => ?_⟩
  obtain ⟨old, hold, hpold⟩ := honly j it hj hpj
  exact hid.trans (h.only j old hold hpold)

/-- Another peer is made active elsewhere. -/
theorem Seated.activated {addr' : IpAddress} {value : T} {index : Nat} (h : s.Seated p addr)
    (ha : Activated s s' addr' q value index) (hne : q ≠ p)
    (haddr : addressKey addr' ≠ addressKey addr) : s'.Seated p addr := by
  have hindex : ∀ item, s.peers[index]? = some item → item.peer ≠ some p := by
    intro item hitem hp
    obtain ⟨i, stored, hslot, hstored, -, hat⟩ := h.seat
    obtain rfl := Option.some.inj (hslot.symm.trans (h.only index item hitem hp))
    obtain rfl := Option.some.inj (hstored.symm.trans hitem)
    rcases ha.fresh with hlookup | hpassive
    · obtain ⟨stored', hstored', hkey⟩ := h.indexed.address _ _ hlookup
      obtain rfl := Option.some.inj (hstored.symm.trans hstored')
      exact haddr (hkey.symm.trans (congrArg addressKey hat))
    · cases (hpassive stored hstored).symm.trans hp
  refine h.of_kept ha.indexed ?_ (fun i item hitem hp hat => ⟨item, ?_, hp, hat⟩)
    fun j item hj hp => ⟨item, ?_, hp⟩
  · rw [ha.peerId, if_neg (Ne.symm hne), if_neg]
    intro hbind
    obtain ⟨item, hitem, hp⟩ := Option.bind_eq_some_iff.mp hbind
    exact hindex item hitem hp
  · exact ha.kept i item (fun he => hindex item (he ▸ hitem) hp) hitem (active_of_peer hp)
  · refine ha.only j item ?_ hj (active_of_peer hp)
    rintro rfl
    obtain rfl := Option.some.inj (ha.item.symm.trans hj)
    exact hne (Option.some.inj hp)

/-- A peer that had no item is made active. -/
theorem Absent.activated {value : T} {index : Nat} (h : s.Absent p)
    (ha : Activated s s' addr p value index) : s'.Seated p addr := by
  have hslot : s'.mapByPeerId.lookup p = some index := by rw [ha.peerId, if_pos rfl]
  refine ⟨ha.indexed, ⟨index, _, hslot, ha.item, rfl, rfl⟩, fun j item hj hp => ?_⟩
  by_cases hi : j = index
  · rw [hi]
    exact hslot
  · exact absurd hp (h.none j item (ha.only j item hi hj (active_of_peer hp)))

theorem Seated.revalued {index : Nat} {stored : StateItem T} {value : T} (h : s.Seated p addr)
    (hs : s.peers[index]? = some stored) (hs' : Revalued s s' index stored value) :
    s'.Seated p addr := by
  refine h.of_kept hs'.indexed (by rw [hs'.peerId]) (fun i item hitem hp hat => ?_)
    fun j item hj hp => ?_
  · have hlt := (List.getElem?_eq_some_iff.mp hs).1
    by_cases hi : i = index
    · subst hi
      obtain rfl := Option.some.inj (hs.symm.trans hitem)
      exact ⟨_, (congrArg (·[i]?) hs'.peers).trans (List.getElem?_set_self hlt), hp, hat⟩
    · refine ⟨item, ?_, hp, hat⟩
      rw [hs'.peers, List.getElem?_set_ne (Ne.symm hi)]
      exact hitem
  · obtain ⟨old, hold, -, hpeer⟩ := hs'.was hs hj
    exact ⟨old, hold, hpeer.trans hp⟩

/-- An item that is not due stays. -/
theorem Seated.removed {keys : List (K × Bool)} {drops : List PeerId} {indices : List Nat}
    (h : s.Seated p addr) (hr : Removed s s' keys drops indices)
    (hdue : ∀ i, s.mapByPeerId.lookup p = some i → ¬ s.due i) : s'.Seated p addr := by
  obtain ⟨i, item, hslot, hitem, hp, hat⟩ := h.seat
  obtain ⟨j, rfl⟩ := exists_beforeAll hr.sorted fun hi => hdue i hslot ((hr.due i).mp hi)
  refine ⟨hr.renumbered.indexed h.indexed, ⟨j, item, (hr.renumbered.peerId p j).mpr hslot,
    (hr.renumbered.peers j).trans hitem, hp, hat⟩, fun k it hk hpk => ?_⟩
  exact (hr.renumbered.peerId p k).mpr (h.only _ it ((hr.renumbered.peers k).symm.trans hk) hpk)

theorem Seated.removeLater (h : s.Seated p addr) (q : PeerId) (step : Nat)
    (sendDrop mustNotify : Bool) : (s.removeLater q step sendDrop mustNotify).2.Seated p addr := by
  have hid : (s.removeLater q step sendDrop mustNotify).2.mapByPeerId = s.mapByPeerId := by
    unfold CommunicationState.removeLater
    split <;> rfl
  have hpeers := (s.removeLater_tables q step sendDrop mustNotify).1
  exact h.of_kept (h.indexed.removeLater q step sendDrop mustNotify) (by rw [hid])
    (fun i item hitem hp hat => ⟨item, hpeers ▸ hitem, hp, hat⟩)
    fun j item hj hp => ⟨item, hpeers ▸ hj, hp⟩

theorem Seated.doStep (h : s.Seated p addr) : s.doStep.Seated p addr :=
  h.of_kept h.indexed.doStep rfl (fun _ item hitem hp hat => ⟨item, hitem, hp, hat⟩)
    fun _ item hj hp => ⟨item, hj, hp⟩

/-- The one item of `p` is put on the schedule, whatever was noted for it. -/
theorem Seated.renewed {P : Option ToRemoveInfo → Prop} {step : Nat} {sendDrop mustNotify : Bool}
    (h : s.Seated p addr) (hnew : P (some ⟨step, sendDrop, mustNotify⟩)) :
    (s.removeLater p step sendDrop mustNotify).2.Timed p P := by
  refine ⟨h.indexed.removeLater p step sendDrop mustNotify, fun i item hitem hp => ?_⟩
  rw [(s.removeLater_tables p step sendDrop mustNotify).1] at hitem
  rw [removeLater_remove, if_pos (h.only i item hitem hp)]
  exact hnew

end

end CommunicationState

/-! ## What keeps it -/

section
variable [EmptyDestination] {p : PeerId} {addr : IpAddress} {n : Nat}

/-- There are at least `n` steps left. -/
def Lasts (n : Nat) (info : Option ToRemoveInfo) : Prop :=
  ∀ noted, info = some noted → n ≤ noted.steps

/-- Whoever joins, it is not `p`, and it does not come from `addr`. -/
def JoinsApart (p : PeerId) (addr : IpAddress) (addr' : IpAddress) (q : PeerId) : Prop :=
  q ≠ p ∧ addressKey addr' ≠ addressKey addr

/-- `p` has one item, at `addr`, and at least `n` steps are left to it. -/
structure CommunicationState.Spared (s : CommunicationState PeerState String) (p : PeerId)
    (addr : IpAddress) (n : Nat) : Prop where
  seated : s.Seated p addr
  timed : s.Timed p (Lasts n)

theorem CommunicationState.Spared.change {s s' : CommunicationState PeerState String}
    (h : s.Spared p addr n) (hc : s.Change (JoinsApart p addr) (Grants (Lasts n) p) s') :
    s'.Spared p addr n := by
  refine ⟨?_, h.timed.change (fun _ _ hq => hq.1) hc⟩
  cases hc with
  | unmoved hu =>
    refine h.seated.of_kept hu.indexed (by rw [hu.peerId]) (fun i item hitem hp hat => ?_)
      fun j item hj hp => ?_
    · exact ⟨item, (hu.items i item (active_of_peer hp)).mpr hitem, hp, hat⟩
    · exact ⟨item, (hu.items j item (active_of_peer hp)).mp hj, hp⟩
  | activated hq ha => exact h.seated.activated ha hq.1 hq.2
  | revalued hs hs' => exact h.seated.revalued hs hs'
  | scheduled sendDrop mustNotify hq hs' =>
    rw [hs']
    exact h.seated.removeLater _ _ _ _

theorem CommunicationState.Absent.change {s s' : CommunicationState PeerState String}
    {later : PeerId → Nat → Prop} (h : s.Absent p) (hc : s.Change (JoinsBut p) later s') :
    s'.Absent p := by
  cases hc with
  | unmoved hu =>
    exact h.of_kept hu.indexed fun j item hj hp =>
      ⟨j, item, (hu.items j item (active_of_peer hp)).mp hj, hp⟩
  | activated hq ha =>
    refine h.of_kept ha.indexed fun j item hj hp => ⟨j, item, ?_, hp⟩
    refine ha.only j item ?_ hj (active_of_peer hp)
    rintro rfl
    obtain rfl := Option.some.inj (ha.item.symm.trans hj)
    exact hq (Option.some.inj hp)
  | revalued hs hs' =>
    refine h.of_kept hs'.indexed fun j item hj hp => ?_
    obtain ⟨old, hold, -, hpeer⟩ := hs'.was hs hj
    exact ⟨j, old, hold, hpeer.trans hp⟩
  | @scheduled q step sendDrop mustNotify hq hs' =>
    subst hs'
    refine h.of_kept (h.indexed.removeLater q step sendDrop mustNotify) fun j item hj hp => ?_
    rw [(s.removeLater_tables q step sendDrop mustNotify).1] at hj
    exact ⟨j, item, hj, hp⟩

theorem lasts_stepped {info : Option ToRemoveInfo} (h : Lasts n info) :
    Lasts (n - 1) (info.map ToRemoveInfo.stepped) := by
  intro noted hnoted
  obtain ⟨old, rfl, rfl⟩ := Option.map_eq_some_iff.mp hnoted
  have hle := h old rfl
  unfold ToRemoveInfo.stepped
  split
  · exact Nat.sub_le_sub_right hle 1
  · omega

theorem grants_lasts {q : PeerId} {step : Nat} (h : q = p → n ≤ step) :
    Grants (Lasts n) p q step := by
  rintro hq sendDrop mustNotify noted hnoted
  obtain rfl := Option.some.inj hnoted
  exact h hq

end

section
variable [Sha256] [EmptyDestination] [Library] {s s' : Internals} {p q : PeerId}
  {addr : IpAddress} {n : Nat}

theorem borne_spared :
    Borne (CommunicationState.Spared · p addr n) (JoinsApart p addr) (Grants (Lasts n) p) :=
  ⟨fun _ h => h.timed.indexed, fun _ _ h hop => h.change (hop.change h.timed.indexed)⟩

/-! ## One packet -/

/-- `p` neither joins again nor leaves, and nobody joins from its address. -/
structure Harmless (p : PeerId) (addr : IpAddress) (q : PeerId) (r : Received)
    (x : Packet × PacketCalls) (_ : Internals) : Prop where
  own : q = p → x.1 ≠ .streamJoin ∧ ¬ x.1.closing
  others : x.1 = .streamJoin →
    addressKey (r.connected x.1 x.2).currentConnection ≠ addressKey addr

theorem spared_packet {r : Received} {x : Packet × PacketCalls} (hn : n ≤ 10)
    (h : s.table.Spared p addr n) (hc : Harmless p addr q r x s) :
    Leaves (receivePacket q r x) s (fun _ s' => s'.table.Spared p addr n)
      fun s' => s'.table.Spared p addr n := by
  refine borne_spared.packet h (fun hm => ⟨⟨fun he => (hc.own he).1 hm, hc.others hm⟩, ?_⟩)
    (fun _ _ _ => grants_lasts fun _ => hn) fun hclosing =>
      grants_lasts fun he => absurd hclosing (hc.own he).2
  exact grants_lasts fun _ => hn

theorem spared_packets {packets : List (Packet × PacketCalls)} {r : Received} (hn : n ≤ 10)
    (h : s.table.Spared p addr n)
    (hc : FoldMeets (Harmless p addr q) (receivePacket q) packets r s) :
    Leaves (packets.foldlM (receivePacket q) r) s (fun _ s' => s'.table.Spared p addr n)
      fun s' => s'.table.Spared p addr n :=
  leaves_foldlM_meets (fun _ s => s.table.Spared p addr n)
    (fun _ _ _ hx ht => spared_packet hn ht hx) packets r s hc h

/-- A `Ping` of `p` is accepted and answered, and there is room for its node. -/
def Renews (p : PeerId) (r : Received) (x : Packet × PacketCalls) (s : Internals) : Prop :=
  ∃ msg status b, x.1 = .ping msg ∧
    Accepted (s.delivered p x.1) p msg x.2 (r.connected x.1 x.2) ∧ x.2.send 0 = true ∧
    P2PState.Added s.state.kbucket ⟨msg.nodeid, p⟩ status b ∧ status ≠ .noContact

/-- The registration of a `Ping` puts its peer back to ten steps. -/
theorem spared_registerPing {msg : Ping} {calls : PacketCalls} {r : Received}
    {status : ContactStatus} {b : KBucket Konnection} (h : s.table.Seated p addr)
    (hsend : calls.send 0 = true) (hb : P2PState.Added s.state.kbucket ⟨msg.nodeid, p⟩ status b)
    (hne : status ≠ .noContact) :
    Leaves (registerPing p msg calls r) s (fun _ s' => s'.table.Spared p addr 10)
      fun s' => s'.table.Spared p addr 10 := by
  have hadd : addContact p msg.nodeid s =
      .ok status { s with state := { s.state with kbucket := b } } := by
    unfold addContact
    rw [get_bind_run, hb.addContact_eq]
    rfl
  unfold registerPing
  refine (leaves_ok hadd (Q := fun a s₁ => a = status ∧ s₁.table = s.table) ⟨rfl, rfl⟩).bind
    fun a s₁ _ h₁ => ?_
  obtain ⟨rfl, htable⟩ := h₁
  refine Leaves.get_bind ?_
  rw [hsend]
  refine (leaves_sent (Q := fun _ s₂ => s₂.table = s₁.table) rfl).bind fun _ s₂ _ h₂ => ?_
  rw [if_pos hne]
  have h₃ : s₂.table.Seated p addr := (h₂.trans htable) ▸ h
  refine (leaves_updateState (Q := fun _ s₃ => s₃.table.Spared p addr 10)
    ⟨h₃.removeLater p 10 true true, h₃.renewed ?_⟩).bind fun _ s₃ _ h₄ => ?_
  · rintro noted hnoted
    obtain rfl := Option.some.inj hnoted
    exact Nat.le_refl _
  refine (borne_spared.consulted h₄ (consults_tryState (.setActiveValue _ _) fun t ht =>
    P2PState.table_setActiveNodeid ht)).bind fun _ s₄ _ h₅ => ?_
  exact leaves_pure h₅

theorem spared_renews {r : Received} {x : Packet × PacketCalls} (h : s.table.Spared p addr n)
    (hrenews : Renews p r x s) :
    Leaves (receivePacket p r x) s (fun _ s' => s'.table.Spared p addr 10)
      fun s' => s'.table.Spared p addr 10 := by
  obtain ⟨packet, calls⟩ := x
  obtain ⟨msg, status, b, rfl, ⟨s₁, hcheck⟩, hsend, hb, hne⟩ := hrenews
  have hi := h.timed.indexed
  have hk : s₁.state.kbucket = s.state.kbucket :=
    (((calm_checkPing p msg calls _).of_ok hcheck).1.state hi).kbucket
  have hcons : Ends (consults (JoinsApart p addr) (Grants (Lasts n) p))
      (checkPing p msg calls (r.connected (.ping msg) calls)) (s.delivered p (.ping msg)) _ :=
    consults_checkPing msg
  have h₁ : s₁.table.Spared p addr n :=
    (borne_spared.consulted (s := s.delivered p (.ping msg)) h hcons).of_ok hcheck
  unfold Leaves
  rw [receivePacket_run hi]
  change Leaves (receivePing p msg calls (r.connected (.ping msg) calls)) _ _ _
  unfold receivePing
  refine (leaves_ok hcheck (Q := fun a s₂ => a = true ∧ s₂ = s₁) ⟨rfl, rfl⟩).bind
    fun a s₂ _ h₂ => ?_
  obtain ⟨rfl, rfl⟩ := h₂
  exact spared_registerPing h₁.seated hsend (hk ▸ hb) hne

/-! ## One operation -/

/-- Nothing that an operation does takes the item from `p`. -/
def Undisturbed (p : PeerId) (addr : IpAddress) (s : Internals) : P2POp → Prop
  | .receive ord peer batch => ReceiveMeets (Harmless p addr) ord peer batch s
  | .prepareWait calls => calls.Joins (JoinsApart p addr)
  | .send peer .streamDrop _ => s.state.getPeerId peer ≠ some p
  | _ => True

theorem spared_step {op : P2POp} (hn : n ≤ 10) (hticks : op.ticks < n)
    (h : s.table.Spared p addr n) (hc : Undisturbed p addr s op) :
    (s.step op).2.table.Spared p addr (n - op.ticks) := by
  cases op with
  | receive ord peer batch =>
    exact outcome_of_leaves _ (leaves_receive (J := (CommunicationState.Spared · p addr _)) h hc
      fun _ _ _ _ hx hs => spared_packet hn hs hx) fun _ _ h => h
  | prepareWait calls =>
    refine outcome_of_leaves _ (borne_spared.prepareWait h.timed.indexed hc fun hr => ?_)
      fun _ _ h => h
    refine ⟨h.seated.removed hr fun i hi hdue => ?_, h.timed.removed hr fun _ hinfo _ => hinfo⟩
    obtain ⟨j, item, hj, hitem, hp, -⟩ := h.seated.seat
    obtain rfl := Option.some.inj (hj.symm.trans hi)
    obtain ⟨noted, hnoted, hz⟩ := CommunicationState.due_iff.mp hdue
    have hle := h.timed.noted j item hitem hp noted hnoted
    rw [hz] at hle
    exact Nat.lt_irrefl _ (hticks.trans_le (hle.trans (Nat.zero_le _)))
  | send peer pack returns =>
    refine outcome_of_leaves _ (borne_spared.send returns h fun hdrop q hq => ?_) fun _ _ h => h
    subst hdrop
    exact grants_lasts fun he => absurd (he ▸ hq) hc
  | timerAction calls =>
    refine outcome_of_leaves _ (borne_spared.timerAction ?_) fun _ _ h => h
    show (if calls.timerAction then s.table.doStep else s.table).Spared p addr
      (n - if calls.timerAction then 1 else 0)
    cases calls.timerAction with
    | true => exact ⟨h.seated.doStep, h.timed.doStep fun _ => lasts_stepped⟩
    | false => exact h

/-- One of the packets of an operation is a `Ping` of `p` that is registered. -/
def Hears (p : PeerId) (s : Internals) (op : P2POp) : Prop :=
  ∃ ord peer first x rest r s', op = .receive ord peer (some (p, first ++ x :: rest)) ∧
    ord.order s.notifyRemovedPeers.keys = [] ∧
    first.foldlM (receivePacket p) ⟨peer, .none, []⟩ s = .ok r s' ∧ Renews p r x s'

theorem receive_batch_run {ord : IterOrder} {peer : PeerId} {packets : List (Packet × PacketCalls)}
    (hkeys : ord.order s.notifyRemovedPeers.keys = []) :
    receive ord peer (some (p, packets)) s =
      (packets.foldlM (receivePacket p) ⟨peer, .none, []⟩ >>= fun r =>
        (pure (r.peer, r.returnPackets) : SocketM _)) s := by
  unfold receive
  rw [get_bind_run, hkeys]
  rfl

theorem spared_hears {op : P2POp} (hn : n ≤ 10) (h : s.table.Spared p addr n)
    (hc : Undisturbed p addr s op) (hears : Hears p s op) :
    (s.step op).2.table.Spared p addr 10 := by
  obtain ⟨ord, peer, first, x, rest, r, s', rfl, hkeys, hfirst, hrenews⟩ := hears
  obtain ⟨hc₁, hc₂⟩ := FoldMeets.append (hc hkeys p _ rfl) hfirst
  have hs' : s'.table.Spared p addr n := (spared_packets hn h hc₁).of_ok hfirst
  refine outcome_of_leaves (Q := fun _ s => s.table.Spared p addr 10) _ ?_ fun _ _ h => h
  unfold Leaves
  rw [receive_batch_run hkeys, List.foldlM_append, bind_assoc, bind_run_ok hfirst, List.foldlM_cons,
    bind_assoc]
  refine (spared_renews hs' hrenews).bind fun r₁ s₁ hrun h₁ => ?_
  exact (spared_packets (Nat.le_refl _) h₁ (hc₂.2 r₁ s₁ hrun)).bind fun _ _ _ h₂ => leaves_pure h₂

/-! ## The join -/

theorem borne_absent : Borne (CommunicationState.Absent · p) (JoinsBut p) fun _ _ => True :=
  ⟨fun _ h => h.indexed, fun _ _ h hop => h.change (hop.change h.indexed)⟩

/-- `p` does not join. -/
def Outside (p q : PeerId) (_ : Received) (x : Packet × PacketCalls) (_ : Internals) : Prop :=
  q = p → x.1 ≠ .streamJoin

theorem absent_packet {r : Received} {x : Packet × PacketCalls} (h : s.table.Absent p)
    (hc : Outside p q r x s) :
    Leaves (receivePacket q r x) s (fun _ s' => s'.table.Absent p) fun s' => s'.table.Absent p :=
  borne_absent.packet h (fun hm => ⟨fun he => hc he hm, trivial⟩) (fun _ _ _ => trivial)
    fun _ => trivial

theorem absent_step {op : P2POp} (h : s.table.Absent p) (hc : Serves p (Outside p) s op) :
    (s.step op).2.table.Absent p := by
  cases op with
  | receive ord peer batch =>
    exact outcome_of_leaves _ (leaves_receive (J := (CommunicationState.Absent · p)) h hc
      fun _ _ _ _ hx hs => absent_packet hs hx) fun _ _ h => h
  | prepareWait calls =>
    refine outcome_of_leaves _ (borne_absent.prepareWait h.indexed hc fun hr => ?_) fun _ _ h => h
    exact h.of_kept (hr.renumbered.indexed h.indexed) fun j item hj hp =>
      ⟨_, item, (hr.renumbered.peers j).symm.trans hj, hp⟩
  | send peer pack returns =>
    exact outcome_of_leaves _ (borne_absent.send returns h fun _ _ _ => trivial) fun _ _ h => h
  | timerAction calls =>
    refine outcome_of_leaves _ (borne_absent.timerAction ?_) fun _ _ h => h
    split
    · exact h.of_kept h.indexed.doStep fun j item hj hp => ⟨j, item, hj, hp⟩
    · exact h

/-- A new peer has an item and ten steps when its join returns. -/
theorem spared_joins {calls : PacketCalls} {r : Received} (h : s.table.Absent p) :
    Leaves (receiveJoin p calls r) s
      (fun _ s' => s'.table.Spared p r.currentConnection 10) fun _ => True := by
  refine (borne_spared.receiveJoin h.indexed fun {t index} ha => ?_).mono (fun _ _ h => h)
    fun _ _ => trivial
  refine ⟨(h.activated ha).removeLater p 10 true false, (h.timed _).joined ha fun noted hnoted => ?_⟩
  obtain rfl := Option.some.inj hnoted
  exact Nat.le_refl _

/-- In one operation `p` joins from `addr`, and the join returns. Nothing in front of it is a
join, and nothing behind it takes the item away. -/
def JoinsAt (p : PeerId) (addr : IpAddress) (s : Internals) (op : P2POp) : Prop :=
  ∃ ord peer first calls rest r s₁ r' s₂,
    op = .receive ord peer (some (p, first ++ (.streamJoin, calls) :: rest)) ∧
    ord.order s.notifyRemovedPeers.keys = [] ∧
    FoldMeets (Outside p p) (receivePacket p) first ⟨peer, .none, []⟩ s ∧
    first.foldlM (receivePacket p) ⟨peer, .none, []⟩ s = .ok r s₁ ∧
    receivePacket p r (.streamJoin, calls) s₁ = .ok r' s₂ ∧
    (r.connected .streamJoin calls).currentConnection = addr ∧
    FoldMeets (Harmless p addr p) (receivePacket p) rest r' s₂

theorem spared_joinsAt {op : P2POp} (h : s.table.Absent p) (hjoin : JoinsAt p addr s op) :
    (s.step op).2.table.Spared p addr 10 := by
  obtain ⟨ord, peer, first, calls, rest, r, s₁, r', s₂, rfl, hkeys, hout, hfirst, hrun, rfl,
    hrest⟩ := hjoin
  have h₁ : s₁.table.Absent p := (leaves_foldlM_meets (C := Outside p p) (f := receivePacket p)
    (fun _ s => s.table.Absent p) (fun _ _ _ hx ht => absent_packet ht hx) first ⟨peer, .none, []⟩
    s hout h).of_ok hfirst
  have h₂ : s₂.table.Spared p (r.connected .streamJoin calls).currentConnection 10 := by
    have hcase := hrun
    rw [receivePacket_run h₁.indexed] at hcase
    exact (spared_joins (s := s₁.delivered p .streamJoin) h₁).of_ok hcase
  refine outcome_of_leaves
    (Q := fun _ s => s.table.Spared p (r.connected .streamJoin calls).currentConnection 10) _ ?_
    fun _ _ h => h
  unfold Leaves
  rw [receive_batch_run hkeys, List.foldlM_append, bind_assoc, bind_run_ok hfirst, List.foldlM_cons,
    bind_assoc, bind_run_ok hrun]
  exact (spared_packets (Nat.le_refl _) h₂ hrest).bind fun _ _ _ h₃ => leaves_pure h₃

/-! ## Runs -/

/-- While `p` is undisturbed, there are never `n` timer actions before it is heard, and never
ten between one time and the next. -/
inductive Regular (p : PeerId) (addr : IpAddress) : Nat → Internals → List P2POp → Prop
  | done (n : Nat) (s : Internals) : Regular p addr n s []
  | hears {n : Nat} {s : Internals} {op : P2POp} {ops : List P2POp} : Undisturbed p addr s op →
    Hears p s op → Regular p addr 10 (s.step op).2 ops → Regular p addr n s (op :: ops)
  | waits {n : Nat} {s : Internals} {op : P2POp} {ops : List P2POp} : Undisturbed p addr s op →
    op.ticks < n → Regular p addr (n - op.ticks) (s.step op).2 ops → Regular p addr n s (op :: ops)

/-- The node has a connection to `p`, and pings it with every timer action. -/
def Connected (p : PeerId) (s : Internals) : Prop :=
  ∃ peers, s.state.getConnectedPeerids = .ok peers ∧ p ∈ peers

theorem CommunicationState.Spared.connected (h : s.table.Spared p addr n) (hn : 0 < n)
    (hremote : addr.remote.empty = false) : Connected p s := by
  obtain ⟨i, item, hslot, hitem, hp, rfl⟩ := h.seated.seat
  refine ⟨_, CommunicationState.mapM_getPeer fun _ hm =>
    CommunicationState.active_of_mem_getConnected hm, List.mem_flatMap.mpr ⟨item, ?_, by simp [hp]⟩⟩
  refine List.mem_map.mpr ⟨(item, i), List.mem_filter.mpr ⟨?_, ?_⟩, rfl⟩
  · exact List.mem_zipIdx_iff_getElem?.mpr hitem
  · have hdue : s.table.due i = false := by
      rw [Bool.eq_false_iff]
      intro hdue
      obtain ⟨noted, hnoted, hz⟩ := CommunicationState.due_iff.mp hdue
      have hle := h.timed.noted i item hitem hp noted hnoted
      rw [hz] at hle
      exact Nat.lt_irrefl _ (hn.trans_le hle)
    simp only [hdue, CommunicationState.active_of_peer hp, StateItem.listens, hremote]
    rfl

theorem run_regular {ops : List P2POp} (hremote : addr.remote.empty = false) (hn : 0 < n)
    (hle : n ≤ 10) (h : s.table.Spared p addr n) (hr : Regular p addr n s ops) :
    Meets Internals.step (fun s _ => Connected p s) s ops ∧
      Connected p (final Internals.step s ops) := by
  induction hr with
  | done n s => exact ⟨trivial, h.connected hn hremote⟩
  | hears hc hears _ ih =>
    obtain ⟨hmeets, hlast⟩ := ih (by decide) (Nat.le_refl _) (spared_hears hle h hc hears)
    exact ⟨⟨h.connected hn hremote, hmeets⟩, hlast⟩
  | waits hc hticks _ ih =>
    obtain ⟨hmeets, hlast⟩ := ih (Nat.sub_pos_of_lt hticks) ((Nat.sub_le _ _).trans hle)
      (spared_step hle hticks h hc)
    exact ⟨⟨h.connected hn hremote, hmeets⟩, hlast⟩

theorem absent_create {discoveryServer : Bool} {bindToAddress : IpAddress}
    {connectToAddresses : List IpAddress} {selfId : String} {s₀ : Internals}
    (h : create discoveryServer bindToAddress connectToAddresses selfId = .ok s₀) (p : PeerId) :
    s₀.table.Absent p :=
  let h₀ := timed_create h p fun _ => False
  ⟨h₀.indexed, fun j item hj hp => h₀.noted j item hj hp⟩

/-- A peer that joins and is heard from in time stays connected. -/
theorem run_stays_connected {discoveryServer : Bool} {bindToAddress : IpAddress}
    {connectToAddresses : List IpAddress} {selfId : String} {s₀ : Internals}
    {before after : List P2POp} {op : P2POp}
    (hcreate : create discoveryServer bindToAddress connectToAddresses selfId = .ok s₀)
    (hbefore : Meets Internals.step (Serves p (Outside p)) s₀ before)
    (hjoin : JoinsAt p addr (final Internals.step s₀ before) op)
    (hremote : addr.remote.empty = false)
    (hafter : Regular p addr 10 (final Internals.step s₀ (before ++ [op])) after) :
    Meets Internals.step (fun s _ => Connected p s)
        (final Internals.step s₀ (before ++ [op])) after ∧
      Connected p (final Internals.step s₀ (before ++ [op] ++ after)) := by
  have hkept : ∀ (s : Internals) op, s.table.Absent p → Serves p (Outside p) s op →
      (Internals.step s op).2.table.Absent p := fun _ _ hs hc => absent_step hs hc
  have habsent := invariant_final hkept (absent_create hcreate p) hbefore
  have hten : (final Internals.step s₀ (before ++ [op])).table.Spared p addr 10 := by
    rw [final_append]
    exact spared_joinsAt habsent hjoin
  rw [final_append _ _ (before ++ [op])]
  exact run_regular hremote (by decide) (Nat.le_refl _) hten hafter

end

/-! ## A peer that pings again -/

namespace Sample
variable [Sha256] [EmptyDestination] [Library]

def again : P2POp := deliver [.ping (ping second)]

/-- The join returns, and behind a timer action the second `Ping` is accepted from a contact. -/
def pingsAgain : Bool :=
  match create false bind [] own with
  | .ok s₀ =>
    let s := final Internals.step s₀ (registration ++ [tick])
    passes (receivePacket "p" ⟨"", .none, []⟩ (.streamJoin, calls "203.0.113.2")) s₀
        (fun _ _ => true) &&
      s₀.notifyRemovedPeers.keys.isEmpty && s.notifyRemovedPeers.keys.isEmpty &&
      (s.state.kbucket.find ⟨second, "p"⟩).isSome &&
      passes (checkPing "p" (ping second) (calls "203.0.113.2")
          ⟨"", connection "203.0.113.2", []⟩) (s.delivered "p" (.ping (ping second)))
        fun accepted _ => accepted
  | .error _ => false

end Sample

theorem Sample.pingsAgain_true :
    @pingsAgain sha256 emptyDestination library = true := by decide +kernel

theorem run_stays_connected_second :
    letI := Sample.sha256
    letI := Sample.emptyDestination
    letI := Sample.library
    ∃ s₀, create false Sample.bind [] Sample.own = .ok s₀ ∧
      Meets Internals.step (fun s _ => Connected "p" s)
        (final Internals.step s₀ ([] ++ Sample.registration))
        [Sample.tick, Sample.again, Sample.tick] ∧
      Connected "p" (final Internals.step s₀
        ([] ++ Sample.registration ++ [Sample.tick, Sample.again, Sample.tick])) := by
  let _ := Sample.sha256
  let _ := Sample.emptyDestination
  let _ := Sample.library
  have hagain := Sample.pingsAgain_true
  unfold Sample.pingsAgain at hagain
  split at hagain
  · next s₀ hs₀ =>
    simp only [Bool.and_eq_true, List.isEmpty_iff] at hagain
    obtain ⟨⟨⟨⟨hjoins, hkeys₀⟩, hkeys⟩, hfind⟩, haccepted⟩ := hagain
    obtain ⟨r, s, hrun, -⟩ := exists_of_passes hjoins
    obtain ⟨b, s', hcheck, rfl⟩ := exists_of_passes haccepted
    obtain ⟨d, hd⟩ := Option.isSome_iff_exists.mp hfind
    have hharmless : ∀ r s, Harmless "p" (Sample.connection "203.0.113.2") "p" r
        (.ping (Sample.ping Sample.second), Sample.calls "203.0.113.2") s := fun r s =>
      ⟨fun _ => ⟨fun h => (nomatch h), fun h => (nomatch h)⟩, fun h => (nomatch h)⟩
    have hremote : (Sample.connection "203.0.113.2").remote.empty = false := by decide
    refine ⟨s₀, hs₀, run_stays_connected hs₀ trivial ?_ hremote
      (.waits trivial (by decide) (.hears ?_ ?_ (.waits trivial (by decide) (.done _ _))))⟩
    · exact ⟨.stored, "", [], Sample.calls "203.0.113.2", _, ⟨"", .none, []⟩, s₀, r, s, rfl, hkeys₀,
        trivial, rfl, hrun, rfl, hharmless r s, fun _ _ _ => trivial⟩
    · intro _ q packets hbatch
      obtain ⟨rfl, rfl⟩ := Prod.mk.inj (Option.some.inj hbatch)
      exact ⟨hharmless _ _, fun _ _ _ => trivial⟩
    · exact ⟨.stored, "", [], _, [], ⟨"", .none, []⟩, _, rfl, hkeys, rfl, _, _, _, rfl,
        ⟨s', hcheck⟩, rfl, .existing hd, by decide⟩
  · cases hagain

end MeshPP.P2PSocket
