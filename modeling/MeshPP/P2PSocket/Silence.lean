import MeshPP.P2PSocket.Identity
import MeshPP.P2PSocket.TableUse

/-! # Peers that fall silent

A join and an accepted `Ping` give a peer ten steps. Nothing else gives it more,
so a peer that is not heard from is removed by the first `prepare_wait` behind
ten timer actions. -/

set_option linter.unusedSectionVars false

namespace MeshPP.P2PSocket
open MeshPP.Lib MeshPP.Kbucket

/-! ## The schedule of one peer -/

namespace CommunicationState

section
variable {T K : Type} [Inhabited T] [Inhabited K] [DecidableEq K] [CommunicationValue T K]
  [EmptyDestination] {s s' : CommunicationState T K} {p q : PeerId}
  {P Q : Option ToRemoveInfo → Prop}

/-- What the schedule notes for an item of `p` has `P`. -/
structure Timed (s : CommunicationState T K) (p : PeerId) (P : Option ToRemoveInfo → Prop) :
    Prop where
  indexed : s.Indexed
  noted : ∀ (i : Nat) (item : StateItem T), s.peers[i]? = some item → item.peer = some p →
    P (s.mapToRemove.lookup i)

theorem active_of_peer {item : StateItem T} (h : item.peer = some p) : item.active := by
  rw [StateItem.active, h]
  rfl

theorem Timed.mono (h : s.Timed p P) (hpq : ∀ info, P info → Q info) : s.Timed p Q :=
  ⟨h.indexed, fun i item hi hp => hpq _ (h.noted i item hi hp)⟩

/-- The items of `p` are where they were, and on the schedule as they were. -/
theorem Timed.of_kept (h : s.Timed p P) (hi : s'.Indexed)
    (hkept : ∀ (i : Nat) (item : StateItem T), s'.peers[i]? = some item → item.peer = some p →
      ∃ old, s.peers[i]? = some old ∧ old.peer = some p ∧
        s'.mapToRemove.lookup i = s.mapToRemove.lookup i) : s'.Timed p P := by
  refine ⟨hi, fun i item hitem hp => ?_⟩
  obtain ⟨old, hold, hpold, hr⟩ := hkept i item hitem hp
  rw [hr]
  exact h.noted i old hold hpold

/-- Another peer is made active, in the place of `p` or not. -/
theorem Timed.activated {addr : IpAddress} {value : T} {index : Nat} (h : s.Timed p P)
    (ha : Activated s s' addr q value index) (hne : q ≠ p) : s'.Timed p P := by
  refine h.of_kept ha.indexed fun i item hitem hp => ?_
  have hi : i ≠ index := by
    rintro rfl
    obtain rfl := Option.some.inj (ha.item.symm.trans hitem)
    exact hne (Option.some.inj hp)
  have hold := ha.only i item hi hitem (active_of_peer hp)
  exact ⟨item, hold, hp, ha.remove i item hold (active_of_peer hp)⟩

theorem Timed.revalued {index : Nat} {stored : StateItem T} {value : T} (h : s.Timed p P)
    (hs : s.peers[index]? = some stored) (hs' : Revalued s s' index stored value) :
    s'.Timed p P := by
  refine h.of_kept hs'.indexed fun i item hitem hp => ?_
  obtain ⟨old, hold, -, hpeer⟩ := hs'.was hs hitem
  exact ⟨old, hold, hpeer.trans hp, by rw [hs'.remove]⟩

theorem Timed.removeLater {step : Nat} {sendDrop mustNotify : Bool} (h : s.Timed p P)
    (hnew : q = p → P (some ⟨step, sendDrop, mustNotify⟩)) :
    (s.removeLater q step sendDrop mustNotify).2.Timed p P := by
  refine ⟨h.indexed.removeLater q step sendDrop mustNotify, fun i item hitem hp => ?_⟩
  rw [(s.removeLater_tables q step sendDrop mustNotify).1] at hitem
  rw [removeLater_remove]
  split
  · next hq =>
    obtain ⟨item', hitem', hpeer'⟩ := h.indexed.peerId q i hq
    obtain rfl := Option.some.inj (hitem.symm.trans hitem')
    exact hnew (Option.some.inj (hpeer'.symm.trans hp))
  · exact h.noted i item hitem hp

/-- The item that a join makes is the one that is put on the schedule behind it. -/
theorem Timed.joined {addr : IpAddress} {value : T} {index step : Nat} {sendDrop mustNotify : Bool}
    (h : s.Timed p P) (ha : Activated s s' addr p value index)
    (hnew : P (some ⟨step, sendDrop, mustNotify⟩)) :
    (s'.removeLater p step sendDrop mustNotify).2.Timed p P := by
  refine ⟨ha.indexed.removeLater p step sendDrop mustNotify, fun i item hitem hp => ?_⟩
  rw [(s'.removeLater_tables p step sendDrop mustNotify).1] at hitem
  rw [removeLater_remove, ha.peerId, if_pos rfl]
  split
  · exact hnew
  · next hi =>
    have hold := ha.only i item (fun he => hi (congrArg some he.symm)) hitem (active_of_peer hp)
    rw [ha.remove i item hold (active_of_peer hp)]
    exact h.noted i item hold hp

theorem Timed.doStep (h : s.Timed p P) (hpq : ∀ info, P info → Q (info.map ToRemoveInfo.stepped)) :
    s.doStep.Timed p Q := by
  refine ⟨h.indexed.doStep, fun i item hitem hp => ?_⟩
  rw [lookup_doStep]
  exact hpq _ (h.noted i item hitem hp)

/-- What `remove_pending` leaves was not due. -/
theorem Timed.removed {keys : List (K × Bool)} {drops : List PeerId} {indices : List Nat}
    (h : s.Timed p P) (hr : Removed s s' keys drops indices)
    (hpq : ∀ info, P info → (∀ noted, info = some noted → noted.steps ≠ 0) → Q info) :
    s'.Timed p Q := by
  refine ⟨hr.renumbered.indexed h.indexed, fun i item hitem hp => ?_⟩
  rw [hr.renumbered.peers] at hitem
  rw [hr.renumbered.remove]
  refine hpq _ (h.noted _ item hitem hp) fun noted hnoted hz => ?_
  exact beforeAll_notMem hr.sorted i ((hr.due _).mpr (due_iff.mpr ⟨noted, hnoted, hz⟩))

end

end CommunicationState

/-! ## What keeps it -/

section
variable [EmptyDestination] {s s' : CommunicationState PeerState String} {p : PeerId}
  {P : Option ToRemoveInfo → Prop}

/-- Whoever joins, it is not `p`. -/
def JoinsBut (p : PeerId) (_ : IpAddress) (q : PeerId) : Prop := q ≠ p

/-- What `p` is given has `P`. -/
def Grants (P : Option ToRemoveInfo → Prop) (p q : PeerId) (step : Nat) : Prop :=
  q = p → ∀ sendDrop mustNotify, P (some ⟨step, sendDrop, mustNotify⟩)

theorem CommunicationState.Timed.change {joins : IpAddress → PeerId → Prop} (h : s.Timed p P)
    (hjoins : ∀ addr q, joins addr q → q ≠ p) (hc : s.Change joins (Grants P p) s') :
    s'.Timed p P := by
  cases hc with
  | unmoved hu =>
    refine h.of_kept hu.indexed fun i item hitem hp => ?_
    have hold := (hu.items i item (active_of_peer hp)).mp hitem
    exact ⟨item, hold, hp, hu.remove i item hold (active_of_peer hp)⟩
  | activated hq ha => exact h.activated ha (hjoins _ _ hq)
  | revalued hs hs' => exact h.revalued hs hs'
  | scheduled sendDrop mustNotify hq hs' =>
    rw [hs']
    exact h.removeLater fun he => hq he _ _

end

section
variable [Sha256] [EmptyDestination] [Library] {s s' : Internals} {p q : PeerId}
  {P Q : Option ToRemoveInfo → Prop}

theorem borne_timed : Borne (CommunicationState.Timed · p P) (JoinsBut p) (Grants P p) :=
  ⟨fun _ h => h.indexed, fun _ _ h hop => h.change (fun _ _ hq => hq) (hop.change h.indexed)⟩

abbrev Internals.Timed (s : Internals) (p : PeerId) (P : Option ToRemoveInfo → Prop) : Prop :=
  s.table.Timed p P

/-- Behind a join the peer has ten steps, when the `Ping` that answers it can be sent. -/
theorem Internals.Timed.joins {r : Received} {calls : PacketCalls} (h : s.Timed p P)
    (hsend : calls.send 0 = true) (hten : Grants P p p 10) :
    Leaves (receiveJoin p calls r) s (fun _ s' => s'.Timed p P) fun s' => s'.Timed p P := by
  refine (borne_timed.receiveJoin h.indexed fun ha => h.joined ha (hten rfl _ _)).mono
    (fun _ _ h' => h') fun s' h' => ?_
  rcases h' with h' | heq | hfalse
  · exact h'
  · rw [Internals.Timed, heq]
    exact h
  · cases hsend.symm.trans hfalse

/-! ## Runs -/

/-- There are at most `n` steps left. -/
def Expires (n : Nat) (info : Option ToRemoveInfo) : Prop :=
  ∃ noted, info = some noted ∧ noted.steps ≤ n

def P2POp.ticks : P2POp → Nat
  | .timerAction calls => if calls.timerAction then 1 else 0
  | _ => 0

/-- How often the schedule is counted down. -/
def ticks (ops : List P2POp) : Nat := (ops.map P2POp.ticks).sum

/-- Every packet meets `C`, and `p` is not one of the peers that are listened to. -/
def Serves (p : PeerId) (C : PeerId → Received → Packet × PacketCalls → Internals → Prop)
    (s : Internals) : P2POp → Prop
  | .receive ord peer batch => ReceiveMeets C ord peer batch s
  | .prepareWait calls => calls.Joins (JoinsBut p)
  | _ => True

/-- The `Ping` that answers a join of `p` can be sent. The item of a join that throws there is
not on the schedule. -/
def Answers (p q : PeerId) (_ : Received) (x : Packet × PacketCalls) (_ : Internals) : Prop :=
  q = p → x.1 = .streamJoin → x.2.send 0 = true

/-- `p` neither joins nor delivers a `Ping` that is accepted. -/
structure Silent (p q : PeerId) (r : Received) (x : Packet × PacketCalls) (s : Internals) :
    Prop where
  join : x.1 = .streamJoin → q ≠ p
  ping : ∀ msg, x.1 = .ping msg →
    Accepted (s.delivered q x.1) q msg x.2 (r.connected x.1 x.2) → q ≠ p

theorem expires_stepped {n : Nat} {info : Option ToRemoveInfo} (h : Expires n info) :
    Expires (n - 1) (info.map ToRemoveInfo.stepped) := by
  obtain ⟨noted, rfl, hle⟩ := h
  refine ⟨noted.stepped, rfl, ?_⟩
  unfold ToRemoveInfo.stepped
  split
  · exact Nat.sub_le_sub_right hle 1
  · omega

theorem grants_expires {n step : Nat} (h : step ≤ n) : Grants (Expires n) p q step :=
  fun _ _ _ => ⟨_, rfl, h⟩

theorem expires_packet {r : Received} {x : Packet × PacketCalls} (h : s.Timed p (Expires 10))
    (hc : Answers p q r x s) :
    Leaves (receivePacket q r x) s (fun _ s' => s'.Timed p (Expires 10))
      fun s' => s'.Timed p (Expires 10) := by
  by_cases hjoin : x.1 = .streamJoin ∧ q = p
  · obtain ⟨packet, calls⟩ := x
    obtain ⟨rfl, rfl⟩ := hjoin
    have h₀ : (s.delivered q .streamJoin).Timed q (Expires 10) := h
    unfold Leaves
    rw [receivePacket_run h.indexed]
    exact h₀.joins (hc rfl rfl) (grants_expires (Nat.le_refl _))
  · exact borne_timed.packet h
      (fun hx => ⟨fun he => hjoin ⟨hx, he⟩, grants_expires (Nat.le_refl _)⟩)
      (fun _ _ _ => grants_expires (Nat.le_refl _)) fun _ => grants_expires (Nat.zero_le _)

theorem expires_timer {n : Nat} (h : s.Timed p (Expires n)) (calls : TimerCalls) :
    (s.step (.timerAction calls)).2.Timed p
      (Expires (n - P2POp.ticks (.timerAction calls))) := by
  refine outcome_of_leaves _ (borne_timed.timerAction ?_) fun _ _ h => h
  show (if calls.timerAction then s.table.doStep else s.table).Timed p
    (Expires (n - if calls.timerAction then 1 else 0))
  cases calls.timerAction with
  | true => exact CommunicationState.Timed.doStep h fun _ => expires_stepped
  | false => exact h

theorem timed_prepareWait {calls : WaitCalls} (h : s.Timed p P) (hlisten : calls.Joins (JoinsBut p))
    (hpq : ∀ info, P info → (∀ noted, info = some noted → noted.steps ≠ 0) → Q info) :
    (s.step (.prepareWait calls)).2.Timed p Q :=
  outcome_of_leaves _ (borne_timed.prepareWait h.indexed hlisten fun hr => h.removed hr hpq)
    fun _ _ h => h

theorem expires_send {n : Nat} (h : s.Timed p (Expires n)) (peer : String) (pack : SendPacket)
    (returns : Bool) : (s.step (.send peer pack returns)).2.Timed p (Expires n) :=
  outcome_of_leaves _
    (borne_timed.send returns h fun _ _ _ => grants_expires (Nat.zero_le _)) fun _ _ h => h

/-- A peer never has more than ten steps. -/
theorem expires_answers {op : P2POp} (h : s.Timed p (Expires 10))
    (hc : Serves p (Answers p) s op) : (s.step op).2.Timed p (Expires 10) := by
  cases op with
  | receive ord peer batch =>
    exact outcome_of_leaves _ (leaves_receive (J := (CommunicationState.Timed · p _)) h hc
      fun _ _ _ _ hx hs => expires_packet hs hx) fun _ _ h => h
  | prepareWait calls => exact timed_prepareWait h hc fun _ h _ => h
  | send peer pack returns => exact expires_send h peer pack returns
  | timerAction calls =>
    exact (expires_timer h calls).mono fun _ ⟨noted, hnoted, hle⟩ =>
      ⟨noted, hnoted, hle.trans (Nat.sub_le _ _)⟩

/-- A peer that is silent has a step less behind every timer action. -/
theorem expires_silent {n : Nat} {op : P2POp} (h : s.Timed p (Expires n))
    (hc : Serves p (Silent p) s op) : (s.step op).2.Timed p (Expires (n - op.ticks)) := by
  cases op with
  | receive ord peer batch =>
    refine outcome_of_leaves _ (leaves_receive (J := (CommunicationState.Timed · p _)) h hc
      fun q r x s hx hs => ?_) fun _ _ h => h
    exact borne_timed.packet hs (fun hm => ⟨hx.join hm, fun he => absurd he (hx.join hm)⟩)
      (fun msg hm ha he => absurd he (hx.ping msg hm ha)) fun _ => grants_expires (Nat.zero_le _)
  | prepareWait calls => exact timed_prepareWait h hc fun _ h _ => h
  | send peer pack returns => exact expires_send h peer pack returns
  | timerAction calls => exact expires_timer h calls

theorem run_expires {n : Nat} {ops : List P2POp} (h : s.Timed p (Expires n))
    (hm : Meets Internals.step (Serves p (Silent p)) s ops) :
    (final Internals.step s ops).Timed p (Expires (n - ticks ops)) := by
  induction ops generalizing s n with
  | nil => exact h
  | cons op ops ih =>
    have hrest := ih (expires_silent h hm.1) hm.2
    rw [Nat.sub_sub] at hrest
    exact hrest

/-! ## The removal -/

/-- `p` has no item left, the node that it was known as is no contact, and the application is
to be told that it left. -/
structure Expelled (p : PeerId) (s s' : Internals) : Prop where
  gone : ∀ (i : Nat) (item : StateItem PeerState), s'.state.itemAt i = some item →
    item.peer ≠ some p
  forgotten : s.state.nodeOf p ≠ "" → s'.state.getPeerId (s.state.nodeOf p) = none
  reported : s.state.nodeOf p ≠ "" → s.state.noticeOf p →
    s.state.nodeOf p ∈ s'.notifyRemovedPeers

/-- Behind `remove_pending` nobody is forgotten and nobody is noted. -/
theorem attend_keeps (hi : s.state.Indexed) (calls : WaitCalls) :
    Leaves (attend calls) s (fun _ s' => s'.state.kbucket = s.state.kbucket ∧
        s'.notifyRemovedPeers = s.notifyRemovedPeers)
      fun s' => s'.state.kbucket = s.state.kbucket ∧
        s'.notifyRemovedPeers = s.notifyRemovedPeers := by
  let I (s' : Internals) : Prop := s'.state.Indexed ∧ s'.state.kbucket = s.state.kbucket ∧
    s'.notifyRemovedPeers = s.notifyRemovedPeers
  have hsteady : Steady I fun _ _ _ => True :=
    ⟨fun _ h => h.1,
      fun _ _ h hc => ⟨(hc.state h.1).indexed, (hc.state h.1).kbucket.trans h.2.1,
        hc.notify.trans h.2.2⟩,
      fun _ _ _ _ h _ ha => ⟨(ha.state h.1).indexed, (ha.state h.1).kbucket.trans h.2.1,
        ha.notify.trans h.2.2⟩⟩
  have hends : Ends (Frame.keeps I) (attend calls) s fun _ _ => True := by
    refine ends_attend (fun _ => trivial) (fun x s₁ => ends_keeps fun h => ?_)
      (fun toConnect s₁ => ends_keeps fun h => ?_) fun x s₁ => ends_keeps fun h => ?_
    · exact (hsteady.listenOn h calls x fun peers _ =>
        foldMeets_of_forall (fun _ _ _ _ _ => trivial) _ _ _).mono fun _ _ _ _ => trivial
    · exact (hsteady.keeps_calm h (calm_reconnect calls toConnect)).mono fun _ _ _ _ => trivial
    · exact (hsteady.keeps_calm h (calm_openTo calls x)).mono fun _ _ _ _ => trivial
  exact hends.leaves.mono (fun _ _ h => (h.1 ⟨hi, rfl, rfl⟩).2) fun _ h => (h ⟨hi, rfl, rfl⟩).2

theorem Internals.Timed.dueOf (h : s.Timed p (Expires 0)) (hn : s.state.nodeOf p ≠ "") :
    s.state.dueOf p := by
  obtain ⟨i, hi⟩ := Option.isSome_iff_exists.mp (P2PState.slot_of_nodeOf hn)
  obtain ⟨item, hitem, hp⟩ := P2PState.Indexed.itemAt h.indexed hi
  obtain ⟨noted, hnoted, hz⟩ := h.noted i item hitem hp
  rw [P2PState.dueOf, hi]
  exact CommunicationState.due_iff.mpr ⟨noted, hnoted, Nat.le_zero.mp hz⟩

/-- Whether or not it returns, `prepare_wait` erases the nodes of the peers that are due, and
notes those that are to be told of. -/
theorem prepareWait_clears (hi : s.state.Indexed) (calls : WaitCalls) :
    ∃ keys t, P2PState.Clears s.state t keys ∧
      (s.step (.prepareWait calls)).2.state.kbucket = t.kbucket ∧
      ∀ nodeid, (nodeid, true) ∈ keys →
        nodeid ∈ (s.step (.prepareWait calls)).2.notifyRemovedPeers := by
  obtain ⟨keys, drops, indices, s₁, hclears, -, hnoted, hrun⟩ := removePending_run hi calls
  let R (s' : Internals) : Prop := s'.state.kbucket = s₁.state.kbucket ∧
    s'.notifyRemovedPeers = s₁.notifyRemovedPeers
  have hremoved : Leaves (removePending calls) s (fun _ s' => s'.state.Indexed ∧ R s') R := by
    have hcalm := (calm_foldlM (fun q _ => calm_dropRemoved calls q) drops (s := s₁)).leaves
    unfold Leaves
    rw [hrun]
    exact hcalm.mono
      (fun _ s' h => ⟨(h.1.state hclears.indexed).indexed, (h.1.state hclears.indexed).kbucket,
        h.1.notify⟩)
      fun s' h => ⟨(h.state hclears.indexed).kbucket, h.notify⟩
  have hwait : Leaves (prepareWait calls) s (fun _ s' => R s') R := by
    rw [prepareWait_eq]
    refine hremoved.bind fun _ s₂ _ h₂ => ?_
    exact (attend_keeps h₂.1 calls).mono
      (fun _ s' h => ⟨h.1.trans h₂.2.1, h.2.trans h₂.2.2⟩)
      fun s' h => ⟨h.1.trans h₂.2.1, h.2.trans h₂.2.2⟩
  have hend := outcome_of_leaves (fun _ => P2POut.done) hwait fun _ _ h => h
  exact ⟨keys, s₁.state, hclears, hend.1, fun nodeid hm => hend.2 ▸ hnoted nodeid hm⟩

theorem expelled_prepareWait {selfId : String} {calls : WaitCalls} (h : s.Timed p (Expires 0))
    (hs : Owned selfId s) (hlisten : calls.Joins (JoinsBut p)) :
    Expelled p s (s.step (.prepareWait calls)).2 := by
  obtain ⟨keys, t, hclears, hbucket, hnoted⟩ := prepareWait_clears h.indexed calls
  have hkey : s.state.nodeOf p ≠ "" → (s.state.nodeOf p, s.state.noticeOf p) ∈ keys :=
    fun hn => hclears.keyOf p (h.dueOf hn) hn
  have hgone : (s.step (.prepareWait calls)).2.Timed p fun _ => False := by
    refine timed_prepareWait h hlisten fun info hinfo hnot => ?_
    obtain ⟨noted, hnoted, hz⟩ := hinfo
    exact hnot noted hnoted (Nat.le_zero.mp hz)
  refine ⟨hgone.noted, fun hn => ?_, fun hn hnotice => hnoted _ (hnotice ▸ hkey hn)⟩
  refine Option.map_eq_none_iff.mpr (KBucket.find_eq_none.mpr fun c hc => ?_)
  rw [hbucket, hclears.kbucket] at hc
  exact ((P2PState.mem_eraseContacts hs.sound.distinct keys c).mp hc).2 _ (hkey hn)

end

section
variable [Sha256] [EmptyDestination] [Library]

/-- A new node has no active items. -/
theorem timed_create {discoveryServer : Bool} {bindToAddress : IpAddress}
    {connectToAddresses : List IpAddress} {selfId : String} {s₀ : Internals}
    (h : create discoveryServer bindToAddress connectToAddresses selfId = .ok s₀) (p : PeerId)
    (P : Option ToRemoveInfo → Prop) : s₀.Timed p P := by
  obtain ⟨hsame, -, -⟩ := create_same h
  refine ⟨hsame.indexed, fun i item hitem hp => ?_⟩
  have hslot := hsame.found (peerFound_init selfId) i item p hitem hp
  cases (hsame.slot p).symm.trans hslot

/-- A peer that stays silent while the schedule is counted down ten times is removed by the
next `prepare_wait`, whatever it did before. -/
theorem run_expels {discoveryServer : Bool} {bindToAddress : IpAddress}
    {connectToAddresses : List IpAddress} {selfId : String} {s₀ : Internals} {p : PeerId}
    {before after : List P2POp} {calls : WaitCalls}
    (h : create discoveryServer bindToAddress connectToAddresses selfId = .ok s₀)
    (hbefore : Meets Internals.step (Serves p (Answers p)) s₀ before)
    (hafter : Meets Internals.step (Serves p (Silent p)) (final Internals.step s₀ before) after)
    (hticks : 10 ≤ ticks after) (hlisten : calls.Joins (JoinsBut p)) :
    Expelled p (final Internals.step s₀ (before ++ after))
      (final Internals.step s₀ (before ++ after ++ [.prepareWait calls])) := by
  have howned : Owned selfId (final Internals.step s₀ (before ++ after)) :=
    bears_owned.final (owned_create h) (meets_of_forall stepMeets_none _ _)
  have hkept : ∀ (s : Internals) op, s.Timed p (Expires 10) → Serves p (Answers p) s op →
      (Internals.step s op).2.Timed p (Expires 10) := fun _ _ hs hc => expires_answers hs hc
  have hten := invariant_final hkept (timed_create h p _) hbefore
  have hzero := run_expires hten hafter
  rw [← final_append, Nat.sub_eq_zero_of_le hticks] at hzero
  rw [final_append _ _ (before ++ after)]
  exact expelled_prepareWait hzero howned hlisten

end

/-! ## A peer that registers and falls silent -/

namespace Sample
variable [Sha256] [EmptyDestination] [Library]

def registration : List P2POp := [deliver [.streamJoin, .ping (ping second)]]

/-- A timer action whose pings are sent. -/
def tick : P2POp :=
  .timerAction ⟨true, fun _ => some (connection "203.0.113.2"), fun _ => true, fun _ => time⟩

def wait : WaitCalls where
  ord := .stored
  sendDrop _ := true
  listen _ := none
  connectTimerExpired := false
  reconnectTimerExpired := false
  «open» _ := true
  prepareWait := true

/-- Ten timer actions later the peer is still known, and it is to be told of. -/
def lingers : Bool :=
  match create false bind [] own with
  | .ok s₀ =>
    let t := (final Internals.step s₀ (registration ++ List.replicate 10 tick)).state
    t.nodeOf "p" = second && t.noticeOf "p"
  | .error _ => false

end Sample

theorem Sample.lingers_true :
    @lingers sha256 emptyDestination library = true := by decide +kernel

theorem run_expels_second :
    letI := Sample.sha256
    letI := Sample.emptyDestination
    letI := Sample.library
    ∃ s₀, create false Sample.bind [] Sample.own = .ok s₀ ∧
      (final Internals.step s₀ (Sample.registration ++ List.replicate 10 Sample.tick)).state.nodeOf
        "p" = Sample.second ∧
      Expelled "p" (final Internals.step s₀ (Sample.registration ++ List.replicate 10 Sample.tick))
        (final Internals.step s₀ (Sample.registration ++ List.replicate 10 Sample.tick ++
          [.prepareWait Sample.wait])) := by
  let _ := Sample.sha256
  let _ := Sample.emptyDestination
  let _ := Sample.library
  have hlingers := Sample.lingers_true
  unfold Sample.lingers at hlingers
  split at hlingers
  · next s₀ hs₀ =>
    rw [Bool.and_eq_true, decide_eq_true_iff] at hlingers
    refine ⟨s₀, hs₀, hlingers.1, run_expels hs₀ ?_ ?_ (by decide) fun i peers h => nomatch h⟩
    · refine ⟨fun _ q packets hbatch => ?_, trivial⟩
      obtain ⟨rfl, rfl⟩ := Prod.mk.inj (Option.some.inj hbatch)
      exact ⟨fun _ _ => rfl, fun _ _ _ => ⟨fun _ hjoin => (nomatch hjoin), fun _ _ _ => trivial⟩⟩
    · exact ⟨trivial, trivial, trivial, trivial, trivial, trivial, trivial, trivial, trivial,
        trivial, trivial⟩
  · cases hlingers

end MeshPP.P2PSocket
