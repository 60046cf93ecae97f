import MeshPP.P2PSocket.P2PState

/-! # The table of peers, seen from a peer

For a peer the table holds the id of its node (`nodeOf`) and whether the
application is to be told when it is removed (`noticeOf`). Most operations leave
the active items alone (`Same`); the others are described by what they do to
these two. -/

set_option linter.unusedSectionVars false

namespace MeshPP.P2PSocket
open MeshPP.Lib MeshPP.Kbucket

namespace P2PState
variable [Sha256] [EmptyDestination]

abbrev Indexed (t : P2PState) : Prop := t.programState.Indexed

abbrev PeerFound (t : P2PState) : Prop := ∀ i, t.programState.PeerFound i

/-- The position of a peer's item. -/
def slot (t : P2PState) (p : PeerId) : Option Nat := t.programState.mapByPeerId.lookup p

def itemAt (t : P2PState) (i : Nat) : Option (StateItem PeerState) := t.programState.peers[i]?

def noticeAt (t : P2PState) (i : Nat) : Bool :=
  (t.programState.mapToRemove.lookup i).any ToRemoveInfo.mustNotify

/-- What `get_nodeid` returns. -/
def nodeOf (t : P2PState) (p : PeerId) : String :=
  ((t.slot p).bind t.itemAt).elim "" fun item => item.value.nodeId

def noticeOf (t : P2PState) (p : PeerId) : Bool := (t.slot p).any t.noticeAt

/-- The passive items have no node. -/
def Unnamed (t : P2PState) : Prop :=
  ∀ (i : Nat) (item : StateItem PeerState), t.itemAt i = some item → item.peer = none →
    item.value.nodeId = ""

def dueOf (t : P2PState) (p : PeerId) : Bool := (t.slot p).any t.programState.due

theorem Indexed.itemAt {t : P2PState} (h : t.Indexed) {p : PeerId} {i : Nat}
    (hs : t.slot p = some i) : ∃ item, t.itemAt i = some item ∧ item.peer = some p :=
  h.peerId p i hs

theorem nodeOf_of_slot {t : P2PState} {p : PeerId} {i : Nat} {item : StateItem PeerState}
    (hs : t.slot p = some i) (hi : t.itemAt i = some item) : t.nodeOf p = item.value.nodeId := by
  rw [nodeOf, hs, Option.bind_some, hi]
  rfl

theorem nodeOf_of_slot_none {t : P2PState} {p : PeerId} (hs : t.slot p = none) :
    t.nodeOf p = "" := by
  rw [nodeOf, hs]
  rfl

theorem noticeOf_of_slot {t : P2PState} {p : PeerId} {i : Nat} (hs : t.slot p = some i) :
    t.noticeOf p = t.noticeAt i := by
  rw [noticeOf, hs]
  rfl

theorem noticeOf_of_slot_none {t : P2PState} {p : PeerId} (hs : t.slot p = none) :
    t.noticeOf p = false := by
  rw [noticeOf, hs]
  rfl

theorem slot_of_nodeOf {t : P2PState} {p : PeerId} (h : t.nodeOf p ≠ "") : (t.slot p).isSome := by
  cases hs : t.slot p with
  | none => exact absurd (nodeOf_of_slot_none hs) h
  | some i => rfl

theorem getNodeid_eq {t : P2PState} (h : t.Indexed) (p : PeerId) :
    t.getNodeid p = .ok (t.nodeOf p) := by
  cases hs : t.slot p with
  | none =>
    rw [nodeOf_of_slot_none hs]
    have hv : t.programState.getActiveValue p = .ok none := by
      rw [slot] at hs
      unfold CommunicationState.getActiveValue
      rw [hs]
      rfl
    exact ok_bind hv _
  | some i =>
    obtain ⟨item, hi, -⟩ := h.itemAt hs
    rw [nodeOf_of_slot hs hi]
    have hv : t.programState.getActiveValue p = .ok (some item.value) := by
      rw [slot] at hs
      unfold CommunicationState.getActiveValue
      rw [hs]
      exact ok_bind (CommunicationState.item_eq hi) _
    exact ok_bind hv _

/-! ## Operations that leave the active items alone -/

structure Same (t t' : P2PState) : Prop where
  kbucket : t'.kbucket = t.kbucket
  selfId : t'.selfId = t.selfId
  indexed : t'.Indexed
  found : t.PeerFound → t'.PeerFound
  unnamed : t.Unnamed → t'.Unnamed
  slot : ∀ p, t'.slot p = t.slot p
  kept : ∀ (i : Nat) (item : StateItem PeerState), t.itemAt i = some item → item.active →
    t'.itemAt i = some item ∧ t'.noticeAt i = t.noticeAt i

theorem Same.refl {t : P2PState} (h : t.Indexed) : Same t t :=
  ⟨rfl, rfl, h, id, id, fun _ => rfl, fun _ _ hi _ => ⟨hi, rfl⟩⟩

theorem Same.trans {t t' t'' : P2PState} (h : Same t t') (h' : Same t' t'') : Same t t'' := by
  refine ⟨h'.kbucket.trans h.kbucket, h'.selfId.trans h.selfId, h'.indexed,
    fun hf => h'.found (h.found hf), fun hn => h'.unnamed (h.unnamed hn),
    fun p => (h'.slot p).trans (h.slot p), fun i item hi ha => ?_⟩
  obtain ⟨hi', hn⟩ := h.kept i item hi ha
  obtain ⟨hi'', hn'⟩ := h'.kept i item hi' ha
  exact ⟨hi'', hn'.trans hn⟩

theorem Same.nodeOf {t t' : P2PState} (h : Same t t') (hi : t.Indexed) (p : PeerId) :
    t'.nodeOf p = t.nodeOf p := by
  cases hs : t.slot p with
  | none => rw [nodeOf_of_slot_none hs, nodeOf_of_slot_none ((h.slot p).trans hs)]
  | some i =>
    obtain ⟨item, hitem, hp⟩ := hi.itemAt hs
    have hitem' := (h.kept i item hitem (by rw [StateItem.active, hp]; rfl)).1
    rw [nodeOf_of_slot hs hitem, nodeOf_of_slot ((h.slot p).trans hs) hitem']

theorem Same.noticeOf {t t' : P2PState} (h : Same t t') (hi : t.Indexed) (p : PeerId) :
    t'.noticeOf p = t.noticeOf p := by
  cases hs : t.slot p with
  | none => rw [noticeOf_of_slot_none hs, noticeOf_of_slot_none ((h.slot p).trans hs)]
  | some i =>
    obtain ⟨item, hitem, hp⟩ := hi.itemAt hs
    rw [noticeOf_of_slot hs, noticeOf_of_slot ((h.slot p).trans hs)]
    exact (h.kept i item hitem (by rw [StateItem.active, hp]; rfl)).2

/-- Only what the bucket and the table do not hold changes. -/
theorem same_of_eq {t t' : P2PState} (h : t.Indexed) (hb : t'.kbucket = t.kbucket)
    (hs : t'.selfId = t.selfId) (hp : t'.programState = t.programState) : Same t t' := by
  refine ⟨hb, hs, ?_, ?_, ?_, fun p => ?_, fun i item hi _ => ?_⟩
  · unfold Indexed
    rw [hp]
    exact h
  · unfold PeerFound
    rw [hp]
    exact id
  · unfold Unnamed P2PState.itemAt
    rw [hp]
    exact id
  · rw [P2PState.slot, P2PState.slot, hp]
  · rw [itemAt, noticeAt, hp]
    exact ⟨hi, rfl⟩

theorem same_of_quiet {t : P2PState} {table : CommunicationState PeerState String}
    (hi : table.Indexed) (h : t.programState.Quiet table)
    (hn : t.Unnamed → { t with programState := table }.Unnamed) :
    Same t { t with programState := table } := by
  refine ⟨rfl, rfl, hi, fun hf => h.peerFound hf, hn, fun p => ?_, fun i item hitem ha => ?_⟩
  · rw [slot, slot, h.peerId]
  · obtain ⟨hitem', hr⟩ := h.kept i item hitem ha
    exact ⟨hitem', by rw [noticeAt, noticeAt, hr]⟩

theorem Unnamed.of_addPassive {t : P2PState} {addr : IpAddress} {value : PeerState}
    {code : InsertCode} {table : CommunicationState PeerState String}
    (hadd : t.programState.addPassive addr value = .ok (code, table)) (hv : value.nodeId = "")
    (h : t.Unnamed) : { t with programState := table }.Unnamed := by
  intro i item hi hp
  rcases CommunicationState.item_addPassive hadd hi with rfl | hd | hi
  · exact hv
  · rw [hd]
    rfl
  · exact h i item hi hp

theorem Indexed.addPassive {t : P2PState} (h : t.Indexed) (addr : IpAddress) :
    ∃ t', t.addPassive addr = .ok t' ∧ Same t t' := by
  obtain ⟨code, table, index, hadd, hp⟩ := CommunicationState.Indexed.addPassive h addr default
  exact ⟨_, ok_bind hadd _, same_of_quiet hp.indexed hp.quiet (.of_addPassive hadd rfl)⟩

theorem Indexed.addPassiveAttempts {t : P2PState} (h : t.Indexed) (addr : IpAddress)
    (openAttempts : Nat) : ∃ t', t.addPassiveAttempts addr openAttempts = .ok t' ∧ Same t t' := by
  obtain ⟨code, table, index, hadd, hp⟩ := CommunicationState.Indexed.addPassive h addr
    { (default : PeerState) with openAttempts }
  exact ⟨_, ok_bind hadd _, same_of_quiet hp.indexed hp.quiet (.of_addPassive hadd rfl)⟩

theorem Indexed.removeFromTodoList {t : P2PState} (h : t.Indexed) (addr : IpAddress) :
    Same t (t.removeFromTodoList addr) := by
  refine same_of_quiet (CommunicationState.Indexed.removeFromTodoList h addr) ?_ fun hn => ?_
  · unfold CommunicationState.removeFromTodoList
    split
    · exact .refl _
    · exact ⟨rfl, fun _ _ hi _ => ⟨hi, rfl⟩, fun _ _ hi _ => hi, fun _ _ hi => hi⟩
  · unfold CommunicationState.removeFromTodoList
    split <;> exact hn

/-- The removal of a passive item is scheduled. -/
theorem Indexed.removeLaterAddress {t : P2PState} (h : t.Indexed) (addr : IpAddress) (step : Nat)
    (mustNotify : Bool) :
    ∃ t', t.removeLaterAddress addr step false true mustNotify = .ok t' ∧ Same t t' := by
  obtain ⟨b, table, hrun, hi, htable⟩ :=
    CommunicationState.Indexed.removeLaterAddress h addr step true mustNotify
  refine ⟨{ t with programState := table }, ok_bind hrun _, ?_⟩
  rcases htable with rfl | ⟨index, rfl, -, hpassive⟩
  · exact .refl h
  · obtain ⟨stored, hs, hp⟩ := hpassive rfl
    refine ⟨rfl, rfl, hi, id, id, fun _ => rfl, fun i item hitem ha => ⟨hitem, ?_⟩⟩
    have hne : i ≠ index := by
      rintro rfl
      obtain rfl := Option.some.inj (hs.symm.trans hitem)
      rw [StateItem.active, hp] at ha
      cases ha
    rw [noticeAt, noticeAt, UMap.lookup_insert, if_neg hne]

theorem Indexed.doStep {t : P2PState} (h : t.Indexed) : Same t t.doStep := by
  refine ⟨rfl, rfl, CommunicationState.Indexed.doStep h, id, id, fun _ => rfl,
    fun i item hi _ => ⟨hi, ?_⟩⟩
  show (t.programState.doStep.mapToRemove.lookup i).any _ = _
  rw [CommunicationState.lookup_doStep, noticeAt]
  cases t.programState.mapToRemove.lookup i with
  | none => rfl
  | some info =>
    show info.stepped.mustNotify = info.mustNotify
    unfold ToRemoveInfo.stepped
    split <;> rfl

/-! ## Operations on one peer -/

/-- The removal of the item of `p` is scheduled. -/
structure Scheduled (t t' : P2PState) (p : PeerId) (notice : Bool) : Prop where
  kbucket : t'.kbucket = t.kbucket
  selfId : t'.selfId = t.selfId
  indexed : t'.Indexed
  found : t.PeerFound → t'.PeerFound
  slot : ∀ q, t'.slot q = t.slot q
  itemAt : ∀ i, t'.itemAt i = t.itemAt i
  noticeOf : ∀ q, t'.noticeOf q = if q = p ∧ (t.slot p).isSome then notice else t.noticeOf q

theorem removeLater_none {t : P2PState} {p : PeerId} (hs : t.slot p = none) (step : Nat)
    (sendDrop mustNotify : Bool) : t.removeLater p step sendDrop mustNotify = t := by
  rw [slot] at hs
  unfold P2PState.removeLater CommunicationState.removeLater
  rw [hs]

theorem removeLater_some {t : P2PState} {p : PeerId} {i : Nat} (hs : t.slot p = some i)
    (step : Nat) (sendDrop mustNotify : Bool) : t.removeLater p step sendDrop mustNotify =
      { t with programState := { t.programState with
        mapToRemove := t.programState.mapToRemove.insert i ⟨step, sendDrop, mustNotify⟩ } } := by
  rw [slot] at hs
  unfold P2PState.removeLater CommunicationState.removeLater
  rw [hs]

theorem Indexed.slot_inj {t : P2PState} (h : t.Indexed) {p q : PeerId} {i : Nat}
    (hp : t.slot p = some i) (hq : t.slot q = some i) : p = q := by
  obtain ⟨item, hitem, hpeer⟩ := h.itemAt hp
  obtain ⟨item', hitem', hpeer'⟩ := h.itemAt hq
  obtain rfl := Option.some.inj (hitem.symm.trans hitem')
  exact Option.some.inj (hpeer.symm.trans hpeer')

theorem Indexed.removeLater {t : P2PState} (h : t.Indexed) (p : PeerId) (step : Nat)
    (sendDrop mustNotify : Bool) :
    Scheduled t (t.removeLater p step sendDrop mustNotify) p mustNotify := by
  have hi : (t.removeLater p step sendDrop mustNotify).Indexed :=
    CommunicationState.Indexed.removeLater h p step sendDrop mustNotify
  cases hs : t.slot p with
  | none =>
    rw [removeLater_none hs] at hi ⊢
    refine ⟨rfl, rfl, hi, id, fun _ => rfl, fun _ => rfl, fun q => ?_⟩
    rw [hs, if_neg (by simp)]
  | some index =>
    have hrun := removeLater_some hs step sendDrop mustNotify
    generalize t.removeLater p step sendDrop mustNotify = t' at hi hrun ⊢
    have hslot : ∀ q, t'.slot q = t.slot q := fun q => by rw [hrun]; rfl
    have hnotice : ∀ i, t'.noticeAt i = if i = index then mustNotify else t.noticeAt i := by
      intro i
      rw [hrun, noticeAt, UMap.lookup_insert]
      split <;> rfl
    refine ⟨by rw [hrun], by rw [hrun], hi, fun hf => by rw [hrun]; exact hf, hslot,
      fun i => by rw [hrun]; rfl, fun q => ?_⟩
    rw [hs]
    by_cases hq : q = p
    · subst hq
      rw [if_pos ⟨rfl, rfl⟩, noticeOf_of_slot ((hslot q).trans hs), hnotice, if_pos rfl]
    · rw [if_neg fun hc => hq hc.1]
      cases hsq : t.slot q with
      | none => rw [noticeOf_of_slot_none hsq, noticeOf_of_slot_none ((hslot q).trans hsq)]
      | some i =>
        have hne : i ≠ index := by
          rintro rfl
          exact hq (h.slot_inj hsq hs)
        rw [noticeOf_of_slot hsq, noticeOf_of_slot ((hslot q).trans hsq), hnotice, if_neg hne]

theorem Scheduled.nodeOf {t t' : P2PState} {p : PeerId} {notice : Bool}
    (h : Scheduled t t' p notice) (q : PeerId) : t'.nodeOf q = t.nodeOf q := by
  unfold P2PState.nodeOf
  rw [h.slot]
  cases t.slot q with
  | none => rfl
  | some i => rw [Option.bind_some, Option.bind_some, h.itemAt]

theorem Scheduled.unnamed {t t' : P2PState} {p : PeerId} {notice : Bool}
    (h : Scheduled t t' p notice) (hn : t.Unnamed) : t'.Unnamed :=
  fun i item hi => hn i item ((h.itemAt i).symm.trans hi)

/-- The item of `p`, if there is one, gets the node `nodeid`. -/
structure Named (t t' : P2PState) (p : PeerId) (nodeid : String) : Prop where
  kbucket : t'.kbucket = t.kbucket
  selfId : t'.selfId = t.selfId
  indexed : t'.Indexed
  found : t.PeerFound → t'.PeerFound
  slot : ∀ q, t'.slot q = t.slot q
  noticeAt : ∀ i, t'.noticeAt i = t.noticeAt i
  itemAt : ∀ i, t.slot p ≠ some i → t'.itemAt i = t.itemAt i
  item : ∀ (i : Nat) (item : StateItem PeerState), t.slot p = some i → t.itemAt i = some item →
    ∃ value : PeerState, value.nodeId = nodeid ∧ t'.itemAt i = some { item with value }

theorem Indexed.setActiveNodeid {t : P2PState} (h : t.Indexed) (p : PeerId) (nodeid : String) :
    ∃ t', t.setActiveNodeid p nodeid = .ok t' ∧ Named t t' p nodeid := by
  let value : PeerState := { (default : PeerState) with nodeId := nodeid }
  obtain ⟨hnone, hrun⟩ | ⟨index, stored, table, hs, hstored, hrun, htable⟩ :=
    CommunicationState.Indexed.setActiveValue h p value
  · refine ⟨_, ok_bind hrun _, rfl, rfl, h, id, fun _ => rfl, fun _ => rfl, fun _ _ => rfl,
      fun i item hi => ?_⟩
    rw [slot, hnone] at hi
    cases hi
  · have hlt : index < t.programState.peers.length := (List.getElem?_eq_some_iff.mp hstored).1
    refine ⟨_, ok_bind hrun _, rfl, rfl, htable.indexed, fun hf => htable.peerFound hstored hf,
      fun q => ?_, fun i => ?_, fun i hi => ?_, fun i item hi hitem => ⟨value, rfl, ?_⟩⟩
    · rw [slot, slot, htable.peerId]
    · rw [P2PState.noticeAt, P2PState.noticeAt, htable.remove]
    · rw [slot, hs] at hi
      rw [P2PState.itemAt, htable.peers, List.getElem?_set_ne fun he => hi (congrArg some he)]
      rfl
    · obtain rfl := Option.some.inj (hs.symm.trans hi)
      obtain rfl := Option.some.inj (hstored.symm.trans hitem)
      rw [P2PState.itemAt, htable.peers, List.getElem?_set_self hlt]

theorem Named.nodeOf {t t' : P2PState} {p : PeerId} {nodeid : String} (h : Named t t' p nodeid)
    (hi : t.Indexed) (q : PeerId) :
    t'.nodeOf q = if q = p ∧ (t.slot p).isSome then nodeid else t.nodeOf q := by
  cases hs : t.slot q with
  | none =>
    rw [nodeOf_of_slot_none ((h.slot q).trans hs), nodeOf_of_slot_none hs, if_neg]
    rintro ⟨rfl, hsome⟩
    rw [hs] at hsome
    cases hsome
  | some i =>
    obtain ⟨item, hitem, -⟩ := hi.itemAt hs
    by_cases hq : q = p
    · subst hq
      obtain ⟨value, hv, hitem'⟩ := h.item i item hs hitem
      rw [nodeOf_of_slot ((h.slot q).trans hs) hitem', if_pos ⟨rfl, by rw [hs]; rfl⟩]
      exact hv
    · have hne : t.slot p ≠ some i := fun hp => hq (hi.slot_inj hs hp)
      rw [nodeOf_of_slot ((h.slot q).trans hs) ((h.itemAt i hne).trans hitem),
        nodeOf_of_slot hs hitem, if_neg fun hc => hq hc.1]

theorem Named.unnamed {t t' : P2PState} {p : PeerId} {nodeid : String} (h : Named t t' p nodeid)
    (hi : t.Indexed) (hn : t.Unnamed) : t'.Unnamed := by
  intro i item hitem hp
  by_cases hs : t.slot p = some i
  · obtain ⟨stored, hstored, hpeer⟩ := hi.itemAt hs
    obtain ⟨value, -, hitem'⟩ := h.item i stored hs hstored
    obtain rfl := Option.some.inj (hitem'.symm.trans hitem)
    cases hpeer.symm.trans hp
  · exact hn i item ((h.itemAt i hs).symm.trans hitem) hp

theorem Named.noticeOf {t t' : P2PState} {p : PeerId} {nodeid : String} (h : Named t t' p nodeid)
    (q : PeerId) : t'.noticeOf q = t.noticeOf q := by
  unfold P2PState.noticeOf
  rw [h.slot]
  cases t.slot q with
  | none => rfl
  | some i => exact h.noticeAt i

/-! ## A new active item -/

/-- The item that `addr` leads to. -/
def holder (t : P2PState) (addr : IpAddress) : Option (StateItem PeerState) :=
  (t.programState.mapByAddress.lookup (addressKey addr)).bind t.itemAt

/-- `addr` gets an active item of `p`, and who held it before loses its place. -/
structure Activates (t t' : P2PState) (addr : IpAddress) (p : PeerId) : Prop where
  kbucket : t'.kbucket = t.kbucket
  selfId : t'.selfId = t.selfId
  indexed : t'.Indexed
  found : t.slot p = none → t.PeerFound → t'.PeerFound
  unnamed : t.Unnamed → t'.Unnamed
  nodeOf : ∀ q, t'.nodeOf q =
    if q = p ∨ (t.holder addr).bind StateItem.peer = some q then "" else t.nodeOf q
  noticeOf : ∀ q, q ≠ p → (t.holder addr).bind StateItem.peer ≠ some q →
    t'.noticeOf q = t.noticeOf q
  kept : ∀ (i : Nat) (item : StateItem PeerState), t.itemAt i = some item → item.active →
    t.holder addr ≠ some item → t'.itemAt i = some item

theorem Unnamed.addActive {t t' : P2PState} {addr : IpAddress} {p : PeerId} (h : t.Unnamed)
    (hadd : t.addActive addr p = .ok t') : t'.Unnamed := by
  obtain ⟨⟨code, table⟩, htable, ht'⟩ := ok_of_bind hadd
  obtain rfl := Except.ok.inj ht'
  intro i item hi hp
  rcases CommunicationState.item_addActive htable hi hp with hd | hi
  · rw [hd]
    rfl
  · exact h i item hi hp

section
variable {t : P2PState} {table : CommunicationState PeerState String} {addr : IpAddress}
  {p : PeerId} {index : Nat}

theorem itemAt_activated (ha : t.programState.Activated table addr p default index)
    {item : StateItem PeerState} (hi : t.itemAt index = some item) (hact : item.active) :
    t.holder addr = some item := by
  rcases ha.fresh with hl | hpassive
  · rw [holder, hl, Option.bind_some, hi]
  · rw [StateItem.active, hpassive item hi] at hact
    cases hact

theorem holder_activated (ha : t.programState.Activated table addr p default index) (q : PeerId) :
    (t.itemAt index).bind StateItem.peer = some q ↔
      (t.holder addr).bind StateItem.peer = some q := by
  constructor
  · intro h
    obtain ⟨item, hi, hp⟩ := Option.bind_eq_some_iff.mp h
    rw [itemAt_activated ha hi (by rw [StateItem.active, hp]; rfl)]
    exact hp
  · intro h
    obtain ⟨item, hi, hp⟩ := Option.bind_eq_some_iff.mp h
    obtain ⟨i, hl, hi⟩ := Option.bind_eq_some_iff.mp hi
    obtain rfl := ha.known i hl
    rw [hi]
    exact hp

theorem slot_activated (ha : t.programState.Activated table addr p default index) (q : PeerId) :
    { t with programState := table }.slot q = if q = p then some index
      else if (t.holder addr).bind StateItem.peer = some q then none else t.slot q := by
  refine (ha.peerId q).trans ?_
  simp only [← holder_activated ha q]
  rfl

/-- The slot of a peer that stays is not the one that is taken. -/
theorem ne_index_activated (h : t.Indexed)
    (ha : t.programState.Activated table addr p default index) {q : PeerId} {i : Nat}
    (hq : (t.holder addr).bind StateItem.peer ≠ some q) (hs : t.slot q = some i) : i ≠ index := by
  rintro rfl
  obtain ⟨item, hitem, hp⟩ := h.itemAt hs
  exact hq ((holder_activated ha q).mp (by rw [hitem]; exact hp))

theorem nodeOf_activated (h : t.Indexed)
    (ha : t.programState.Activated table addr p default index) (q : PeerId) :
    { t with programState := table }.nodeOf q =
      if q = p ∨ (t.holder addr).bind StateItem.peer = some q then "" else t.nodeOf q := by
  have hslot := slot_activated ha q
  by_cases hq : q = p
  · rw [if_pos hq] at hslot
    rw [if_pos (.inl hq), nodeOf_of_slot hslot ha.item]
    rfl
  · rw [if_neg hq] at hslot
    split at hslot
    · next hheld => rw [nodeOf_of_slot_none hslot, if_pos (.inr hheld)]
    · next hheld =>
      rw [if_neg (not_or.mpr ⟨hq, hheld⟩)]
      cases hs : t.slot q with
      | none => rw [nodeOf_of_slot_none (hslot.trans hs), nodeOf_of_slot_none hs]
      | some i =>
        obtain ⟨item, hitem, hp⟩ := h.itemAt hs
        have hkept := ha.kept i item (ne_index_activated h ha hheld hs) hitem
          (by rw [StateItem.active, hp]; rfl)
        rw [nodeOf_of_slot (hslot.trans hs) hkept, nodeOf_of_slot hs hitem]

theorem noticeOf_activated (h : t.Indexed)
    (ha : t.programState.Activated table addr p default index) {q : PeerId} (hq : q ≠ p)
    (hheld : (t.holder addr).bind StateItem.peer ≠ some q) :
    { t with programState := table }.noticeOf q = t.noticeOf q := by
  have hslot := slot_activated ha q
  rw [if_neg hq, if_neg hheld] at hslot
  cases hs : t.slot q with
  | none => rw [noticeOf_of_slot_none (hslot.trans hs), noticeOf_of_slot_none hs]
  | some i =>
    obtain ⟨item, hitem, hp⟩ := h.itemAt hs
    rw [noticeOf_of_slot (hslot.trans hs), noticeOf_of_slot hs, noticeAt, noticeAt,
      ha.remove i item hitem (by rw [StateItem.active, hp]; rfl)]

end

theorem Indexed.addActive {t : P2PState} (h : t.Indexed) (addr : IpAddress) (p : PeerId) :
    (∃ t', t.addActive addr p = .ok t' ∧ Activates t t' addr p) ∨
    (t.addActive addr p = .error .assertion ∧ ¬ t.PeerFound) := by
  rcases CommunicationState.Indexed.addActive h addr p default with
    ⟨code, table, index, hadd, ha⟩ | ⟨hadd, hnot⟩
  · have hrun : t.addActive addr p = .ok { t with programState := table } := ok_bind hadd _
    refine .inl ⟨_, hrun, rfl, rfl, ha.indexed, fun hs hf => ?_, fun hn => hn.addActive hrun,
      nodeOf_activated h ha, fun q hq hheld => noticeOf_activated h ha hq hheld,
      fun i item hi hact hheld => ?_⟩
    · exact ha.peerFound hf fun i hi => nomatch hs.symm.trans hi
    · refine ha.kept i item ?_ hi hact
      rintro rfl
      exact hheld (itemAt_activated ha hi hact)
  · refine .inr ⟨?_, hnot⟩
    rw [P2PState.addActive, hadd]
    rfl

/-! ## `remove_pending` -/

theorem mem_eraseContacts {t : P2PState} (hd : t.kbucket.Distinct) (keys : List (String × Bool))
    (c : Konnection) : c ∈ (t.eraseContacts keys).kbucket.contacts ↔ c ∈ t.kbucket.contacts ∧
      ∀ key ∈ keys, stringDistance c.nodeId ≠ stringDistance key.1 := by
  unfold eraseContacts
  dsimp only
  generalize t.kbucket = b at *
  induction keys generalizing b with
  | nil => simp
  | cons key keys ih =>
    rw [List.foldl_cons, ih _ (hd.erase _), KBucket.mem_erase hd, and_assoc, List.forall_mem_cons]

theorem distinct_eraseContacts {t : P2PState} (hd : t.kbucket.Distinct)
    (keys : List (String × Bool)) : (t.eraseContacts keys).kbucket.Distinct := by
  unfold eraseContacts
  dsimp only
  generalize t.kbucket = b at *
  induction keys generalizing b with
  | nil => exact hd
  | cons key keys ih => exact ih _ (hd.erase _)

section
variable {t t' : P2PState} {keys : List (String × Bool)} {drops : List PeerId}
  {indices : List Nat}

theorem slot_removed (hr : t.programState.Removed t'.programState keys drops indices) {p : PeerId}
    {j : Nat} : t'.slot p = some j ↔ t.slot p = some (beforeAll indices j) :=
  hr.renumbered.peerId p j

/-- A peer whose item is due is gone. -/
theorem slot_removed_due (hr : t.programState.Removed t'.programState keys drops indices)
    {p : PeerId} (hp : ∀ i, t.slot p = some i → i ∈ indices) : t'.slot p = none := by
  rw [Option.eq_none_iff_forall_ne_some]
  intro j hj
  exact beforeAll_notMem hr.sorted j (hp _ ((slot_removed hr).mp hj))

theorem slot_removed_kept (hr : t.programState.Removed t'.programState keys drops indices)
    {p : PeerId} {i : Nat} (hp : t.slot p = some i) (hi : i ∉ indices) :
    ∃ j, t'.slot p = some j ∧ t'.itemAt j = t.itemAt i ∧ t'.noticeAt j = t.noticeAt i := by
  obtain ⟨j, rfl⟩ := exists_beforeAll hr.sorted hi
  refine ⟨j, (slot_removed hr).mpr hp, hr.renumbered.peers j, ?_⟩
  rw [noticeAt, noticeAt, hr.renumbered.remove]

theorem Unnamed.removed (h : t.Unnamed)
    (hr : t.programState.Removed t'.programState keys drops indices) : t'.Unnamed :=
  fun j item hj => h _ item ((hr.renumbered.peers j).symm.trans hj)

/-- The item of `p` is due. -/
theorem dueOf_of_mem (hr : t.programState.Removed t'.programState keys drops indices) {p : PeerId}
    {i : Nat} (hs : t.slot p = some i) : t.dueOf p ↔ i ∈ indices := by
  rw [dueOf, hs, hr.due]
  rfl

theorem slot_removed_dueOf (hr : t.programState.Removed t'.programState keys drops indices)
    {p : PeerId} (hp : t.dueOf p) : t'.slot p = none :=
  slot_removed_due hr fun _ hi => (dueOf_of_mem hr hi).mp hp

theorem nodeOf_removed (h : t.Indexed)
    (hr : t.programState.Removed t'.programState keys drops indices) (p : PeerId) :
    t'.nodeOf p = if t.dueOf p then "" else t.nodeOf p := by
  by_cases hp : t.dueOf p
  · rw [if_pos hp, nodeOf_of_slot_none (slot_removed_dueOf hr hp)]
  · rw [if_neg hp]
    cases hs : t.slot p with
    | none =>
      rw [nodeOf_of_slot_none hs, nodeOf_of_slot_none (slot_removed_due hr (by simp [hs]))]
    | some i =>
      obtain ⟨j, hj, hitem', -⟩ :=
        slot_removed_kept hr hs fun hi => hp ((dueOf_of_mem hr hs).mpr hi)
      obtain ⟨item, hitem, -⟩ := h.itemAt hs
      rw [nodeOf_of_slot hj (hitem'.trans hitem), nodeOf_of_slot hs hitem]

theorem noticeOf_removed (hr : t.programState.Removed t'.programState keys drops indices)
    (p : PeerId) : t'.noticeOf p = if t.dueOf p then false else t.noticeOf p := by
  by_cases hp : t.dueOf p
  · rw [if_pos hp, noticeOf_of_slot_none (slot_removed_dueOf hr hp)]
  · rw [if_neg hp]
    cases hs : t.slot p with
    | none =>
      rw [noticeOf_of_slot_none hs, noticeOf_of_slot_none (slot_removed_due hr (by simp [hs]))]
    | some i =>
      obtain ⟨j, hj, -, hn⟩ := slot_removed_kept hr hs fun hi => hp ((dueOf_of_mem hr hs).mpr hi)
      rw [noticeOf_of_slot hj, noticeOf_of_slot hs, hn]

end

/-- What `remove_pending` does: the peers that are due lose their items, and `keys` are the
nodes of these, with their notices. -/
structure Clears (t t' : P2PState) (keys : List (String × Bool)) : Prop where
  selfId : t'.selfId = t.selfId
  kbucket : t'.kbucket = (t.eraseContacts keys).kbucket
  indexed : t'.Indexed
  found : t.PeerFound → t'.PeerFound
  unnamed : t.Unnamed → t'.Unnamed
  nodeOf : ∀ p, t'.nodeOf p = if t.dueOf p then "" else t.nodeOf p
  noticeOf : ∀ p, t'.noticeOf p = if t.dueOf p then false else t.noticeOf p
  kept : ∀ (i : Nat) (item : StateItem PeerState), t.itemAt i = some item →
    (∃ j, t'.itemAt j = some item) ∨
      (item.value.nodeId ≠ "" → ∃ notice, (item.value.nodeId, notice) ∈ keys)
  keyOf : ∀ p, t.dueOf p → t.nodeOf p ≠ "" → (t.nodeOf p, t.noticeOf p) ∈ keys
  ofKey : t.PeerFound → t.Unnamed → ∀ x ∈ keys, x.1 ≠ "" ∧
    ∃ p, t.dueOf p ∧ t.nodeOf p = x.1 ∧ t.noticeOf p = x.2

theorem noticeAt_of_lookup {t : P2PState} {i : Nat} {info : ToRemoveInfo}
    (h : t.programState.mapToRemove.lookup i = some info) : t.noticeAt i = info.mustNotify := by
  rw [noticeAt, h]
  rfl

theorem Indexed.removePending {t : P2PState} (h : t.Indexed) (ord : IterOrder) :
    ∃ keys drops t', t.removePending ord = .ok ((keys, drops), t') ∧ Clears t t' keys := by
  obtain ⟨keys, drops, table, indices, hrun, hr⟩ :=
    CommunicationState.Indexed.removePending h ord
  let t' : P2PState := { t with programState := table }.eraseContacts keys
  have hr : t.programState.Removed t'.programState keys drops indices := hr
  refine ⟨keys, drops, t', ok_bind hrun _, rfl, rfl, hr.renumbered.indexed h,
    fun hf => hr.renumbered.peerFound hf, fun hn => hn.removed hr, nodeOf_removed h hr,
    noticeOf_removed hr, fun i item hi => ?_, fun p hp hne => ?_, fun hf hn x hx => ?_⟩
  · by_cases hdue : i ∈ indices
    · refine .inr fun hne => ?_
      obtain ⟨info, hinfo, hz⟩ := CommunicationState.due_iff.mp ((hr.due i).mp hdue)
      exact ⟨info.mustNotify, (hr.keys _).mpr ⟨i, item, info, hi, hinfo, hz, hne, rfl⟩⟩
    · obtain ⟨j, rfl⟩ := exists_beforeAll hr.sorted hdue
      exact .inl ⟨j, (hr.renumbered.peers j).trans hi⟩
  · obtain ⟨i, hs⟩ := Option.isSome_iff_exists.mp (slot_of_nodeOf hne)
    obtain ⟨item, hi, -⟩ := h.itemAt hs
    obtain ⟨info, hinfo, hz⟩ :=
      CommunicationState.due_iff.mp ((hr.due i).mp ((dueOf_of_mem hr hs).mp hp))
    rw [nodeOf_of_slot hs hi] at hne ⊢
    rw [noticeOf_of_slot hs, noticeAt_of_lookup hinfo]
    exact (hr.keys _).mpr ⟨i, item, info, hi, hinfo, hz, hne, rfl⟩
  · obtain ⟨i, item, info, hi, hinfo, hz, hne, rfl⟩ := (hr.keys x).mp hx
    refine ⟨hne, ?_⟩
    cases hp : item.peer with
    | none => exact absurd (hn i item hi hp) hne
    | some p =>
      have hs : t.slot p = some i := hf i item p hi hp
      have hdue : t.dueOf p :=
        (dueOf_of_mem hr hs).mpr ((hr.due i).mpr (CommunicationState.due_iff.mpr ⟨info, hinfo, hz⟩))
      refine ⟨p, hdue, nodeOf_of_slot hs hi, ?_⟩
      rw [noticeOf_of_slot hs, noticeAt_of_lookup hinfo]

end P2PState

end MeshPP.P2PSocket
