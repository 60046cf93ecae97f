import MeshPP.P2PSocket.CommunicationState

/-! # The containers of `communication_state` agree with its list of peers

What the containers hold is true of the items (`Indexed`), every item is found
by its address (`AddressFound`) and every active one by its peer id
(`PeerFound`). The last needs the caller: a peer id that is in the table under
another address must not be added once more. -/

set_option linter.unusedSectionVars false

namespace MeshPP.P2PSocket
open MeshPP.Lib

/-- The item at `i` satisfies `P`. -/
def At {α : Type} (peers : List α) (i : Nat) (P : α → Prop) : Prop :=
  ∃ item, peers[i]? = some item ∧ P item

section
variable {α : Type} {peers : List α} {i index : Nat} {P Q : α → Prop}

theorem At.lt (h : At peers i P) : i < peers.length := by
  obtain ⟨item, hi, -⟩ := h
  exact (List.getElem?_eq_some_iff.mp hi).1

theorem At.mono (h : At peers i P) (hpq : ∀ item, P item → Q item) : At peers i Q := by
  obtain ⟨item, hi, hp⟩ := h
  exact ⟨item, hi, hpq item hp⟩

theorem at_set_self {item : α} (hi : index < peers.length) (hp : P item) :
    At (peers.set index item) index P := ⟨item, List.getElem?_set_self hi, hp⟩

theorem At.set_ne {item : α} (h : At peers i P) (hne : i ≠ index) :
    At (peers.set index item) i P := by
  obtain ⟨item, hi, hp⟩ := h
  exact ⟨item, (List.getElem?_set_ne hne.symm).trans hi, hp⟩

theorem At.holds {item : α} (h : At peers i P) (hi : peers[i]? = some item) : P item := by
  obtain ⟨_, hi', hp⟩ := h
  obtain rfl := Option.some.inj (hi'.symm.trans hi)
  exact hp

/-- What does not hold at `index` is elsewhere. -/
theorem At.set_of_not {item stored : α} (h : At peers i P) (hs : peers[index]? = some stored)
    (hnot : ¬ P stored) : At (peers.set index item) i P := by
  refine h.set_ne fun hi => hnot ?_
  subst hi
  exact h.holds hs

theorem at_set {item : α} (hlt : index < peers.length) (hp : P item)
    (h : i ≠ index → At peers i P) : At (peers.set index item) i P := by
  by_cases hne : i = index
  · subst hne
    exact at_set_self hlt hp
  · exact (h hne).set_ne hne

theorem At.append (h : At peers i P) (more : List α) : At (peers ++ more) i P := by
  have hlt := h.lt
  obtain ⟨item, hi, hp⟩ := h
  exact ⟨item, (List.getElem?_append_left hlt).trans hi, hp⟩

theorem getElem?_set_imp {item item' : α} (h : (peers.set index item)[i]? = some item') :
    item' = item ∨ peers[i]? = some item' := by
  rw [List.getElem?_set] at h
  split at h
  · split at h
    · exact .inl (Option.some.inj h).symm
    · cases h
  · exact .inr h

end

namespace CommunicationState
variable {T K : Type} [Inhabited T] [Inhabited K] [DecidableEq K] [CommunicationValue T K]
  [EmptyDestination]

structure Indexed (s : CommunicationState T K) : Prop where
  address : ∀ d i, s.mapByAddress.lookup d = some i →
    At s.peers i fun item => addressKey item.address = d
  peerId : ∀ p i, s.mapByPeerId.lookup p = some i → At s.peers i fun item => item.peer = some p
  key : ∀ k i, s.mapByKey.lookup k = some i → At s.peers i fun item => key item.value = k
  connect : ∀ i ∈ s.setToConnect, At s.peers i fun item => item.peer = none
  listen : ∀ i ∈ s.setToListen, At s.peers i fun item => item.peer = none
  remove : ∀ i info, s.mapToRemove.lookup i = some info →
    At s.peers i fun item => info.sendDrop → item.active

def AddressFound (s : CommunicationState T K) (i : Nat) : Prop :=
  ∀ item, s.peers[i]? = some item → s.mapByAddress.lookup (addressKey item.address) = some i

def PeerFound (s : CommunicationState T K) (i : Nat) : Prop :=
  ∀ item p, s.peers[i]? = some item → item.peer = some p → s.mapByPeerId.lookup p = some i

structure Consistent (s : CommunicationState T K) : Prop extends Indexed s where
  addressFound : ∀ i, s.AddressFound i
  peerFound : ∀ i, s.PeerFound i

theorem item_eq {s : CommunicationState T K} {index : Nat} {item : StateItem T}
    (h : s.peers[index]? = some item) : s.item index = .ok item := by
  unfold CommunicationState.item
  rw [h]

theorem lookup_dropKey {s : CommunicationState T K} {value old : T} {k : K} {i : Nat}
    (h : (s.dropKey value old).lookup k = some i) : s.mapByKey.lookup k = some i := by
  unfold dropKey at h
  split at h
  · rw [UMap.lookup_erase] at h
    split at h
    · cases h
    · exact h
  · exact h

/-- Behind `dropKey` the old key leads to the item no more, unless the new one is the same. -/
theorem lookup_dropKey_ne {s : CommunicationState T K} {value old : T} {k : K} {i : Nat}
    (h : (s.dropKey value old).lookup k = some i) (hk : k ≠ CommunicationValue.key value) :
    k ≠ CommunicationValue.key old := by
  intro he
  subst he
  unfold dropKey at h
  rw [if_pos (Ne.symm hk), UMap.lookup_erase, if_pos rfl] at h
  cases h

/-! ## Operations on one item -/

/-- `store` writes over a passive item that has the same address and is not to be removed. -/
theorem Indexed.store {s : CommunicationState T K} (h : s.Indexed) {index : Nat} {addr : IpAddress}
    {stored : StateItem T} (hs : s.peers[index]? = some stored) (hp : stored.peer = none)
    (ha : addressKey stored.address = addressKey addr) (hr : s.mapToRemove.lookup index = none)
    (value : T) : ∃ s', s.store index addr value = .ok s' ∧ s'.Indexed ∧
      s'.mapByPeerId = s.mapByPeerId ∧ s'.mapToRemove = s.mapToRemove ∧
      s'.peers = s.peers.set index ⟨value, none, addr⟩ ∧
      ∀ d, s'.mapByAddress.lookup d =
        if d = addressKey addr then some index else s.mapByAddress.lookup d := by
  have hlt : index < s.peers.length := (List.getElem?_eq_some_iff.mp hs).1
  have haddr : ∀ d, ((s.mapByAddress.erase (addressKey stored.address)).insert
      (addressKey addr) index).lookup d =
        if d = addressKey addr then some index else s.mapByAddress.lookup d := by
    intro d
    rw [UMap.lookup_insert, ha]
    split
    · rfl
    · next hd => rw [UMap.lookup_erase, if_neg hd]
  rw [CommunicationState.store, item_eq hs]
  refine ⟨_, rfl, ⟨?_, ?_, ?_, ?_, ?_, ?_⟩, rfl, rfl, rfl, haddr⟩
  · intro d i hd
    rw [haddr] at hd
    split at hd
    · next hk =>
      obtain rfl := Option.some.inj hd
      exact at_set_self hlt hk.symm
    · next hk => exact (h.address d i hd).set_of_not hs fun hd => hk (hd.symm.trans ha)
  · intro p i hpi
    refine (h.peerId p i hpi).set_of_not hs fun hsome => ?_
    rw [hp] at hsome
    cases hsome
  · intro k i hk
    rw [UMap.lookup_insert] at hk
    split at hk
    · next hkv =>
      obtain rfl := Option.some.inj hk
      exact at_set_self hlt hkv.symm
    · rw [UMap.lookup_erase] at hk
      split at hk
      · cases hk
      · next hks => exact (h.key k i (lookup_dropKey hk)).set_of_not hs fun hk => hks hk.symm
  · intro i hi
    refine at_set hlt rfl fun hne => h.connect i ?_
    dsimp only at hi
    split at hi
    · exact hi
    · exact ((AList.mem_insert _).mp hi).resolve_left hne
  · intro i hi
    refine at_set hlt rfl fun hne => h.listen i ?_
    dsimp only at hi
    split at hi
    · exact ((AList.mem_insert _).mp hi).resolve_left hne
    · exact hi
  · intro i info hi
    refine (h.remove i info hi).set_ne fun he => ?_
    rw [he, hr] at hi
    cases hi

/-- What concerns the active items is as before. -/
structure Quiet (s s' : CommunicationState T K) : Prop where
  peerId : s'.mapByPeerId = s.mapByPeerId
  kept : ∀ (i : Nat) (item : StateItem T), s.peers[i]? = some item → item.active →
    s'.peers[i]? = some item ∧ s'.mapToRemove.lookup i = s.mapToRemove.lookup i
  only : ∀ (i : Nat) (item : StateItem T), s'.peers[i]? = some item → item.active →
    s.peers[i]? = some item
  removed : ∀ (i : Nat) (info : ToRemoveInfo), s'.mapToRemove.lookup i = some info →
    s.mapToRemove.lookup i = some info

theorem Quiet.refl (s : CommunicationState T K) : Quiet s s :=
  ⟨rfl, fun _ _ hi _ => ⟨hi, rfl⟩, fun _ _ hi _ => hi, fun _ _ hi => hi⟩

theorem Quiet.trans {s s' s'' : CommunicationState T K} (h : Quiet s s') (h' : Quiet s' s'') :
    Quiet s s'' := by
  refine ⟨h'.peerId.trans h.peerId, fun i item hi ha => ?_, fun i item hi ha => ?_,
    fun i info hi => h.removed i info (h'.removed i info hi)⟩
  · obtain ⟨hi', hr⟩ := h.kept i item hi ha
    obtain ⟨hi'', hr'⟩ := h'.kept i item hi' ha
    exact ⟨hi'', hr'.trans hr⟩
  · exact h.only i item (h'.only i item hi ha) ha

theorem Quiet.peerFound {s s' : CommunicationState T K} (h : Quiet s s')
    (hf : ∀ i, s.PeerFound i) (i : Nat) : s'.PeerFound i := by
  intro item p hi hp
  rw [h.peerId]
  exact hf i item p (h.only i item hi (by rw [StateItem.active, hp]; rfl)) hp

/-- An active item is not the passive one at `index`. -/
theorem ne_of_active {peers : List (StateItem T)} {i index : Nat} {item stored : StateItem T}
    (hi : peers[i]? = some item) (ha : item.active) (hs : peers[index]? = some stored)
    (hp : stored.peer = none) : i ≠ index := by
  intro he
  subst he
  obtain rfl := Option.some.inj (hs.symm.trans hi)
  rw [StateItem.active, hp] at ha
  cases ha

/-- A passive item is written over, or appended. -/
theorem quiet_set {s s' : CommunicationState T K} {index : Nat} (item : StateItem T)
    (hs : At s.peers index fun stored => stored.peer = none) (hitem : item.peer = none)
    (hpeers : s'.peers = s.peers.set index item) (hid : s'.mapByPeerId = s.mapByPeerId)
    (hremove : s'.mapToRemove = s.mapToRemove) : Quiet s s' := by
  obtain ⟨stored, hs, hp⟩ := hs
  refine ⟨hid, fun i it hi ha => ?_, fun i it hi ha => ?_, fun i info hi => hremove ▸ hi⟩
  · rw [hpeers, List.getElem?_set_ne (ne_of_active hi ha hs hp).symm]
    exact ⟨hi, by rw [hremove]⟩
  · rw [hpeers, List.getElem?_set] at hi
    split at hi
    · split at hi
      · obtain rfl := Option.some.inj hi
        rw [StateItem.active, hitem] at ha
        cases ha
      · cases hi
    · exact hi

/-- What `add_passive` leaves: the address leads to `index`, and no active item changes. -/
structure Passively (s s' : CommunicationState T K) (addr : IpAddress) (index : Nat) : Prop where
  indexed : s'.Indexed
  quiet : Quiet s s'
  address : ∀ d, s'.mapByAddress.lookup d =
    if d = addressKey addr then some index else s.mapByAddress.lookup d
  known : ∀ i, s.mapByAddress.lookup (addressKey addr) = some i → i = index
  fresh : s.mapByAddress.lookup (addressKey addr) = some index ∨
    At s'.peers index fun item => item.peer = none
  found : (∀ i, s.AddressFound i) → ∀ i, s'.AddressFound i

theorem Indexed.passively_store {s s₁ : CommunicationState T K} (h : s₁.Indexed) {index : Nat}
    {addr : IpAddress} {stored : StateItem T} (hs : s₁.peers[index]? = some stored)
    (hp : stored.peer = none) (ha : addressKey stored.address = addressKey addr)
    (hr : s₁.mapToRemove.lookup index = none) (value : T) (hquiet : Quiet s s₁)
    (hmap : s₁.mapByAddress = s.mapByAddress)
    (hlookup : ∀ i, s.mapByAddress.lookup (addressKey addr) = some i → i = index)
    (hfound : (∀ i, s.AddressFound i) → ∀ i, i ≠ index → s₁.AddressFound i) :
    ∃ s', s₁.store index addr value = .ok s' ∧ Passively s s' addr index := by
  obtain ⟨s', hst, hidx, hpid, hrem, hpeers, haddr⟩ := h.store hs hp ha hr value
  have hlt : index < s₁.peers.length := (List.getElem?_eq_some_iff.mp hs).1
  refine ⟨s', hst, hidx, ?_, fun d => by rw [haddr, hmap], hlookup, .inr ?_,
    fun hf i item hi => ?_⟩
  · exact hquiet.trans (quiet_set ⟨value, none, addr⟩ ⟨stored, hs, hp⟩ rfl hpeers hpid hrem)
  · rw [hpeers]
    exact at_set_self hlt rfl
  · rw [haddr]
    by_cases hne : i = index
    · subst hne
      rw [hpeers, List.getElem?_set_self hlt] at hi
      obtain rfl := Option.some.inj hi
      exact if_pos rfl
    · rw [hpeers, List.getElem?_set_ne (Ne.symm hne)] at hi
      have hold := hfound hf i hne item hi
      rw [if_neg fun hk => hne (hlookup i ?_)]
      · exact hold
      · rw [← hk, ← hmap]
        exact hold

/-- A table that differs from a consistent one only in what is to be removed or done. -/
theorem Indexed.of_same {s s' : CommunicationState T K} (h : s.Indexed)
    (hpeers : s'.peers = s.peers) (haddr : s'.mapByAddress = s.mapByAddress)
    (hid : s'.mapByPeerId = s.mapByPeerId) (hkey : s'.mapByKey = s.mapByKey)
    (hconnect : ∀ i ∈ s'.setToConnect, i ∈ s.setToConnect)
    (hlisten : ∀ i ∈ s'.setToListen, i ∈ s.setToListen)
    (hremove : ∀ i info, s'.mapToRemove.lookup i = some info →
      At s.peers i fun item => info.sendDrop → item.active) : s'.Indexed := by
  refine ⟨?_, ?_, ?_, ?_, ?_, ?_⟩
  · rw [hpeers, haddr]; exact h.address
  · rw [hpeers, hid]; exact h.peerId
  · rw [hpeers, hkey]; exact h.key
  · rw [hpeers]; exact fun i hi => h.connect i (hconnect i hi)
  · rw [hpeers]; exact fun i hi => h.listen i (hlisten i hi)
  · rw [hpeers]; exact hremove

theorem Indexed.push {s : CommunicationState T K} (h : s.Indexed) (item : StateItem T) :
    Indexed { s with peers := s.peers ++ [item] } where
  address d i hd := (h.address d i hd).append _
  peerId p i hp := (h.peerId p i hp).append _
  key k i hk := (h.key k i hk).append _
  connect i hi := (h.connect i hi).append _
  listen i hi := (h.listen i hi).append _
  remove i info hi := (h.remove i info hi).append _

/-- All but the last item were there before. -/
theorem getElem?_push {peers : List (StateItem T)} {item it : StateItem T} {i : Nat}
    (hi : (peers ++ [item])[i]? = some it) (hne : i ≠ peers.length) : peers[i]? = some it := by
  have hlt : i < peers.length := by
    have := (List.getElem?_eq_some_iff.mp hi).1
    rw [List.length_append, List.length_singleton] at this
    omega
  rwa [List.getElem?_append_left hlt] at hi

/-- A passive item is appended. -/
theorem quiet_push (s : CommunicationState T K) {item : StateItem T} (hp : item.peer = none) :
    Quiet s { s with peers := s.peers ++ [item] } := by
  refine ⟨rfl, fun i it hi _ => ⟨?_, rfl⟩, fun i it hi ha => getElem?_push hi ?_,
    fun _ _ hi => hi⟩
  · exact (List.getElem?_append_left (List.getElem?_eq_some_iff.mp hi).1).trans hi
  · exact ne_of_active hi ha List.getElem?_concat_length hp

theorem Indexed.unschedule {s : CommunicationState T K} (h : s.Indexed) (index : Nat) :
    Indexed { s with mapToRemove := s.mapToRemove.erase index } := by
  refine h.of_same rfl rfl rfl rfl (fun _ hi => hi) (fun _ hi => hi) fun i info hi => ?_
  rw [UMap.lookup_erase] at hi
  split at hi
  · cases hi
  · exact h.remove i info hi

/-- A passive item is taken off the schedule. -/
theorem quiet_unschedule {s : CommunicationState T K} {index : Nat} {stored : StateItem T}
    (hs : s.peers[index]? = some stored) (hp : stored.peer = none) :
    Quiet s { s with mapToRemove := s.mapToRemove.erase index } := by
  refine ⟨rfl, fun i it hi hact => ⟨hi, ?_⟩, fun _ _ hi _ => hi, fun i info hi => ?_⟩
  · exact AList.lookup_erase_ne (ne_of_active hi hact hs hp)
  · rw [UMap.lookup_erase] at hi
    split at hi
    · cases hi
    · exact hi

/-- A fresh item at the end of the list. -/
theorem Indexed.addPassive_fresh {s : CommunicationState T K} (h : s.Indexed) {addr : IpAddress}
    (hl : s.mapByAddress.lookup (addressKey addr) = none) (value : T) :
    ∃ s' index, s.addPassive addr value = .ok (.fresh, s') ∧ Passively s s' addr index := by
  have hnone : s.mapToRemove.lookup s.peers.length = none := by
    cases hr : s.mapToRemove.lookup s.peers.length with
    | none => rfl
    | some info => exact absurd (h.remove _ info hr).lt (Nat.lt_irrefl _)
  obtain ⟨s', hst, hs'⟩ := (h.push ⟨default, none, addr⟩).passively_store
    List.getElem?_concat_length rfl rfl hnone value (quiet_push s rfl) rfl
    (fun i hi => by rw [hl] at hi; cases hi)
    fun hf i hne it hi => hf i it (getElem?_push hi hne)
  refine ⟨s', _, ?_, hs'⟩
  unfold CommunicationState.addPassive
  rw [hl]
  exact ok_bind hst _

/-- The passive item is used again. -/
theorem Indexed.addPassive_again {s : CommunicationState T K} (h : s.Indexed) {addr : IpAddress}
    {index : Nat} (hl : s.mapByAddress.lookup (addressKey addr) = some index)
    {stored : StateItem T} (hs : s.peers[index]? = some stored) (hp : stored.peer = none)
    (ha : addressKey stored.address = addressKey addr) (hre : s.reusable index = .ok true)
    (value : T) :
    ∃ s', s.addPassive addr value = .ok (.fresh, s') ∧ Passively s s' addr index := by
  obtain ⟨s', hst, hs'⟩ := (h.unschedule index).passively_store hs hp ha
    (AList.lookup_erase index _) value (quiet_unschedule hs hp) rfl
    (fun i hi => (Option.some.inj (hl.symm.trans hi)).symm) fun hf i _ => hf i
  refine ⟨s', ?_, hs'⟩
  unfold CommunicationState.addPassive
  rw [hl]
  exact (ok_bind hre _).trans (ok_bind hst _)

/-- The item that is there is left. -/
theorem Indexed.addPassive_old {s : CommunicationState T K} (h : s.Indexed) {addr : IpAddress}
    {index : Nat} (hl : s.mapByAddress.lookup (addressKey addr) = some index)
    (hre : s.reusable index = .ok false) (value : T) :
    s.addPassive addr value = .ok (.old, s) ∧ Passively s s addr index := by
  refine ⟨?_, h, .refl s, fun d => ?_, fun i hi => (Option.some.inj (hl.symm.trans hi)).symm,
    .inl hl, fun hf => hf⟩
  · unfold CommunicationState.addPassive
    rw [hl]
    exact ok_bind hre _
  · split
    · next hd => rw [hd, hl]
    · rfl

theorem Indexed.addPassive {s : CommunicationState T K} (h : s.Indexed) (addr : IpAddress)
    (value : T) : ∃ code s' index, s.addPassive addr value = .ok (code, s') ∧
      Passively s s' addr index := by
  cases hl : s.mapByAddress.lookup (addressKey addr) with
  | none =>
    obtain ⟨s', index, hrun, hs'⟩ := h.addPassive_fresh hl value
    exact ⟨_, s', index, hrun, hs'⟩
  | some index =>
    obtain ⟨stored, hs, ha⟩ := h.address _ _ hl
    have hold : s.reusable index = .ok false → ∃ code s' index,
        s.addPassive addr value = .ok (code, s') ∧ Passively s s' addr index :=
      fun hre => ⟨_, s, index, h.addPassive_old hl hre value⟩
    cases hr : s.mapToRemove.lookup index with
    | none => exact hold (by simp [reusable, hr]; rfl)
    | some info =>
      by_cases hz : info.steps = 0
      · cases hp : stored.peer with
        | some p => exact hold (by simp [reusable, hr, hz, item_eq hs, StateItem.active, hp])
        | none =>
          obtain ⟨s', hrun, hs'⟩ := h.addPassive_again hl hs hp ha
            (by simp [reusable, hr, hz, item_eq hs, StateItem.active, hp]) value
          exact ⟨_, s', index, hrun, hs'⟩
      · exact hold (by simp [reusable, hr, hz]; rfl)

/-- What `add_active` leaves: the item at `index` belongs to `p`, and no other active item
changes. -/
structure Activated (s s' : CommunicationState T K) (addr : IpAddress) (p : PeerId) (value : T)
    (index : Nat) : Prop where
  indexed : s'.Indexed
  item : s'.peers[index]? = some ⟨value, some p, addr⟩
  kept : ∀ (i : Nat) (item : StateItem T), i ≠ index → s.peers[i]? = some item → item.active →
    s'.peers[i]? = some item
  only : ∀ (i : Nat) (item : StateItem T), i ≠ index → s'.peers[i]? = some item → item.active →
    s.peers[i]? = some item
  peerId : ∀ q, s'.mapByPeerId.lookup q =
    if q = p then some index
    else if s.peers[index]?.bind StateItem.peer = some q then none
    else s.mapByPeerId.lookup q
  remove : ∀ (i : Nat) (item : StateItem T), s.peers[i]? = some item → item.active →
    s'.mapToRemove.lookup i = s.mapToRemove.lookup i
  removed : ∀ (i : Nat) (info : ToRemoveInfo), s'.mapToRemove.lookup i = some info →
    s.mapToRemove.lookup i = some info
  known : ∀ i, s.mapByAddress.lookup (addressKey addr) = some i → i = index
  fresh : s.mapByAddress.lookup (addressKey addr) = some index ∨
    ∀ item, s.peers[index]? = some item → item.peer = none
  found : (∀ i, s.AddressFound i) → ∀ i, s'.AddressFound i

/-- An item can only be taken over from a peer that is known. -/
theorem releasePeer_error {s : CommunicationState T K} {stored : StateItem T} {p : PeerId}
    {e : Fault} (h : s.releasePeer stored p = .error e) :
    e = .assertion ∧ ∃ q, stored.peer = some q ∧ q ∉ s.mapByPeerId := by
  unfold releasePeer at h
  cases hp : stored.peer with
  | none => rw [hp] at h; cases h
  | some q =>
    simp only [hp] at h
    split at h
    · cases h
    · split at h
      · cases h
      · next hnot => exact ⟨(Except.error.inj h).symm, q, rfl, hnot⟩

theorem lookup_releasePeer {s : CommunicationState T K} {stored : StateItem T} {p : PeerId}
    {m : UMap PeerId Nat} (h : s.releasePeer stored p = .ok m) (index : Nat) (q : PeerId) :
    (m.insert p index).lookup q =
      if q = p then some index else if stored.peer = some q then none
      else s.mapByPeerId.lookup q := by
  rw [UMap.lookup_insert]
  split
  · rfl
  · next hq =>
    unfold releasePeer at h
    cases hp : stored.peer with
    | none =>
      rw [hp] at h
      obtain rfl := Except.ok.inj h
      simp
    | some q' =>
      simp only [hp] at h
      split at h
      · next hqq =>
        obtain rfl := Except.ok.inj h
        rw [if_neg]
        rw [Option.some.injEq, ← hqq]
        exact Ne.symm hq
      · split at h
        · obtain rfl := Except.ok.inj h
          rw [UMap.lookup_erase]
          by_cases hqq : q = q'
          · simp [hqq]
          · rw [if_neg hqq, if_neg (by simpa using Ne.symm hqq)]
        · cases h

/-- The last part of `add_active`, at the position the address leads to. -/
theorem Indexed.activate {s : CommunicationState T K} (h : s.Indexed) {index : Nat}
    {addr : IpAddress} {stored : StateItem T} (hs : s.peers[index]? = some stored)
    (ha : addressKey stored.address = addressKey addr) {p : PeerId} {m : UMap PeerId Nat}
    (hm : s.releasePeer stored p = .ok m) (value : T) :
    Indexed { s with
      peers := s.peers.set index ⟨value, some p, addr⟩
      mapByPeerId := m.insert p index
      mapByKey := (s.dropKey value stored.value).insert (CommunicationValue.key value) index
      setToConnect := s.setToConnect.erase index
      setToListen := s.setToListen.erase index } := by
  have hlt : index < s.peers.length := (List.getElem?_eq_some_iff.mp hs).1
  refine ⟨?_, ?_, ?_, ?_, ?_, ?_⟩
  · intro d i hd
    have hold := h.address d i hd
    by_cases hne : i = index
    · subst hne
      exact at_set_self hlt (ha.symm.trans (hold.holds hs))
    · exact hold.set_ne hne
  · intro q i hq
    rw [lookup_releasePeer hm] at hq
    split at hq
    · next hqp =>
      obtain rfl := Option.some.inj hq
      exact at_set_self hlt (by rw [hqp])
    · split at hq
      · cases hq
      · next hnot => exact (h.peerId q i hq).set_of_not hs hnot
  · intro k i hk
    rw [UMap.lookup_insert] at hk
    split at hk
    · next hkv =>
      obtain rfl := Option.some.inj hk
      exact at_set_self hlt hkv.symm
    · next hkv =>
      exact (h.key k i (lookup_dropKey hk)).set_of_not hs fun hks =>
        lookup_dropKey_ne hk hkv hks.symm
  · intro i hi
    obtain ⟨hne, hi⟩ := AList.mem_erase.mp hi
    exact (h.connect i hi).set_ne hne
  · intro i hi
    obtain ⟨hne, hi⟩ := AList.mem_erase.mp hi
    exact (h.listen i hi).set_ne hne
  · exact fun i info hi => at_set hlt (fun _ => rfl) fun _ => h.remove i info hi

theorem Indexed.addActive {s : CommunicationState T K} (h : s.Indexed) (addr : IpAddress)
    (p : PeerId) (value : T) :
    (∃ code s' index, s.addActive addr p value = .ok (code, s') ∧
      Activated s s' addr p value index) ∨
    (s.addActive addr p value = .error .assertion ∧ ¬ ∀ i, s.PeerFound i) := by
  obtain ⟨code, s₁, index, hadd, hs₁⟩ := h.addPassive addr default
  have hl : s₁.mapByAddress.lookup (addressKey addr) = some index := by
    rw [hs₁.address, if_pos rfl]
  obtain ⟨stored, hs, ha⟩ := hs₁.indexed.address _ _ hl
  have hlt : index < s₁.peers.length := (List.getElem?_eq_some_iff.mp hs).1
  have hrun : s.addActive addr p value = (s₁.releasePeer stored p).bind fun m =>
      .ok (if code = .old then .updated else .added, { s₁ with
        peers := s₁.peers.set index ⟨value, some p, addr⟩
        mapByPeerId := m.insert p index
        mapByKey := (s₁.dropKey value stored.value).insert (CommunicationValue.key value) index
        setToConnect := s₁.setToConnect.erase index
        setToListen := s₁.setToListen.erase index }) := by
    rw [CommunicationState.addActive, ok_bind hadd]
    simp only [hl]
    exact ok_bind (item_eq hs) _
  have hstored : ∀ q, stored.peer = some q ↔ s.peers[index]?.bind StateItem.peer = some q := by
    intro q
    rw [Option.bind_eq_some_iff]
    constructor
    · intro hq
      exact ⟨stored, hs₁.quiet.only index stored hs (by rw [StateItem.active, hq]; rfl), hq⟩
    · intro ⟨item, hi, hq⟩
      obtain ⟨hi', -⟩ := hs₁.quiet.kept index item hi (by rw [StateItem.active, hq]; rfl)
      obtain rfl := Option.some.inj (hs.symm.trans hi')
      exact hq
  cases hm : s₁.releasePeer stored p with
  | error e =>
    right
    obtain ⟨rfl, q, hp, hnot⟩ := releasePeer_error hm
    rw [hm] at hrun
    refine ⟨hrun, fun hf => hnot (UMap.mem_iff.mpr ⟨index, ?_⟩)⟩
    exact hs₁.quiet.peerFound hf index stored q hs hp
  | ok m =>
    left
    rw [hm] at hrun
    refine ⟨_, _, index, hrun, hs₁.indexed.activate hs ha hm value, List.getElem?_set_self hlt,
      fun i item hne hi hact => ?_, fun i item hne hi hact => ?_, fun q => ?_,
      fun i item hi hact => (hs₁.quiet.kept i item hi hact).2, hs₁.quiet.removed, hs₁.known, ?_,
      fun hf i item hi => ?_⟩
    · exact (List.getElem?_set_ne (Ne.symm hne)).trans (hs₁.quiet.kept i item hi hact).1
    · exact hs₁.quiet.only i item ((List.getElem?_set_ne (Ne.symm hne)).symm.trans hi) hact
    · rw [lookup_releasePeer hm, hs₁.quiet.peerId]
      simp only [hstored]
    · refine hs₁.fresh.imp_right fun ⟨item, hi, hp⟩ item' hi' => ?_
      by_contra hne
      have hact : item'.active := Option.isSome_iff_ne_none.mpr hne
      obtain rfl := Option.some.inj (hi.symm.trans (hs₁.quiet.kept index item' hi' hact).1)
      exact hne hp
    · have hfound := hs₁.found hf i
      by_cases hne : i = index
      · subst hne
        obtain rfl := Option.some.inj ((List.getElem?_set_self hlt).symm.trans hi)
        exact hl
      · exact hfound item ((List.getElem?_set_ne (Ne.symm hne)).symm.trans hi)

theorem peers_store {s s' : CommunicationState T K} {index : Nat} {addr : IpAddress} {value : T}
    (h : s.store index addr value = .ok s') :
    s'.peers = s.peers.set index ⟨value, none, addr⟩ := by
  obtain ⟨stored, -, hs'⟩ := ok_of_bind h
  obtain rfl := Except.ok.inj hs'
  rfl

/-- Every active item is found when `p` was nowhere else. -/
theorem Activated.peerFound {s s' : CommunicationState T K} {addr : IpAddress} {p : PeerId}
    {value : T} {index : Nat} (ha : Activated s s' addr p value index) (hf : ∀ i, s.PeerFound i)
    (hp : ∀ i, s.mapByPeerId.lookup p = some i → i = index) (i : Nat) : s'.PeerFound i := by
  intro item q hi hq
  rw [ha.peerId]
  by_cases hne : i = index
  · subst hne
    obtain rfl := Option.some.inj (ha.item.symm.trans hi)
    rw [if_pos (Option.some.inj hq).symm]
  · have hold := hf i item q (ha.only i item hne hi (by rw [StateItem.active, hq]; rfl)) hq
    have hqp : q ≠ p := fun he => hne (hp i (he ▸ hold))
    rw [if_neg hqp, if_neg]
    · exact hold
    · -- the peer id leads to one item only
      intro hstored
      obtain ⟨stored, hs, hsq⟩ := Option.bind_eq_some_iff.mp hstored
      exact hne (Option.some.inj (hold.symm.trans (hf index stored q hs hsq)))

/-- Behind `add_passive` an item is an old one or the new one. -/
theorem item_addPassive {s s' : CommunicationState T K} {addr : IpAddress} {value : T}
    {code : InsertCode} (h : s.addPassive addr value = .ok (code, s')) {i : Nat}
    {item : StateItem T} (hi : s'.peers[i]? = some item) :
    item.value = value ∨ item.value = default ∨ s.peers[i]? = some item := by
  unfold CommunicationState.addPassive at h
  split at h
  · obtain ⟨s₁, hst, hres⟩ := ok_of_bind h
    obtain ⟨-, rfl⟩ := Prod.mk.inj (Except.ok.inj hres)
    rw [peers_store hst] at hi
    rcases getElem?_set_imp hi with rfl | hi
    · exact .inl rfl
    · rw [List.getElem?_append] at hi
      split at hi
      · exact .inr (.inr hi)
      · refine .inr (.inl ?_)
        obtain rfl := List.mem_singleton.mp (List.mem_of_getElem? hi)
        rfl
  · next index hl =>
    obtain ⟨b, -, hres⟩ := ok_of_bind h
    cases b with
    | false =>
      obtain ⟨-, rfl⟩ := Prod.mk.inj (Except.ok.inj hres)
      exact .inr (.inr hi)
    | true =>
      obtain ⟨s₁, hst, hres⟩ := ok_of_bind hres
      obtain ⟨-, rfl⟩ := Prod.mk.inj (Except.ok.inj hres)
      rw [peers_store hst] at hi
      exact (getElem?_set_imp hi).imp (congrArg StateItem.value) .inr

/-- Behind `add_active` a passive item is an old one or a new one. -/
theorem item_addActive {s s' : CommunicationState T K} {addr : IpAddress} {p : PeerId} {value : T}
    {code : UpdateCode} (h : s.addActive addr p value = .ok (code, s')) {i : Nat}
    {item : StateItem T} (hi : s'.peers[i]? = some item) (hp : item.peer = none) :
    item.value = default ∨ s.peers[i]? = some item := by
  obtain ⟨⟨c, s₁⟩, hadd, h⟩ := ok_of_bind h
  dsimp only at h
  split at h
  · cases h
  · obtain ⟨stored, -, h⟩ := ok_of_bind h
    obtain ⟨m, -, h⟩ := ok_of_bind h
    obtain ⟨-, rfl⟩ := Prod.mk.inj (Except.ok.inj h)
    rcases getElem?_set_imp hi with rfl | hi
    · cases hp
    · exact (item_addPassive hadd hi).elim .inl id

/-- The value of the item at `index` changes and nothing else. -/
structure Revalued (s s' : CommunicationState T K) (index : Nat) (stored : StateItem T)
    (value : T) : Prop where
  indexed : s'.Indexed
  peers : s'.peers = s.peers.set index { stored with value }
  peerId : s'.mapByPeerId = s.mapByPeerId
  address : s'.mapByAddress = s.mapByAddress
  remove : s'.mapToRemove = s.mapToRemove

theorem Indexed.setValueAt {s : CommunicationState T K} (h : s.Indexed) {index : Nat}
    {stored : StateItem T} (hs : s.peers[index]? = some stored) (value : T) :
    ∃ s', s.setValueAt index value = .ok s' ∧ Revalued s s' index stored value := by
  have hlt : index < s.peers.length := (List.getElem?_eq_some_iff.mp hs).1
  have hset : ∀ {i : Nat} {P : StateItem T → Prop}, At s.peers i P →
      (P stored → P { stored with value }) →
      At (s.peers.set index { stored with value }) i P := by
    intro i P hold himp
    by_cases hne : i = index
    · subst hne
      exact at_set_self hlt (himp (hold.holds hs))
    · exact hold.set_ne hne
  refine ⟨_, ok_bind (item_eq hs) _, ⟨?_, ?_, ?_, ?_, ?_, ?_⟩, rfl, rfl, rfl, rfl⟩
  · exact fun d i hd => hset (h.address d i hd) id
  · exact fun p i hp => hset (h.peerId p i hp) id
  · intro k i hk
    rw [UMap.lookup_insert] at hk
    split at hk
    · next hkv =>
      obtain rfl := Option.some.inj hk
      exact at_set_self hlt hkv.symm
    · next hkv =>
      exact (h.key k i (lookup_dropKey hk)).set_of_not hs fun hks =>
        lookup_dropKey_ne hk hkv hks.symm
  · exact fun i hi => hset (h.connect i hi) id
  · exact fun i hi => hset (h.listen i hi) id
  · exact fun i info hi => hset (h.remove i info hi) id

theorem Revalued.was {s s' : CommunicationState T K} {index : Nat} {stored : StateItem T}
    {value : T} (h : Revalued s s' index stored value) (hs : s.peers[index]? = some stored)
    {i : Nat} {item : StateItem T} (hi : s'.peers[i]? = some item) :
    ∃ old, s.peers[i]? = some old ∧ old.address = item.address ∧ old.peer = item.peer := by
  rw [h.peers, List.getElem?_set] at hi
  split at hi
  · next heq =>
    subst heq
    split at hi
    · obtain rfl := Option.some.inj hi
      exact ⟨stored, hs, rfl, rfl⟩
    · cases hi
  · exact ⟨item, hi, rfl, rfl⟩

theorem Revalued.addressFound {s s' : CommunicationState T K} {index : Nat} {stored : StateItem T}
    {value : T} (h : Revalued s s' index stored value) (hs : s.peers[index]? = some stored)
    (hf : ∀ i, s.AddressFound i) (i : Nat) : s'.AddressFound i := by
  intro item hi
  obtain ⟨old, hold, haddr, -⟩ := h.was hs hi
  rw [h.address, ← haddr]
  exact hf i old hold

theorem Revalued.peerFound {s s' : CommunicationState T K} {index : Nat} {stored : StateItem T}
    {value : T} (h : Revalued s s' index stored value) (hs : s.peers[index]? = some stored)
    (hf : ∀ i, s.PeerFound i) (i : Nat) : s'.PeerFound i := by
  intro item p hi hp
  obtain ⟨old, hold, -, hpeer⟩ := h.was hs hi
  rw [h.peerId]
  exact hf i old p hold (hpeer.trans hp)

/-- What a setter does: the value of the item that was found is changed, if one was. -/
def SetsAt (s : CommunicationState T K) (found : Option Nat) (value : T)
    (run : Except Fault (CommunicationState T K)) : Prop :=
  (found = none ∧ run = .ok s) ∨
    ∃ index stored s', found = some index ∧ s.peers[index]? = some stored ∧ run = .ok s' ∧
      Revalued s s' index stored value

theorem Indexed.setActiveValue {s : CommunicationState T K} (h : s.Indexed) (p : PeerId)
    (value : T) : s.SetsAt (s.mapByPeerId.lookup p) value (s.setActiveValue p value) := by
  unfold CommunicationState.setActiveValue
  cases hp : s.mapByPeerId.lookup p with
  | none => exact .inl ⟨rfl, rfl⟩
  | some index =>
    obtain ⟨stored, hi, -⟩ := h.peerId p index hp
    obtain ⟨s', hset, hs'⟩ := h.setValueAt hi value
    exact .inr ⟨index, stored, s', rfl, hi, hset, hs'⟩

theorem Indexed.setValue {s : CommunicationState T K} (h : s.Indexed) (addr : IpAddress)
    (value : T) : s.SetsAt (s.mapByAddress.lookup (addressKey addr)) value
      (s.setValue addr value) := by
  unfold CommunicationState.setValue
  cases hd : s.mapByAddress.lookup (addressKey addr) with
  | none => exact .inl ⟨rfl, rfl⟩
  | some index =>
    obtain ⟨stored, hi, -⟩ := h.address _ index hd
    obtain ⟨s', hset, hs'⟩ := h.setValueAt hi value
    exact .inr ⟨index, stored, s', rfl, hi, hset, hs'⟩

theorem lookup_doStep (s : CommunicationState T K) (i : Nat) :
    s.doStep.mapToRemove.lookup i = (s.mapToRemove.lookup i).map ToRemoveInfo.stepped := by
  rw [doStep, UMap.lookup_bindValues]
  cases s.mapToRemove.lookup i <;> rfl

theorem Indexed.doStep {s : CommunicationState T K} (h : s.Indexed) : s.doStep.Indexed := by
  refine h.of_same rfl rfl rfl rfl (fun _ hi => hi) (fun _ hi => hi) fun i info hi => ?_
  rw [lookup_doStep] at hi
  obtain ⟨info', hi', rfl⟩ := Option.map_eq_some_iff.mp hi
  refine (h.remove i info' hi').mono fun item hitem hdrop => hitem ?_
  unfold ToRemoveInfo.stepped at hdrop
  split at hdrop <;> exact hdrop

/-- Scheduling the removal of the item at `index`. -/
theorem Indexed.schedule {s : CommunicationState T K} (h : s.Indexed) {index : Nat}
    (info : ToRemoveInfo) (hs : At s.peers index fun item => info.sendDrop → item.active) :
    Indexed { s with mapToRemove := s.mapToRemove.insert index info } := by
  refine h.of_same rfl rfl rfl rfl (fun _ hi => hi) (fun _ hi => hi) fun i info' hi => ?_
  rw [UMap.lookup_insert] at hi
  split at hi
  · next heq =>
    obtain rfl := Option.some.inj hi
    rw [heq]
    exact hs
  · exact h.remove i info' hi

theorem Indexed.removeLater {s : CommunicationState T K} (h : s.Indexed) (p : PeerId) (step : Nat)
    (sendDrop mustNotify : Bool) : (s.removeLater p step sendDrop mustNotify).2.Indexed := by
  unfold CommunicationState.removeLater
  cases hp : s.mapByPeerId.lookup p with
  | none => exact h
  | some index =>
    refine h.schedule _ ((h.peerId p index hp).mono fun item hi _ => ?_)
    rw [StateItem.active, hi]
    rfl

theorem Indexed.removeLaterAddress {s : CommunicationState T K} (h : s.Indexed) (addr : IpAddress)
    (step : Nat) (onlyIfPassive mustNotify : Bool) :
    ∃ b s', s.removeLaterAddress addr step false onlyIfPassive mustNotify = .ok (b, s') ∧
      s'.Indexed ∧ (s' = s ∨ ∃ index, s' =
        { s with mapToRemove := s.mapToRemove.insert index ⟨step, false, mustNotify⟩ } ∧
        s.mapByAddress.lookup (addressKey addr) = some index ∧
        (onlyIfPassive → At s.peers index fun item => item.peer = none)) := by
  unfold CommunicationState.removeLaterAddress
  cases hl : s.mapByAddress.lookup (addressKey addr) with
  | none => exact ⟨false, s, rfl, h, .inl rfl⟩
  | some index =>
    obtain ⟨item, hi, -⟩ := h.address _ _ hl
    have hput := h.schedule ⟨step, false, mustNotify⟩
      ⟨item, hi, fun hd => (nomatch hd)⟩
    have hspared : s.spared index onlyIfPassive = .ok (onlyIfPassive && item.active) := by
      unfold spared
      cases onlyIfPassive with
      | false => rfl
      | true => exact ok_bind (item_eq hi) _
    cases hb : onlyIfPassive && item.active with
    | true =>
      rw [hb] at hspared
      exact ⟨false, s, ok_bind hspared _, h, .inl rfl⟩
    | false =>
      rw [hb] at hspared
      refine ⟨true, _, ok_bind hspared _, hput, .inr ⟨index, rfl, rfl, fun hpass => ?_⟩⟩
      rw [hpass, Bool.true_and, StateItem.active, Option.isSome_eq_false_iff,
        Option.isNone_iff_eq_none] at hb
      exact ⟨item, hi, hb⟩

theorem Indexed.undoRemove {s : CommunicationState T K} (h : s.Indexed) (p : PeerId) :
    (s.undoRemove p).Indexed := by
  unfold CommunicationState.undoRemove
  cases s.mapByPeerId.lookup p with
  | none => exact h
  | some index => exact h.unschedule index

theorem Indexed.removeFromTodoList {s : CommunicationState T K} (h : s.Indexed)
    (addr : IpAddress) : (s.removeFromTodoList addr).2.Indexed := by
  unfold CommunicationState.removeFromTodoList
  cases s.mapByAddress.lookup (addressKey addr) with
  | none => exact h
  | some index =>
    exact h.of_same rfl rfl rfl rfl (fun _ hi => (AList.mem_erase.mp hi).2)
      (fun _ hi => (AList.mem_erase.mp hi).2) h.remove

end CommunicationState

end MeshPP.P2PSocket
