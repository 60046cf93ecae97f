import MeshPP.P2PSocket.PeerIndices

/-! # `remove_pending` and the runs of `communication_state`

`remove_pending` takes out the items that are due, the last one first, and every
container follows (`Renumbered`). With that, every operation keeps the containers
and the list of peers in agreement. -/

set_option linter.unusedSectionVars false

namespace MeshPP.P2PSocket
open MeshPP.Lib

namespace CommunicationState
variable {T K : Type} [Inhabited T] [Inhabited K] [DecidableEq K] [CommunicationValue T K]
  [EmptyDestination]

/-! ## The first loop -/

def keysOf (s : CommunicationState T K) (e : Sigma fun _ : Nat => ToRemoveInfo) :
    List (K × Bool) :=
  s.peers[e.1]?.toList.flatMap fun item =>
    if key item.value ≠ default then [(key item.value, e.2.mustNotify)] else []

def dropsOf (s : CommunicationState T K) (e : Sigma fun _ : Nat => ToRemoveInfo) : List PeerId :=
  s.peers[e.1]?.toList.flatMap fun item => if e.2.sendDrop then item.peer.toList else []

def dueEntries (entries : List (Sigma fun _ : Nat => ToRemoveInfo)) :
    List (Sigma fun _ : Nat => ToRemoveInfo) :=
  entries.filter fun e => e.2.steps = 0

theorem dropOf_eq {stored : StateItem T} {info : ToRemoveInfo}
    (h : info.sendDrop → stored.active) :
    dropOf stored info = .ok (if info.sendDrop then stored.peer.toList else []) := by
  unfold dropOf
  cases hd : info.sendDrop with
  | false => rfl
  | true =>
    obtain ⟨p, hp⟩ := Option.isSome_iff_exists.mp (h hd)
    unfold StateItem.getPeer
    rw [hp]
    rfl

/-- No position is outside the list, and no passive item is asked for its peer. -/
theorem collectDue_eq {s : CommunicationState T K}
    (entries : List (Sigma fun _ : Nat => ToRemoveInfo))
    (h : ∀ e ∈ entries, At s.peers e.1 fun item => e.2.sendDrop → item.active)
    (pending : Pending K) : s.collectDue pending entries = .ok
      { keys := pending.keys ++ (dueEntries entries).flatMap s.keysOf
        drops := pending.drops ++ (dueEntries entries).flatMap s.dropsOf
        indices := pending.indices ++ (dueEntries entries).map Sigma.fst
        mapToRemove := ((dueEntries entries).map Sigma.fst).foldl (fun m i => m.erase i)
          pending.mapToRemove } := by
  induction entries generalizing pending with
  | nil => simp [collectDue, dueEntries]; rfl
  | cons e entries ih =>
    have hrest := ih fun e he => h e (by simp [he])
    obtain ⟨stored, hs, hdrop⟩ := h e (by simp)
    rw [collectDue.eq_def]
    by_cases hz : e.2.steps = 0
    · have hdue : dueEntries (e :: entries) = e :: dueEntries entries := by
        simp [dueEntries, hz]
      have hk : s.keysOf e =
          if key stored.value ≠ default then [(key stored.value, e.2.mustNotify)] else [] := by
        simp [keysOf, hs]
      have hd : s.dropsOf e = if e.2.sendDrop then stored.peer.toList else [] := by
        simp [dropsOf, hs]
      simp only [hz, ne_eq, not_true_eq_false, if_false]
      refine (ok_bind (item_eq hs) _).trans ((ok_bind (dropOf_eq hdrop) _).trans ?_)
      rw [hrest, hdue]
      simp only [List.flatMap_cons, List.map_cons, List.foldl_cons, List.append_assoc, hk, hd]
      rfl
    · have hdue : dueEntries (e :: entries) = dueEntries entries := by
        simp [dueEntries, hz]
      simp only [ne_eq, hz, not_false_eq_true, if_true]
      rw [hrest, hdue]

theorem lookup_foldl_erase (indices : List Nat) (m : UMap Nat ToRemoveInfo) (i : Nat) :
    (indices.foldl (fun m i => m.erase i) m).lookup i =
      if i ∈ indices then none else m.lookup i := by
  induction indices generalizing m with
  | nil => simp
  | cons index indices ih =>
    rw [List.foldl_cons, ih, UMap.lookup_erase]
    by_cases hi : i = index <;> simp [hi]

/-! ## The second loop -/

/-- In `s'` the items at `indices` are gone. -/
structure Renumbered (s s' : CommunicationState T K) (indices : List Nat) : Prop where
  peers : ∀ j : Nat, s'.peers[j]? = s.peers[beforeAll indices j]?
  address : ∀ d j, s'.mapByAddress.lookup d = some j ↔
    s.mapByAddress.lookup d = some (beforeAll indices j)
  peerId : ∀ p j, s'.mapByPeerId.lookup p = some j ↔
    s.mapByPeerId.lookup p = some (beforeAll indices j)
  key : ∀ k j, s'.mapByKey.lookup k = some j ↔ s.mapByKey.lookup k = some (beforeAll indices j)
  listen : ∀ j, j ∈ s'.setToListen ↔ beforeAll indices j ∈ s.setToListen
  connect : ∀ j, j ∈ s'.setToConnect ↔ beforeAll indices j ∈ s.setToConnect
  remove : ∀ j, s'.mapToRemove.lookup j = s.mapToRemove.lookup (beforeAll indices j)

theorem renumbered_foldr (ord : IterOrder) {s : CommunicationState T K} {indices : List Nat}
    (hsort : indices.Pairwise (· < ·)) (hlt : ∀ i ∈ indices, i < s.peers.length)
    (hnone : ∀ i ∈ indices, s.mapToRemove.lookup i = none)
    (hsize : ∀ i, s.peers.length ≤ i → s.mapToRemove.lookup i = none) :
    Renumbered s (indices.foldr (removeAt ord) s) indices := by
  induction indices with
  | nil => exact ⟨fun _ => rfl, fun _ _ => .rfl, fun _ _ => .rfl, fun _ _ => .rfl, fun _ => .rfl,
      fun _ => .rfl, fun _ => rfl⟩
  | cons index rest ih =>
    obtain ⟨hfirst, hrest⟩ := List.pairwise_cons.mp hsort
    have h := ih hrest (fun i hi => hlt i (by simp [hi])) fun i hi => hnone i (by simp [hi])
    rw [List.foldr_cons]
    generalize rest.foldr (removeAt ord) s = s' at h
    have hsame : beforeAll rest index = index := beforeAll_of_lt hfirst
    have hindex : index < s'.peers.length := by
      have hi := h.peers index
      rw [hsame, List.getElem?_eq_getElem (hlt index (by simp))] at hi
      exact (List.getElem?_eq_some_iff.mp hi).1
    refine ⟨fun j => ?_, fun d j => ?_, fun p j => ?_, fun k j => ?_, fun j => ?_, fun j => ?_,
      fun j => ?_⟩
    · exact (getElem?_eraseIdx_before _ _ _).trans (h.peers _)
    · exact UMap.lookup_removePosition.trans (h.address d _)
    · exact UMap.lookup_removePosition.trans (h.peerId p _)
    · exact UMap.lookup_removePosition.trans (h.key k _)
    · exact USet.mem_removePosition.trans (h.listen _)
    · exact USet.mem_removePosition.trans (h.connect _)
    · refine (UMap.lookup_shiftKeys hindex ?_ (fun k hk => ?_) j).trans (h.remove _)
      · rw [h.remove, hsame]
        exact hnone index (by simp)
      · have hout := h.peers k
        rw [List.getElem?_eq_none hk] at hout
        rw [h.remove]
        exact hsize _ (List.getElem?_eq_none_iff.mp hout.symm)

theorem Renumbered.at_iff {s s' : CommunicationState T K} {indices : List Nat}
    (h : Renumbered s s' indices) {j : Nat} {P : StateItem T → Prop} :
    At s'.peers j P ↔ At s.peers (beforeAll indices j) P := by
  unfold At
  rw [h.peers]

theorem Renumbered.indexed {s s' : CommunicationState T K} {indices : List Nat}
    (h : Renumbered s s' indices) (hs : s.Indexed) : s'.Indexed := by
  refine ⟨fun d j hd => ?_, fun p j hp => ?_, fun k j hk => ?_, fun j hj => ?_, fun j hj => ?_,
    fun j info hj => ?_⟩
  · exact h.at_iff.mpr (hs.address d _ ((h.address d j).mp hd))
  · exact h.at_iff.mpr (hs.peerId p _ ((h.peerId p j).mp hp))
  · exact h.at_iff.mpr (hs.key k _ ((h.key k j).mp hk))
  · exact h.at_iff.mpr (hs.connect _ ((h.connect j).mp hj))
  · exact h.at_iff.mpr (hs.listen _ ((h.listen j).mp hj))
  · exact h.at_iff.mpr (hs.remove _ info ((h.remove j).symm.trans hj))

theorem Renumbered.addressFound {s s' : CommunicationState T K} {indices : List Nat}
    (h : Renumbered s s' indices) (hf : ∀ i, s.AddressFound i) (j : Nat) : s'.AddressFound j :=
  fun item hi => (h.address _ j).mpr (hf _ item ((h.peers j).symm.trans hi))

theorem Renumbered.peerFound {s s' : CommunicationState T K} {indices : List Nat}
    (h : Renumbered s s' indices) (hf : ∀ i, s.PeerFound i) (j : Nat) : s'.PeerFound j :=
  fun item p hi hp => (h.peerId p j).mpr (hf _ item p ((h.peers j).symm.trans hi) hp)

/-- What `remove_pending` returns and leaves. -/
structure Removed (s s' : CommunicationState T K) (keys : List (K × Bool)) (drops : List PeerId)
    (indices : List Nat) : Prop where
  sorted : indices.Pairwise (· < ·)
  due : ∀ i, i ∈ indices ↔ s.due i
  renumbered : Renumbered s s' indices
  keys : ∀ x, x ∈ keys ↔ ∃ (i : Nat) (item : StateItem T) (info : ToRemoveInfo),
    s.peers[i]? = some item ∧ s.mapToRemove.lookup i = some info ∧ info.steps = 0 ∧
      CommunicationValue.key item.value ≠ default ∧
      x = (CommunicationValue.key item.value, info.mustNotify)
  drops : ∀ p, p ∈ drops ↔ ∃ (i : Nat) (item : StateItem T) (info : ToRemoveInfo),
    s.peers[i]? = some item ∧ s.mapToRemove.lookup i = some info ∧ info.steps = 0 ∧
      info.sendDrop ∧ item.peer = some p

theorem due_iff {s : CommunicationState T K} {i : Nat} :
    s.due i ↔ ∃ info, s.mapToRemove.lookup i = some info ∧ info.steps = 0 := by
  unfold CommunicationState.due
  cases s.mapToRemove.lookup i <;> simp

theorem mem_dueEntries {s : CommunicationState T K} {ord : IterOrder}
    {e : Sigma fun _ : Nat => ToRemoveInfo} :
    e ∈ dueEntries (ord.order s.mapToRemove.entries) ↔
      s.mapToRemove.lookup e.1 = some e.2 ∧ e.2.steps = 0 := by
  rw [dueEntries, List.mem_filter, ord.mem, UMap.mem_entries, decide_eq_true_iff]

/-- The positions that are due, as `removePending` goes over them. -/
theorem sorted_due (s : CommunicationState T K) (ord : IterOrder) :
    (((dueEntries (ord.order s.mapToRemove.entries)).map Sigma.fst).insertionSort (· ≤ ·)).Pairwise
        (· < ·) ∧
      ∀ i, i ∈ ((dueEntries (ord.order s.mapToRemove.entries)).map Sigma.fst).insertionSort
        (· ≤ ·) ↔ s.due i := by
  refine ⟨?_, fun i => ?_⟩
  · have hnodup : ((dueEntries (ord.order s.mapToRemove.entries)).map Sigma.fst).Nodup :=
      (UMap.keys_nodup ord s.mapToRemove).sublist (List.filter_sublist.map _)
    have hle := List.pairwise_insertionSort (· ≤ ·)
      ((dueEntries (ord.order s.mapToRemove.entries)).map Sigma.fst)
    have hne := (List.perm_insertionSort (· ≤ ·) _).nodup_iff.mpr hnodup
    exact (hle.and hne).imp fun ⟨hab, hne⟩ => Nat.lt_of_le_of_ne hab hne
  · rw [(List.perm_insertionSort _ _).mem_iff, List.mem_map, due_iff]
    constructor
    · rintro ⟨e, he, rfl⟩
      exact ⟨e.2, mem_dueEntries.mp he⟩
    · intro ⟨info, hi⟩
      exact ⟨⟨i, info⟩, mem_dueEntries.mpr hi, rfl⟩

theorem Indexed.removePending {s : CommunicationState T K} (h : s.Indexed) (ord : IterOrder) :
    ∃ keys drops s' indices, s.removePending ord = .ok ((keys, drops), s') ∧
      Removed s s' keys drops indices := by
  let entries := dueEntries (ord.order s.mapToRemove.entries)
  let sorted := (entries.map Sigma.fst).insertionSort (· ≤ ·)
  let m := (entries.map Sigma.fst).foldl (fun m i => m.erase i) s.mapToRemove
  have hcollect := collectDue_eq (s := s) (ord.order s.mapToRemove.entries)
    (fun e he => h.remove e.1 e.2 (UMap.mem_entries.mp (ord.mem.mp he)))
    ⟨[], [], [], s.mapToRemove⟩
  obtain ⟨hsort, hmem⟩ : sorted.Pairwise (· < ·) ∧ ∀ i, i ∈ sorted ↔ s.due i := sorted_due s ord
  have hlookup : ∀ i, m.lookup i = if i ∈ sorted then none else s.mapToRemove.lookup i := by
    intro i
    show AList.lookup i _ = _
    rw [lookup_foldl_erase]
    simp only [(List.perm_insertionSort _ _).mem_iff, sorted]
  have hren : Renumbered { s with mapToRemove := m }
      (sorted.foldr (removeAt ord) { s with mapToRemove := m }) sorted := by
    refine renumbered_foldr ord hsort (fun i hi => ?_) (fun i hi => ?_) fun i hi => ?_
    · obtain ⟨info, hinfo, -⟩ := due_iff.mp ((hmem i).mp hi)
      exact (h.remove i info hinfo).lt
    · show m.lookup i = none
      rw [hlookup, if_pos hi]
    · show m.lookup i = none
      rw [hlookup]
      split
      · rfl
      · cases hr : s.mapToRemove.lookup i with
        | none => rfl
        | some info => exact absurd (h.remove i info hr).lt (Nat.not_lt.mpr hi)
  refine ⟨_, _, _, sorted, ok_bind hcollect _, hsort, hmem,
    ⟨hren.peers, hren.address, hren.peerId, hren.key, hren.listen, hren.connect, fun j => ?_⟩,
    fun x => ?_, fun p => ?_⟩
  · refine (hren.remove j).trans ((hlookup _).trans ?_)
    rw [if_neg (beforeAll_notMem hsort j)]
  · simp only [List.nil_append, List.mem_flatMap, mem_dueEntries, keysOf, Option.mem_toList]
    constructor
    · intro ⟨e, ⟨he, hz⟩, item, hi, hx⟩
      split at hx
      · next hne => exact ⟨e.1, item, e.2, hi, he, hz, hne, List.mem_singleton.mp hx⟩
      · cases hx
    · intro ⟨i, item, info, hi, hr, hz, hne, hx⟩
      exact ⟨⟨i, info⟩, ⟨hr, hz⟩, item, hi, by rw [if_pos hne]; exact List.mem_singleton.mpr hx⟩
  · simp only [List.nil_append, List.mem_flatMap, mem_dueEntries, dropsOf, Option.mem_toList]
    constructor
    · intro ⟨e, ⟨he, hz⟩, item, hi, hx⟩
      split at hx
      · next hd => exact ⟨e.1, item, e.2, hi, he, hz, hd, Option.mem_toList.mp hx⟩
      · cases hx
    · intro ⟨i, item, info, hi, hr, hz, hd, hx⟩
      exact ⟨⟨i, info⟩, ⟨hr, hz⟩, item, hi, by rw [if_pos hd]; exact Option.mem_toList.mpr hx⟩

/-! ## The operations as a machine -/

end CommunicationState

inductive CommunicationOp (T : Type)
  | addPassive (addr : IpAddress) (value : T)
  | addActive (addr : IpAddress) (p : PeerId) (value : T)
  | setActiveValue (p : PeerId) (value : T)
  | setValue (addr : IpAddress) (value : T)
  | doStep
  | removeLater (p : PeerId) (step : Nat) (sendDrop mustNotify : Bool)
  | removeLaterAddress (addr : IpAddress) (step : Nat) (sendDrop onlyIfPassive mustNotify : Bool)
  | undoRemove (p : PeerId)
  | removePending (ord : IterOrder)
  | removeFromTodoList (addr : IpAddress)

inductive CommunicationOut (K : Type)
  | done
  | flag (b : Bool)
  | inserted (code : InsertCode)
  | updated (code : UpdateCode)
  | removed (keys : List (K × Bool)) (drops : List PeerId)

namespace CommunicationState
variable {T K : Type} [Inhabited T] [Inhabited K] [DecidableEq K] [CommunicationValue T K]
  [EmptyDestination]

def apply (s : CommunicationState T K) :
    CommunicationOp T → Except Fault (CommunicationOut K × CommunicationState T K)
  | .addPassive addr value => do
    let r ← s.addPassive addr value
    return (.inserted r.1, r.2)
  | .addActive addr p value => do
    let r ← s.addActive addr p value
    return (.updated r.1, r.2)
  | .setActiveValue p value => return (.done, ← s.setActiveValue p value)
  | .setValue addr value => return (.done, ← s.setValue addr value)
  | .doStep => return (.done, s.doStep)
  | .removeLater p step sendDrop mustNotify =>
    return (.flag (s.removeLater p step sendDrop mustNotify).1,
      (s.removeLater p step sendDrop mustNotify).2)
  | .removeLaterAddress addr step sendDrop onlyIfPassive mustNotify => do
    let r ← s.removeLaterAddress addr step sendDrop onlyIfPassive mustNotify
    return (.flag r.1, r.2)
  | .undoRemove p => return (.done, s.undoRemove p)
  | .removePending ord => do
    let r ← s.removePending ord
    return (.removed r.1.1 r.1.2, r.2)
  | .removeFromTodoList addr =>
    return (.flag (s.removeFromTodoList addr).1, (s.removeFromTodoList addr).2)

/-- A fault leaves the table as it was. -/
def step (s : CommunicationState T K) (op : CommunicationOp T) :
    Except Fault (CommunicationOut K) × CommunicationState T K :=
  match s.apply op with
  | .ok r => (.ok r.1, r.2)
  | .error e => (.error e, s)

/-- No peer id is added that is in the table under another address, and no removal that
sends a drop is scheduled by address. -/
def Admits (s : CommunicationState T K) : CommunicationOp T → Prop
  | .addActive addr p _ => ∀ i, s.mapByPeerId.lookup p = some i →
    s.mapByAddress.lookup (addressKey addr) = some i
  | .removeLaterAddress _ _ sendDrop _ _ => sendDrop = false
  | _ => True

/-- The containers are what the list of peers says. -/
structure Agrees (s : CommunicationState T K) : Prop where
  address : ∀ d i, s.mapByAddress.lookup d = some i ↔
    At s.peers i fun item => addressKey item.address = d
  peerId : ∀ p i, s.mapByPeerId.lookup p = some i ↔ At s.peers i fun item => item.peer = some p
  key : ∀ k i, s.mapByKey.lookup k = some i →
    At s.peers i fun item => CommunicationValue.key item.value = k
  connect : ∀ i ∈ s.setToConnect, At s.peers i fun item => item.peer = none
  listen : ∀ i ∈ s.setToListen, At s.peers i fun item => item.peer = none
  remove : ∀ i info, s.mapToRemove.lookup i = some info →
    At s.peers i fun item => info.sendDrop → item.active

theorem Consistent.agrees {s : CommunicationState T K} (h : s.Consistent) : s.Agrees := by
  refine ⟨fun d i => ⟨h.address d i, ?_⟩, fun p i => ⟨h.peerId p i, ?_⟩, h.key, h.connect,
    h.listen, h.remove⟩
  · rintro ⟨item, hi, rfl⟩
    exact h.addressFound i item hi
  · intro ⟨item, hi, hp⟩
    exact h.peerFound i item p hi hp

theorem consistent_init : (init : CommunicationState T K).Consistent where
  address _ _ h := nomatch h
  peerId _ _ h := nomatch h
  key _ _ h := nomatch h
  connect _ h := absurd h (AList.notMem_empty _)
  listen _ h := absurd h (AList.notMem_empty _)
  remove _ _ h := nomatch h
  addressFound _ _ h := nomatch h
  peerFound _ _ _ h := nomatch h

theorem Consistent.addActive {s : CommunicationState T K} (h : s.Consistent) {addr : IpAddress}
    {p : PeerId} (value : T) (hop : s.Admits (.addActive addr p value)) :
    ∃ code s', s.addActive addr p value = .ok (code, s') ∧ s'.Consistent := by
  rcases h.toIndexed.addActive addr p value with ⟨code, s', index, hadd, ha⟩ | ⟨-, hnot⟩
  · exact ⟨code, s', hadd, ha.indexed, ha.found h.addressFound,
      ha.peerFound h.peerFound fun i hi => ha.known i (hop i hi)⟩
  · exact absurd h.peerFound hnot

theorem Consistent.of_setsAt {s : CommunicationState T K} (h : s.Consistent) {found : Option Nat}
    {value : T} {run : Except Fault (CommunicationState T K)} (hrun : s.SetsAt found value run) :
    ∃ s', run = .ok s' ∧ s'.Consistent := by
  obtain ⟨-, hrun⟩ | ⟨index, stored, s', -, hi, hrun, hs'⟩ := hrun
  · exact ⟨s, hrun, h⟩
  · exact ⟨s', hrun, hs'.indexed, hs'.addressFound hi h.addressFound,
      hs'.peerFound hi h.peerFound⟩

/-- A table in which every item is found as before. -/
theorem Consistent.of_same {s s' : CommunicationState T K} (h : s.Consistent) (hi : s'.Indexed)
    (hpeers : s'.peers = s.peers) (haddr : s'.mapByAddress = s.mapByAddress)
    (hid : s'.mapByPeerId = s.mapByPeerId) : s'.Consistent := by
  refine ⟨hi, fun i => ?_, fun i => ?_⟩
  · unfold AddressFound
    rw [hpeers, haddr]
    exact h.addressFound i
  · unfold PeerFound
    rw [hpeers, hid]
    exact h.peerFound i

theorem Consistent.apply {s : CommunicationState T K} (h : s.Consistent) {op : CommunicationOp T}
    (hop : s.Admits op) : ∃ out s', s.apply op = .ok (out, s') ∧ s'.Consistent := by
  cases op with
  | addPassive addr value =>
    obtain ⟨code, s', index, hadd, hs'⟩ := h.toIndexed.addPassive addr value
    exact ⟨_, s', ok_bind hadd _, hs'.indexed, hs'.found h.addressFound,
      hs'.quiet.peerFound h.peerFound⟩
  | addActive addr p value =>
    obtain ⟨code, s', hadd, hs'⟩ := h.addActive value hop
    exact ⟨_, s', ok_bind hadd _, hs'⟩
  | setActiveValue p value =>
    obtain ⟨s', hset, hs'⟩ := h.of_setsAt (h.toIndexed.setActiveValue p value)
    exact ⟨_, s', ok_bind hset _, hs'⟩
  | setValue addr value =>
    obtain ⟨s', hset, hs'⟩ := h.of_setsAt (h.toIndexed.setValue addr value)
    exact ⟨_, s', ok_bind hset _, hs'⟩
  | doStep => exact ⟨_, _, rfl, h.of_same h.toIndexed.doStep rfl rfl rfl⟩
  | removeLater p step sendDrop mustNotify =>
    refine ⟨_, _, rfl, h.of_same (h.toIndexed.removeLater p step sendDrop mustNotify) ?_ ?_ ?_⟩ <;>
      unfold CommunicationState.removeLater <;> split <;> rfl
  | removeLaterAddress addr step sendDrop onlyIfPassive mustNotify =>
    obtain rfl : sendDrop = false := hop
    obtain ⟨b, s', hrun, hidx, hs'⟩ :=
      h.toIndexed.removeLaterAddress addr step onlyIfPassive mustNotify
    refine ⟨_, s', ok_bind hrun _, ?_⟩
    rcases hs' with rfl | ⟨index, rfl, -, -⟩
    · exact h
    · exact h.of_same hidx rfl rfl rfl
  | undoRemove p =>
    refine ⟨_, _, rfl, h.of_same (h.toIndexed.undoRemove p) ?_ ?_ ?_⟩ <;>
      unfold CommunicationState.undoRemove <;> split <;> rfl
  | removePending ord =>
    obtain ⟨keys, drops, s', indices, hrun, hs'⟩ := h.toIndexed.removePending ord
    exact ⟨_, s', ok_bind hrun _, hs'.renumbered.indexed h.toIndexed,
      hs'.renumbered.addressFound h.addressFound, hs'.renumbered.peerFound h.peerFound⟩
  | removeFromTodoList addr =>
    refine ⟨_, _, rfl, h.of_same (h.toIndexed.removeFromTodoList addr) ?_ ?_ ?_⟩ <;>
      unfold CommunicationState.removeFromTodoList <;> split <;> rfl

theorem Consistent.step {s : CommunicationState T K} (h : s.Consistent) {op : CommunicationOp T}
    (hop : s.Admits op) : (∃ out, (s.step op).1 = .ok out) ∧ (s.step op).2.Consistent := by
  obtain ⟨out, s', hrun, hs'⟩ := h.apply hop
  rw [CommunicationState.step, hrun]
  exact ⟨⟨out, rfl⟩, hs'⟩

theorem Consistent.run {s : CommunicationState T K} (h : s.Consistent)
    {ops : List (CommunicationOp T)} (hop : Meets CommunicationState.step Admits s ops) :
    (∀ out ∈ outputs CommunicationState.step s ops, ∃ r, out = .ok r) ∧
      (final CommunicationState.step s ops).Consistent := by
  induction ops generalizing s with
  | nil => exact ⟨fun out hout => (nomatch hout), h⟩
  | cons op ops ih =>
    obtain ⟨hok, hs'⟩ := h.step hop.1
    obtain ⟨hoks, hfinal⟩ := ih hs' hop.2
    refine ⟨fun out hout => ?_, hfinal⟩
    rcases List.mem_cons.mp hout with rfl | hout
    · exact hok
    · exact hoks out hout

/-- No passive item is asked for its peer. -/
theorem mapM_getPeer {items : List (StateItem T)} (h : ∀ item ∈ items, item.active) :
    items.mapM StateItem.getPeer = .ok (items.flatMap fun item => item.peer.toList) := by
  induction items with
  | nil => rfl
  | cons item items ih =>
    obtain ⟨p, hp⟩ := Option.isSome_iff_exists.mp (h item (by simp))
    have hget : item.getPeer = .ok p := by rw [StateItem.getPeer, hp]
    rw [List.mapM_cons]
    refine (ok_bind hget _).trans ((ok_bind (ih fun it hit => h it (by simp [hit])) _).trans ?_)
    rw [List.flatMap_cons, hp]
    rfl

theorem active_of_mem_getConnected {s : CommunicationState T K} {item : StateItem T}
    (h : item ∈ s.getConnected) : item.active := by
  obtain ⟨e, he, rfl⟩ := List.mem_map.mp h
  have := (List.mem_filter.mp he).2
  simp only [Bool.and_eq_true] at this
  exact this.2.1

theorem active_of_mem_getListening {s : CommunicationState T K} {item : StateItem T}
    (h : item ∈ s.getListening) : item.active := by
  obtain ⟨e, he, rfl⟩ := List.mem_map.mp h
  have := (List.mem_filter.mp he).2
  simp only [Bool.and_eq_true] at this
  exact this.2.1

/-- In every run the containers stay what the list of peers says, no step ends in a fault,
and every item handed out as connected or listening has a peer. -/
theorem run_agrees (ops : List (CommunicationOp T))
    (hop : Meets step Admits (init : CommunicationState T K) ops) :
    (final step (init : CommunicationState T K) ops).Agrees ∧
      (∀ out ∈ outputs step (init : CommunicationState T K) ops, ∃ r, out = .ok r) ∧
      (∃ ps, (final step (init : CommunicationState T K) ops).getConnected.mapM
        StateItem.getPeer = .ok ps) ∧
      ∃ ps, (final step (init : CommunicationState T K) ops).getListening.mapM
        StateItem.getPeer = .ok ps := by
  obtain ⟨hok, hfinal⟩ := consistent_init.run hop
  exact ⟨hfinal.agrees, hok, ⟨_, mapM_getPeer fun item hi => active_of_mem_getConnected hi⟩,
    ⟨_, mapM_getPeer fun item hi => active_of_mem_getListening hi⟩⟩

omit [EmptyDestination] in
/-- A peer that connects, is given up and reconnects. -/
theorem run_agrees_reconnect :
    letI : EmptyDestination := ⟨fun d => d.address = "" ∧ d.port = 0⟩
    let addr : IpAddress := ⟨⟨"10.0.0.1", 80⟩, ⟨"10.0.0.2", 80⟩, .ipv4⟩
    let s : CommunicationState PeerState String := final step init
      [.addPassive addr default, .addActive addr "p" default, .removeLater "p" 0 true true,
       .removePending .stored, .addActive addr "q" default]
    s.mapByPeerId.lookup "p" = none ∧ s.mapByPeerId.lookup "q" = some 0 ∧ s.Agrees := by
  let _ : EmptyDestination := ⟨fun d => d.address = "" ∧ d.port = 0⟩
  refine ⟨by decide, by decide, (run_agrees (T := PeerState) _ ?_).1⟩
  refine ⟨trivial, ?_, trivial, trivial, ?_, trivial⟩
  · intro i h
    cases h
  · intro i h
    cases h

end CommunicationState

end MeshPP.P2PSocket
