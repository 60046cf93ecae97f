import MeshPP.P2PSocket.PeerRemoval

/-! # Scheduled removals of `communication_state`

The schedule is kept by position, and positions change with every removal. An
item is known by the key of its address instead: under that key its entry in the
schedule is followed through a run. -/

set_option linter.unusedSectionVars false

namespace MeshPP.P2PSocket
open MeshPP.Lib

namespace CommunicationState
variable {T K : Type} [Inhabited T] [Inhabited K] [DecidableEq K] [CommunicationValue T K]
  [EmptyDestination]

/-- The containers hold what is true of the items, and every item is found by its address. -/
structure Addressed (s : CommunicationState T K) : Prop extends Indexed s where
  addressFound : ∀ i, s.AddressFound i

/-- No removal that sends a drop is scheduled by address: every caller of that `remove_later`
passes false (`run_asks`). -/
def SendsNoDrop : CommunicationOp T → Prop
  | .removeLaterAddress _ _ sendDrop _ _ => sendDrop = false
  | _ => True

theorem addressed_init : (init : CommunicationState T K).Addressed :=
  ⟨consistent_init.toIndexed, consistent_init.addressFound⟩

/-! ## What `remove_pending` returns -/

/-- The keys that the removal of the item at `i` gives up, when it is due. -/
def dueKeys (s : CommunicationState T K) (i : Nat) : List (K × Bool) :=
  match s.peers[i]?, s.mapToRemove.lookup i with
  | some item, some info =>
    if info.steps = 0 ∧ key item.value ≠ default then [(key item.value, info.mustNotify)] else []
  | _, _ => []

/-- The peers that the removal of the item at `i` sends a drop, when it is due. -/
def dueDrops (s : CommunicationState T K) (i : Nat) : List PeerId :=
  match s.peers[i]?, s.mapToRemove.lookup i with
  | some item, some info => if info.steps = 0 ∧ info.sendDrop then item.peer.toList else []
  | _, _ => []

theorem dueKeys_eq (s : CommunicationState T K) (i : Nat) : s.dueKeys i =
    (s.mapToRemove.lookup i).elim [] fun info =>
      if info.steps = 0 then s.keysOf ⟨i, info⟩ else [] := by
  unfold dueKeys keysOf
  cases s.mapToRemove.lookup i with
  | none => cases s.peers[i]? <;> rfl
  | some info =>
    by_cases hz : info.steps = 0
    · cases hi : s.peers[i]? <;> simp [hz, hi]
    · cases hi : s.peers[i]? <;> simp [hz, hi]

theorem dueDrops_eq (s : CommunicationState T K) (i : Nat) : s.dueDrops i =
    (s.mapToRemove.lookup i).elim [] fun info =>
      if info.steps = 0 then s.dropsOf ⟨i, info⟩ else [] := by
  unfold dueDrops dropsOf
  cases s.mapToRemove.lookup i with
  | none => cases s.peers[i]? <;> rfl
  | some info =>
    by_cases hz : info.steps = 0
    · cases hi : s.peers[i]? <;> simp [hz, hi]
    · cases hi : s.peers[i]? <;> simp [hz, hi]

theorem flatMap_dueEntries {α : Type} (g : (Sigma fun _ : Nat => ToRemoveInfo) → List α)
    (entries : List (Sigma fun _ : Nat => ToRemoveInfo)) :
    (dueEntries entries).flatMap g =
      entries.flatMap fun e => if e.2.steps = 0 then g e else [] := by
  induction entries with
  | nil => rfl
  | cons e entries ih =>
    by_cases hz : e.2.steps = 0
    · simp only [dueEntries, List.filter_cons, hz, decide_true, if_true, List.flatMap_cons]
      exact congrArg (g e ++ ·) ih
    · simp only [dueEntries, List.filter_cons, hz, decide_false, Bool.false_eq_true, if_false,
        List.flatMap_cons, List.nil_append]
      exact ih

/-- What is collected from the due entries is collected position by position. -/
theorem Indexed.perm_due {α : Type} {s : CommunicationState T K} (h : s.Indexed) (ord : IterOrder)
    (g : (Sigma fun _ : Nat => ToRemoveInfo) → List α) :
    ((dueEntries (ord.order s.mapToRemove.entries)).flatMap g).Perm
      ((List.range s.peers.length).flatMap fun i =>
        (s.mapToRemove.lookup i).elim [] fun info =>
          if info.steps = 0 then g ⟨i, info⟩ else []) := by
  rw [flatMap_dueEntries]
  refine ((ord.perm _).flatMap_right _).trans ?_
  have hperm := UMap.entries_perm_range fun i info hi => (h.remove i info hi).lt
  refine (hperm.flatMap_right _).trans ?_
  generalize List.range s.peers.length = l
  induction l with
  | nil => exact .refl _
  | cons i l ih =>
    rw [List.filterMap_cons, List.flatMap_cons]
    cases s.mapToRemove.lookup i with
    | none => exact ih
    | some info =>
      rw [Option.map_some, List.flatMap_cons]
      exact ih.append_left _

theorem Indexed.removePending_returns {s s' : CommunicationState T K} (h : s.Indexed)
    {ord : IterOrder} {keys : List (K × Bool)} {drops : List PeerId}
    (hrun : s.removePending ord = .ok ((keys, drops), s')) :
    keys.Perm ((List.range s.peers.length).flatMap s.dueKeys) ∧
      drops.Perm ((List.range s.peers.length).flatMap s.dueDrops) := by
  have hcollect := collectDue_eq (s := s) (ord.order s.mapToRemove.entries)
    (fun e he => h.remove e.1 e.2 (UMap.mem_entries.mp (ord.mem.mp he)))
    ⟨[], [], [], s.mapToRemove⟩
  have hres := hrun.symm.trans (ok_bind hcollect _)
  obtain ⟨hout, -⟩ := Prod.mk.inj (Except.ok.inj hres)
  obtain ⟨rfl, rfl⟩ := Prod.mk.inj hout
  refine ⟨(h.perm_due ord s.keysOf).trans (List.Perm.of_eq ?_),
    (h.perm_due ord s.dropsOf).trans (List.Perm.of_eq ?_)⟩
  · exact List.flatMap_congr fun i _ => (s.dueKeys_eq i).symm
  · exact List.flatMap_congr fun i _ => (s.dueDrops_eq i).symm

/-- What `remove_pending` does to a table: the items at the positions that `origin` leaves
out, which are those due, are gone, and the others stand in their old order. -/
structure RemovesDue (s s' : CommunicationState T K) (keys : List (K × Bool))
    (drops : List PeerId) (origin : Nat → Nat) : Prop where
  ordered : StrictMono origin
  survivors : ∀ i, ¬ s.due i ↔ ∃ j, origin j = i
  peers : ∀ j : Nat, s'.peers[j]? = s.peers[origin j]?
  remove : ∀ j, s'.mapToRemove.lookup j = s.mapToRemove.lookup (origin j)
  connect : ∀ j, j ∈ s'.setToConnect ↔ origin j ∈ s.setToConnect
  listen : ∀ j, j ∈ s'.setToListen ↔ origin j ∈ s.setToListen
  keys : keys.Perm ((List.range s.peers.length).flatMap s.dueKeys)
  drops : drops.Perm ((List.range s.peers.length).flatMap s.dueDrops)

theorem Indexed.removesDue {s : CommunicationState T K} (h : s.Indexed) (ord : IterOrder) :
    ∃ keys drops s' origin, s.step (.removePending ord) = (.ok (.removed keys drops), s') ∧
      RemovesDue s s' keys drops origin := by
  obtain ⟨keys, drops, s', indices, hrun, hr⟩ := h.removePending ord
  obtain ⟨hkeys, hdrops⟩ := h.removePending_returns hrun
  refine ⟨keys, drops, s', beforeAll indices, ?_, beforeAll_strictMono indices, fun i => ?_,
    hr.renumbered.peers, hr.renumbered.remove, hr.renumbered.connect, hr.renumbered.listen,
    hkeys, hdrops⟩
  · rw [CommunicationState.step, CommunicationState.apply, ok_bind hrun]
    rfl
  · rw [← hr.due]
    constructor
    · exact fun hi => exists_beforeAll hr.sorted hi
    · intro hi
      obtain ⟨j, rfl⟩ := hi
      exact beforeAll_notMem hr.sorted j

/-! ## One step -/

theorem step_ok {s s' : CommunicationState T K} {op : CommunicationOp T} {out : CommunicationOut K}
    (h : s.apply op = .ok (out, s')) : s.step op = (.ok out, s') := by
  rw [CommunicationState.step, h]

theorem step_error {s : CommunicationState T K} {op : CommunicationOp T} {fault : Fault}
    (h : s.apply op = .error fault) : s.step op = (.error fault, s) := by
  rw [CommunicationState.step, h]

theorem Addressed.of_same {s s' : CommunicationState T K} (h : s.Addressed) (hi : s'.Indexed)
    (hpeers : s'.peers = s.peers) (haddr : s'.mapByAddress = s.mapByAddress) : s'.Addressed := by
  refine ⟨hi, fun i => ?_⟩
  unfold AddressFound
  rw [hpeers, haddr]
  exact h.addressFound i

theorem removeLater_remove (s : CommunicationState T K) (p : PeerId) (step : Nat)
    (sendDrop mustNotify : Bool) (i : Nat) :
    (s.removeLater p step sendDrop mustNotify).2.mapToRemove.lookup i =
      if s.mapByPeerId.lookup p = some i then some ⟨step, sendDrop, mustNotify⟩
      else s.mapToRemove.lookup i := by
  unfold CommunicationState.removeLater
  cases s.mapByPeerId.lookup p with
  | none => rw [if_neg (by simp)]
  | some index =>
    show (s.mapToRemove.insert index _).lookup i = _
    rw [UMap.lookup_insert]
    by_cases hi : i = index
    · rw [if_pos hi, if_pos (congrArg some hi.symm)]
    · rw [if_neg hi, if_neg fun he => hi (Option.some.inj he).symm]

theorem removeLater_tables (s : CommunicationState T K) (p : PeerId) (step : Nat)
    (sendDrop mustNotify : Bool) :
    (s.removeLater p step sendDrop mustNotify).2.peers = s.peers ∧
      (s.removeLater p step sendDrop mustNotify).2.mapByAddress = s.mapByAddress := by
  unfold CommunicationState.removeLater
  split <;> exact ⟨rfl, rfl⟩

theorem undoRemove_tables (s : CommunicationState T K) (p : PeerId) :
    (s.undoRemove p).peers = s.peers ∧ (s.undoRemove p).mapByAddress = s.mapByAddress := by
  unfold CommunicationState.undoRemove
  split <;> exact ⟨rfl, rfl⟩

theorem undoRemove_remove {s : CommunicationState T K} {p : PeerId} {i : Nat}
    (h : s.mapByPeerId.lookup p ≠ some i) :
    (s.undoRemove p).mapToRemove.lookup i = s.mapToRemove.lookup i := by
  unfold CommunicationState.undoRemove
  cases hp : s.mapByPeerId.lookup p with
  | none => rfl
  | some index =>
    show (s.mapToRemove.erase index).lookup i = _
    rw [UMap.lookup_erase, if_neg]
    rintro rfl
    exact h hp

theorem removeFromTodoList_tables (s : CommunicationState T K) (addr : IpAddress) :
    (s.removeFromTodoList addr).2.peers = s.peers ∧
      (s.removeFromTodoList addr).2.mapByAddress = s.mapByAddress ∧
      (s.removeFromTodoList addr).2.mapToRemove = s.mapToRemove := by
  unfold CommunicationState.removeFromTodoList
  split <;> exact ⟨rfl, rfl, rfl⟩

theorem remove_store {s s' : CommunicationState T K} {index : Nat} {addr : IpAddress} {value : T}
    (h : s.store index addr value = .ok s') : s'.mapToRemove = s.mapToRemove := by
  obtain ⟨stored, -, hs'⟩ := ok_of_bind h
  obtain rfl := Except.ok.inj hs'
  rfl

/-- `add_passive` takes an item off the schedule only when it uses the item again. -/
theorem Indexed.remove_addPassive {s s' : CommunicationState T K} (h : s.Indexed)
    {addr : IpAddress} {value : T} {code : InsertCode}
    (hadd : s.addPassive addr value = .ok (code, s')) {d : IpDestination} {i : Nat}
    (hd : s.mapByAddress.lookup d = some i)
    (hkept : addressKey addr = d → s.reusable i ≠ .ok true) :
    s'.mapToRemove.lookup i = s.mapToRemove.lookup i := by
  unfold CommunicationState.addPassive at hadd
  split at hadd
  · obtain ⟨s₁, hst, hres⟩ := ok_of_bind hadd
    obtain ⟨-, rfl⟩ := Prod.mk.inj (Except.ok.inj hres)
    rw [remove_store hst]
  · next index hl =>
    obtain ⟨b, hb, hres⟩ := ok_of_bind hadd
    cases b with
    | false =>
      obtain ⟨-, rfl⟩ := Prod.mk.inj (Except.ok.inj hres)
      rfl
    | true =>
      obtain ⟨s₁, hst, hres⟩ := ok_of_bind hres
      obtain ⟨-, rfl⟩ := Prod.mk.inj (Except.ok.inj hres)
      rw [remove_store hst]
      show (s.mapToRemove.erase index).lookup i = _
      rw [UMap.lookup_erase, if_neg]
      -- an item has one address
      rintro rfl
      obtain ⟨item, hi, hkey⟩ := h.address _ _ hd
      obtain ⟨item', hi', hkey'⟩ := h.address _ _ hl
      obtain rfl := Option.some.inj (hi.symm.trans hi')
      exact hkept (hkey'.symm.trans hkey) hb

theorem tables_addActive {s s' : CommunicationState T K} {addr : IpAddress} {p : PeerId} {value : T}
    {code : UpdateCode} (h : s.addActive addr p value = .ok (code, s')) :
    ∃ c s₁, s.addPassive addr = .ok (c, s₁) ∧ s'.mapByAddress = s₁.mapByAddress ∧
      s'.mapToRemove = s₁.mapToRemove := by
  obtain ⟨⟨c, s₁⟩, hadd, h⟩ := ok_of_bind h
  refine ⟨c, s₁, hadd, ?_⟩
  dsimp only at h
  split at h
  · cases h
  · obtain ⟨stored, -, h⟩ := ok_of_bind h
    obtain ⟨m, -, h⟩ := ok_of_bind h
    obtain ⟨-, rfl⟩ := Prod.mk.inj (Except.ok.inj h)
    exact ⟨rfl, rfl⟩

/-- What `set_value` and `set_active_value` come to. -/
theorem Addressed.of_setsAt {s : CommunicationState T K} (h : s.Addressed) {found : Option Nat}
    {value : T} {run : Except Fault (CommunicationState T K)} (hrun : s.SetsAt found value run) :
    ∃ s', run = .ok s' ∧ s'.Addressed ∧ s'.mapByAddress = s.mapByAddress ∧
      s'.mapToRemove = s.mapToRemove := by
  obtain ⟨-, hrun⟩ | ⟨index, stored, s', -, hi, hrun, hs'⟩ := hrun
  · exact ⟨s, hrun, h, rfl, rfl⟩
  · exact ⟨s', hrun, ⟨hs'.indexed, hs'.addressFound hi h.addressFound⟩, hs'.address, hs'.remove⟩

/-! ## An item on the schedule -/

/-- There is an item under the address key `d`. -/
def Holds (s : CommunicationState T K) (d : IpDestination) : Prop :=
  ∃ i, At s.peers i fun item => addressKey item.address = d

/-- The item under the address key `d` is to be removed as `info` says. -/
def Scheduled (s : CommunicationState T K) (d : IpDestination) (info : ToRemoveInfo) : Prop :=
  ∃ i, At s.peers i (fun item => addressKey item.address = d) ∧ s.mapToRemove.lookup i = some info

/-- The operation does not schedule the item under `d` anew, does not take it off the
schedule, and does not use it again while it is due. -/
def LeavesAlone (d : IpDestination) (s : CommunicationState T K) : CommunicationOp T → Prop
  | .removeLater p _ _ _ | .undoRemove p => ∀ i, s.mapByPeerId.lookup p = some i →
    ¬ At s.peers i fun item => addressKey item.address = d
  | .removeLaterAddress addr _ _ onlyIfPassive _ => addressKey addr = d → onlyIfPassive ∧
    ∀ (i : Nat) (item : StateItem T), s.peers[i]? = some item → addressKey item.address = d →
      item.active
  | .addPassive addr _ | .addActive addr _ _ => addressKey addr = d →
    ∀ i, At s.peers i (fun item => addressKey item.address = d) → s.reusable i ≠ .ok true
  | _ => True

/-- What an operation that leaves the item alone makes of its entry in the schedule; none
when the item is removed. -/
def remaining : CommunicationOp T → ToRemoveInfo → Option ToRemoveInfo
  | .doStep, info => some info.stepped
  | .removePending _, info => if info.steps = 0 then none else some info
  | _, info => some info

theorem Addressed.at_iff {s : CommunicationState T K} (h : s.Addressed) {d : IpDestination}
    {i : Nat} : At s.peers i (fun item => addressKey item.address = d) ↔
      s.mapByAddress.lookup d = some i := by
  constructor
  · intro hi
    obtain ⟨item, hi, rfl⟩ := hi
    exact h.addressFound i item hi
  · exact h.address d i

/-- What a step does to the table and the schedule. -/
structure Follows (s s' : CommunicationState T K) (op : CommunicationOp T) : Prop where
  addressed : s'.Addressed
  scheduled : ∀ d info info', s.Scheduled d info → LeavesAlone d s op →
    remaining op info = some info' → s'.Scheduled d info'
  removed : ∀ d info, s.Scheduled d info → remaining op info = none → ¬ s'.Holds d

theorem follows_of_kept {s s' : CommunicationState T K} {op : CommunicationOp T} (h : s.Addressed)
    (h' : s'.Addressed) (hop : ∀ info, remaining op info = some info)
    (hkept : ∀ d i, s.mapByAddress.lookup d = some i → LeavesAlone d s op →
      s'.mapByAddress.lookup d = some i ∧ s'.mapToRemove.lookup i = s.mapToRemove.lookup i) :
    Follows s s' op := by
  refine ⟨h', fun d info info' hs ha hr => ?_, fun d info _ hr => ?_⟩
  · obtain ⟨i, hi, hinfo⟩ := hs
    obtain rfl := Option.some.inj ((hop info).symm.trans hr)
    obtain ⟨haddr, hremove⟩ := hkept d i (h.at_iff.mp hi) ha
    exact ⟨i, h'.at_iff.mpr haddr, hremove.trans hinfo⟩
  · rw [hop] at hr
    cases hr

/-- The addresses and the schedule are left alone. -/
theorem Addressed.follows_same {s s' : CommunicationState T K} {op : CommunicationOp T}
    (h : s.Addressed) (hop : ∀ info, remaining op info = some info) (hs' : s'.Addressed)
    (haddr : s'.mapByAddress = s.mapByAddress) (hremove : s'.mapToRemove = s.mapToRemove) :
    Follows s s' op := by
  refine follows_of_kept h hs' hop fun d i hd _ => ?_
  rw [haddr, hremove]
  exact ⟨hd, rfl⟩

theorem Addressed.follows_addPassive {s s' : CommunicationState T K} (h : s.Addressed)
    {addr : IpAddress} {value : T} {code : InsertCode}
    (hadd : s.addPassive addr value = .ok (code, s')) {d : IpDestination} {i : Nat}
    (hd : s.mapByAddress.lookup d = some i)
    (hkept : addressKey addr = d →
      ∀ i, At s.peers i (fun item => addressKey item.address = d) → s.reusable i ≠ .ok true) :
    s'.mapByAddress.lookup d = some i ∧ s'.mapToRemove.lookup i = s.mapToRemove.lookup i := by
  obtain ⟨code', s₁, index, hrun, hp⟩ := h.toIndexed.addPassive addr value
  obtain ⟨-, rfl⟩ := Prod.mk.inj (Except.ok.inj (hadd.symm.trans hrun))
  refine ⟨?_, h.toIndexed.remove_addPassive hadd hd fun he => hkept he i (h.at_iff.mpr hd)⟩
  rw [hp.address]
  split
  · next he =>
    rw [he] at hd
    rw [hp.known i hd]
  · exact hd

theorem Addressed.follows_addActive {s : CommunicationState T K} (h : s.Addressed)
    (addr : IpAddress) (p : PeerId) (value : T) :
    Follows s (s.step (.addActive addr p value)).2 (.addActive addr p value) := by
  rcases h.toIndexed.addActive addr p value with ⟨code, s', index, hadd, ha⟩ | ⟨hadd, -⟩
  · obtain ⟨c, s₁, hpassive, haddr, hremove⟩ := tables_addActive hadd
    rw [step_ok (ok_bind hadd _)]
    refine follows_of_kept h ⟨ha.indexed, ha.found h.addressFound⟩ (fun _ => rfl)
      fun d i hd hleft => ?_
    show s'.mapByAddress.lookup d = some i ∧ s'.mapToRemove.lookup i = _
    rw [haddr, hremove]
    exact h.follows_addPassive hpassive hd hleft
  · have herror : s.apply (.addActive addr p value) = .error .assertion := by
      rw [CommunicationState.apply, hadd]
      rfl
    rw [step_error herror]
    exact h.follows_same (fun _ => rfl) h rfl rfl

theorem Addressed.follows_removeLaterAddress {s : CommunicationState T K} (h : s.Addressed)
    (addr : IpAddress) (step : Nat) (onlyIfPassive mustNotify : Bool) :
    Follows s (s.step (.removeLaterAddress addr step false onlyIfPassive mustNotify)).2
      (.removeLaterAddress addr step false onlyIfPassive mustNotify) := by
  obtain ⟨b, s', hrun, hidx, hs'⟩ :=
    h.toIndexed.removeLaterAddress addr step onlyIfPassive mustNotify
  rw [step_ok (ok_bind hrun _)]
  rcases hs' with rfl | ⟨index, rfl, hindex, hpassive⟩
  · exact h.follows_same (fun _ => rfl) h rfl rfl
  · refine follows_of_kept h (h.of_same hidx rfl rfl) (fun _ => rfl) fun d i hd ha => ⟨hd, ?_⟩
    show (s.mapToRemove.insert index _).lookup i = _
    rw [UMap.lookup_insert, if_neg]
    -- an item with this address would be active, so it is spared
    rintro rfl
    obtain ⟨item, hi, hkey⟩ := h.address _ _ hd
    obtain ⟨item', hi', hkey'⟩ := h.address _ _ hindex
    obtain rfl := Option.some.inj (hi.symm.trans hi')
    obtain ⟨honly, hactive⟩ := ha (hkey'.symm.trans hkey)
    obtain ⟨item', hi', hp⟩ := hpassive honly
    obtain rfl := Option.some.inj (hi.symm.trans hi')
    have hact := hactive i item hi hkey
    rw [StateItem.active, hp] at hact
    cases hact

theorem Addressed.follows_removePending {s : CommunicationState T K} (h : s.Addressed)
    (ord : IterOrder) : Follows s (s.step (.removePending ord)).2 (.removePending ord) := by
  obtain ⟨keys, drops, s', indices, hrun, hr⟩ := h.toIndexed.removePending ord
  have hstep : (s.step (.removePending ord)).2 = s' := by
    rw [step_ok (ok_bind hrun _)]
  have haddressed : s'.Addressed :=
    ⟨hr.renumbered.indexed h.toIndexed, hr.renumbered.addressFound h.addressFound⟩
  rw [hstep]
  refine ⟨haddressed, fun d info info' hs _ hrem => ?_, fun d info hs hrem hheld => ?_⟩
  · obtain ⟨i, hi, hinfo⟩ := hs
    change (if info.steps = 0 then none else some info) = some info' at hrem
    split at hrem
    · cases hrem
    · next hz =>
      obtain rfl := Option.some.inj hrem
      have hnot : i ∉ indices := by
        rw [hr.due, due_iff]
        intro hdue
        obtain ⟨info', hinfo', hz'⟩ := hdue
        obtain rfl := Option.some.inj (hinfo.symm.trans hinfo')
        exact hz hz'
      obtain ⟨j, rfl⟩ := exists_beforeAll hr.sorted hnot
      refine ⟨j, haddressed.at_iff.mpr ?_, (hr.renumbered.remove j).trans hinfo⟩
      exact (hr.renumbered.address d j).mpr (h.at_iff.mp hi)
  · obtain ⟨i, hi, hinfo⟩ := hs
    obtain ⟨j, hj⟩ := hheld
    have hlookup := (hr.renumbered.address d j).mp (haddressed.at_iff.mp hj)
    obtain rfl := Option.some.inj ((h.at_iff.mp hi).symm.trans hlookup)
    change (if info.steps = 0 then none else some info) = none at hrem
    split at hrem
    · next hz =>
      exact beforeAll_notMem hr.sorted j ((hr.due _).mpr (due_iff.mpr ⟨info, hinfo, hz⟩))
    · cases hrem

theorem Addressed.follows {s : CommunicationState T K} (h : s.Addressed) {op : CommunicationOp T}
    (hop : SendsNoDrop op) : Follows s (s.step op).2 op := by
  cases op with
  | addPassive addr value =>
    obtain ⟨code, s', index, hadd, hp⟩ := h.toIndexed.addPassive addr value
    rw [step_ok (ok_bind hadd _)]
    exact follows_of_kept h ⟨hp.indexed, hp.found h.addressFound⟩ (fun _ => rfl)
      fun d i hd ha => h.follows_addPassive hadd hd ha
  | addActive addr p value => exact h.follows_addActive addr p value
  | setActiveValue p value =>
    obtain ⟨s', hset, hs', haddr, hremove⟩ := h.of_setsAt (h.toIndexed.setActiveValue p value)
    rw [step_ok (ok_bind hset _)]
    exact h.follows_same (fun _ => rfl) hs' haddr hremove
  | setValue addr value =>
    obtain ⟨s', hset, hs', haddr, hremove⟩ := h.of_setsAt (h.toIndexed.setValue addr value)
    rw [step_ok (ok_bind hset _)]
    exact h.follows_same (fun _ => rfl) hs' haddr hremove
  | doStep =>
    refine ⟨h.of_same h.toIndexed.doStep rfl rfl, fun d info info' hs _ hr => ?_,
      fun d info _ hr => ?_⟩
    · obtain ⟨i, hi, hinfo⟩ := hs
      obtain rfl := Option.some.inj hr
      refine ⟨i, hi, ?_⟩
      show s.doStep.mapToRemove.lookup i = _
      rw [lookup_doStep, hinfo]
      rfl
    · cases hr
  | removeLater p step sendDrop mustNotify =>
    obtain ⟨hpeers, haddr⟩ := s.removeLater_tables p step sendDrop mustNotify
    have hs' := h.of_same (h.toIndexed.removeLater p step sendDrop mustNotify) hpeers haddr
    refine follows_of_kept h hs' (fun _ => rfl) fun d i hd ha => ?_
    show (s.removeLater p step sendDrop mustNotify).2.mapByAddress.lookup d = _ ∧
      (s.removeLater p step sendDrop mustNotify).2.mapToRemove.lookup i = _
    rw [haddr, removeLater_remove, if_neg fun hp => ha i hp (h.at_iff.mpr hd)]
    exact ⟨hd, rfl⟩
  | removeLaterAddress addr step sendDrop onlyIfPassive mustNotify =>
    obtain rfl : sendDrop = false := hop
    exact h.follows_removeLaterAddress addr step onlyIfPassive mustNotify
  | undoRemove p =>
    obtain ⟨hpeers, haddr⟩ := s.undoRemove_tables p
    have hs' := h.of_same (h.toIndexed.undoRemove p) hpeers haddr
    refine follows_of_kept h hs' (fun _ => rfl) fun d i hd ha => ?_
    show (s.undoRemove p).mapByAddress.lookup d = _ ∧ (s.undoRemove p).mapToRemove.lookup i = _
    rw [haddr, undoRemove_remove fun hp => ha i hp (h.at_iff.mpr hd)]
    exact ⟨hd, rfl⟩
  | removePending ord => exact h.follows_removePending ord
  | removeFromTodoList addr =>
    obtain ⟨hpeers, haddr, hremove⟩ := s.removeFromTodoList_tables addr
    have hs' := h.of_same (h.toIndexed.removeFromTodoList addr) hpeers haddr
    exact h.follows_same (fun _ => rfl) hs' haddr hremove

/-! ## Runs -/

def isDoStep : CommunicationOp T → Bool
  | .doStep => true
  | _ => false

def doSteps (ops : List (CommunicationOp T)) : Nat := ops.countP isDoStep

theorem remaining_some {op : CommunicationOp T} {info : ToRemoveInfo}
    (h : ∀ ord, op = .removePending ord → info.steps ≠ 0) :
    remaining op info = some { info with steps := info.steps - if isDoStep op then 1 else 0 } := by
  cases op with
  | doStep =>
    show some info.stepped = some { info with steps := info.steps - 1 }
    unfold ToRemoveInfo.stepped
    split
    · rfl
    · next hz =>
      have hz : info.steps = 0 := not_not.mp hz
      rw [hz, Nat.zero_sub, ← hz]
  | removePending ord => exact if_neg (h ord rfl)
  | _ => rfl

/-- While every `remove_pending` comes too early, the item stays and its steps are counted down. -/
theorem Addressed.run_scheduled {s : CommunicationState T K} (h : s.Addressed)
    {ops : List (CommunicationOp T)} (hops : ∀ op ∈ ops, SendsNoDrop op) {d : IpDestination}
    {info : ToRemoveInfo} (hs : s.Scheduled d info)
    (hleft : Meets CommunicationState.step (LeavesAlone d) s ops)
    (hearly : ∀ pre ord post, ops = pre ++ .removePending ord :: post →
      doSteps pre < info.steps) :
    (final CommunicationState.step s ops).Addressed ∧
      (final CommunicationState.step s ops).Scheduled d
        { info with steps := info.steps - doSteps ops } := by
  induction ops generalizing s info with
  | nil => exact ⟨h, hs⟩
  | cons op ops ih =>
    have hstep := h.follows (hops op (by simp))
    have hrem : remaining op info =
        some { info with steps := info.steps - if isDoStep op then 1 else 0 } := by
      refine remaining_some fun ord he => ?_
      have hleft := hearly [] ord ops (by rw [he]; rfl)
      exact Nat.ne_of_gt hleft
    have hcount : ∀ pre, doSteps (op :: pre) = doSteps pre + if isDoStep op then 1 else 0 :=
      fun pre => List.countP_cons
    have hrest := ih hstep.addressed (fun op hop => hops op (by simp [hop]))
      (hstep.scheduled d info _ hs hleft.1 hrem) hleft.2 fun pre ord post he => by
        have := hearly (op :: pre) ord post (by rw [he]; rfl)
        rw [hcount] at this
        show doSteps pre < info.steps - _
        omega
    refine ⟨hrest.1, ?_⟩
    have heq : info.steps - doSteps (op :: ops) =
        info.steps - (if isDoStep op then 1 else 0) - doSteps ops := by
      rw [hcount]
      omega
    rw [heq]
    exact hrest.2

theorem Addressed.run {s : CommunicationState T K} (h : s.Addressed)
    {ops : List (CommunicationOp T)} (hops : ∀ op ∈ ops, SendsNoDrop op) :
    (final CommunicationState.step s ops).Addressed := by
  induction ops generalizing s with
  | nil => exact h
  | cons op ops ih =>
    exact ih (h.follows (hops op (by simp))).addressed fun op hop => hops op (by simp [hop])

/-- The operation schedules the item under `d`. -/
def Schedules (d : IpDestination) (info : ToRemoveInfo) (s : CommunicationState T K) :
    CommunicationOp T → Prop
  | .removeLater p step sendDrop mustNotify => info = ⟨step, sendDrop, mustNotify⟩ ∧
    ∃ i, s.mapByPeerId.lookup p = some i ∧ At s.peers i fun item => addressKey item.address = d
  | .removeLaterAddress addr step sendDrop onlyIfPassive mustNotify =>
    info = ⟨step, sendDrop, mustNotify⟩ ∧ addressKey addr = d ∧
    ∃ i, At s.peers i fun item => addressKey item.address = d ∧ (onlyIfPassive → ¬ item.active)
  | _ => False

theorem Addressed.scheduled_of_schedules {s : CommunicationState T K} (h : s.Addressed)
    {op : CommunicationOp T} {d : IpDestination} {info : ToRemoveInfo}
    (hs : Schedules d info s op) : (s.step op).2.Scheduled d info := by
  cases op with
  | removeLater p step sendDrop mustNotify =>
    obtain ⟨rfl, i, hp, hi⟩ := hs
    refine ⟨i, ?_, ?_⟩
    · show At (s.removeLater p step sendDrop mustNotify).2.peers i _
      rw [(s.removeLater_tables p step sendDrop mustNotify).1]
      exact hi
    · show (s.removeLater p step sendDrop mustNotify).2.mapToRemove.lookup i = _
      rw [removeLater_remove, if_pos hp]
  | removeLaterAddress addr step sendDrop onlyIfPassive mustNotify =>
    obtain ⟨rfl, rfl, i, item, hi, hkey, hpassive⟩ := hs
    have hspared : s.spared i onlyIfPassive = .ok false := by
      unfold spared
      cases onlyIfPassive with
      | false => rfl
      | true =>
        refine (ok_bind (item_eq hi) _).trans ?_
        rw [Bool.eq_false_iff.mpr (hpassive rfl)]
        rfl
    have hrun : s.removeLaterAddress addr step sendDrop onlyIfPassive mustNotify =
        .ok (true, { s with
          mapToRemove := s.mapToRemove.insert i ⟨step, sendDrop, mustNotify⟩ }) := by
      rw [CommunicationState.removeLaterAddress, h.at_iff.mp ⟨item, hi, hkey⟩]
      exact ok_bind hspared _
    rw [step_ok (ok_bind hrun _)]
    exact ⟨i, ⟨item, hi, hkey⟩, (UMap.lookup_insert _ _ _ _).trans (if_pos rfl)⟩
  | _ => exact hs.elim

/-- In every run, `remove_pending` removes what is due and nothing else, and an item that is
scheduled goes with the first one that comes after its steps. -/
theorem run_removesOnTime (ops : List (CommunicationOp T)) (hops : ∀ op ∈ ops, SendsNoDrop op) :
    let s : CommunicationState T K := final step init ops
    (∀ ord, ∃ keys drops s' origin, s.step (.removePending ord) = (.ok (.removed keys drops), s') ∧
      RemovesDue s s' keys drops origin) ∧
    ∀ op d info, SendsNoDrop op → Schedules d info s op →
      ∀ later, (∀ op ∈ later, SendsNoDrop op) → Meets step (LeavesAlone d) (s.step op).2 later →
        (∀ pre ord post, later = pre ++ .removePending ord :: post → doSteps pre < info.steps) →
        (final step (s.step op).2 later).Scheduled d
            { info with steps := info.steps - doSteps later } ∧
          (info.steps ≤ doSteps later → ∀ ord,
            ¬ ((final step (s.step op).2 later).step (.removePending ord)).2.Holds d) := by
  intro s
  have hs : s.Addressed := addressed_init.run hops
  refine ⟨fun ord => hs.toIndexed.removesDue ord,
    fun op d info hop hsch later hlater hleft hearly => ?_⟩
  obtain ⟨haddr, hsched⟩ := (hs.follows hop).addressed.run_scheduled hlater
    (hs.scheduled_of_schedules hsch) hleft hearly
  refine ⟨hsched, fun hle ord => (haddr.follows_removePending ord).removed d _ hsched ?_⟩
  exact if_pos (Nat.sub_eq_zero_of_le hle)

omit [EmptyDestination] in
/-- A peer that is moved down by another removal before its own step has come. -/
theorem run_removesOnTime_moved :
    letI : EmptyDestination := ⟨fun d => d.address = "" ∧ d.port = 0⟩
    let addr : IpAddress := ⟨⟨"10.0.0.1", 80⟩, ⟨"10.0.0.2", 80⟩, .ipv4⟩
    let other : IpAddress := ⟨⟨"10.0.0.1", 80⟩, ⟨"10.0.0.3", 80⟩, .ipv4⟩
    let s : CommunicationState PeerState String :=
      final step init [.addPassive other default, .addActive addr "p" default]
    let s' := final step (s.step (.removeLater "p" 1 true true)).2
      [.removeLaterAddress other 0 false true false, .removePending .stored, .doStep]
    s'.mapByPeerId.lookup "p" = some 0 ∧
      ¬ (s'.step (.removePending .stored)).2.Holds addr.remote := by
  let _ : EmptyDestination := ⟨fun d => d.address = "" ∧ d.port = 0⟩
  let addr : IpAddress := ⟨⟨"10.0.0.1", 80⟩, ⟨"10.0.0.2", 80⟩, .ipv4⟩
  let other : IpAddress := ⟨⟨"10.0.0.1", 80⟩, ⟨"10.0.0.3", 80⟩, .ipv4⟩
  let later : List (CommunicationOp PeerState) :=
    [.removeLaterAddress other 0 false true false, .removePending .stored, .doStep]
  refine ⟨by decide, ?_⟩
  have hearly : ∀ n < later.length, doSteps (later.take n) < 1 := by decide
  refine ((run_removesOnTime [.addPassive other default, .addActive addr "p" default]
    (by simp [SendsNoDrop])).2 (.removeLater "p" 1 true true) addr.remote ⟨1, true, true⟩ trivial
    ⟨rfl, 1, by decide, ⟨⟨default, some "p", addr⟩, rfl, by decide⟩⟩ later
    (by simp [later, SendsNoDrop]) ⟨fun h => absurd h (by decide), trivial, trivial, trivial⟩
    fun pre ord post he => ?_).2 (Nat.le_refl 1) .stored
  have htake : pre = later.take pre.length := by rw [he, List.take_left]
  rw [htake]
  refine hearly _ ?_
  rw [he, List.length_append, List.length_cons]
  omega

end CommunicationState

end MeshPP.P2PSocket
