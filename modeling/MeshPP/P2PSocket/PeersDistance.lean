import Mathlib.Data.Nat.Size
import MeshPP.Kbucket.Representation
import MeshPP.Lib.Unordered

/-! # `peers_distance`

Peers are put in slots by their distance from a node. A slot is for one bit
length of the distance, and there are twenty slots, so that a peer is lost when
its distance has more bits (`classifies_iff`). -/

namespace MeshPP.P2PSocket
open MeshPP.Lib MeshPP.Kbucket

/-! ## Bit lengths -/

theorem size_eq_log {n : Nat} (h : n ≠ 0) : n.size = Nat.log 2 n + 1 := by
  apply Nat.le_antisymm
  · exact Nat.size_le.mpr (Nat.lt_pow_succ_log_self (by decide) n)
  · exact Nat.lt_size.mpr (Nat.pow_log_le_self 2 h)

/-- A number of fewer bits is smaller. -/
theorem lt_of_size_lt {m n : Nat} (h : m.size < n.size) : m < n :=
  Nat.lt_of_not_le fun hle => Nat.not_le.mpr h (Nat.size_le_size hle)

variable [Sha256]

/-! ## The code -/

/-- One round of the loop over the peers. -/
def fillSlot (nodeid : String) (result : List (USet String)) (peer : String) :
    List (USet String) :=
  let distance := contactDistance (⟨nodeid, ""⟩ : Konnection) ⟨peer, ""⟩
  let index := indexFromDistance distance
  if index < 20 then result.modify index fun slot => slot.insert peer () else result

def peersDistance (ord : IterOrder) (nodeid : String) (allPeers : USet String) :
    List (USet String) :=
  ((ord.order allPeers.entries).map Sigma.fst).foldl (fillSlot nodeid) (List.replicate 20 ∅)

/-! ## What is in the slots -/

/-- The exclusive or of the digests. -/
def peerDistance (nodeid peer : String) : Nat := stringDistance nodeid ^^^ stringDistance peer

def InSlot (result : List (USet String)) (i : Nat) (peer : String) : Prop :=
  ∃ slot, result[i]? = some slot ∧ peer ∈ slot

/-- Every peer at a distance is in exactly one slot, slots are bit lengths of the distance
and in increasing order, and nothing else is in a slot. -/
structure Classifies (nodeid : String) (allPeers : USet String) (result : List (USet String)) :
    Prop where
  once : ∀ peer ∈ allPeers, stringDistance peer ≠ stringDistance nodeid →
    ∃! i, InSlot result i peer
  shares : ∀ peer ∈ allPeers, ∀ other ∈ allPeers,
    stringDistance peer ≠ stringDistance nodeid → stringDistance other ≠ stringDistance nodeid →
      ((∃ i, InSlot result i peer ∧ InSlot result i other) ↔
        (peerDistance nodeid peer).size = (peerDistance nodeid other).size)
  ordered : ∀ i j peer other, i < j → InSlot result i peer → InSlot result j other →
    peerDistance nodeid peer < peerDistance nodeid other
  only : ∀ i peer, InSlot result i peer →
    peer ∈ allPeers ∧ stringDistance peer ≠ stringDistance nodeid

variable {nodeid : String} {allPeers : USet String}

/-! ### Distances -/

theorem contactDistance_peer (nodeid peer : String) :
    contactDistance (⟨nodeid, ""⟩ : Konnection) ⟨peer, ""⟩ = peerDistance nodeid peer :=
  distance_eq_xor _ _

theorem peerDistance_ne_zero {peer : String} :
    peerDistance nodeid peer ≠ 0 ↔ stringDistance peer ≠ stringDistance nodeid := by
  rw [peerDistance, ← distance_eq_xor, ne_eq, distance_eq_zero, eq_comm]

theorem peerDistance_lt (nodeid peer : String) : peerDistance nodeid peer < 2 ^ 256 :=
  Nat.xor_lt_two_pow (KBucket.stringDistance_lt nodeid) (KBucket.stringDistance_lt peer)

theorem index_eq {peer : String} (h : peerDistance nodeid peer ≠ 0) :
    indexFromDistance (peerDistance nodeid peer) = Nat.log 2 (peerDistance nodeid peer) :=
  indexFromDistance_eq h (peerDistance_lt nodeid peer)

/-! ### The loop -/

theorem length_fillSlot (result : List (USet String)) (peer : String) :
    (fillSlot nodeid result peer).length = result.length := by
  unfold fillSlot
  simp only
  split
  · exact List.length_modify ..
  · rfl

omit [Sha256] in
/-- To insert in a slot changes nothing in the others. -/
theorem inSlot_modify {result : List (USet String)} {index : Nat} (hi : index < result.length)
    (peer other : String) (i : Nat) :
    InSlot (result.modify index fun slot => slot.insert peer ()) i other ↔
      InSlot result i other ∨ other = peer ∧ i = index := by
  have hget : result[index]? = some result[index] := List.getElem?_eq_getElem hi
  unfold InSlot
  by_cases he : i = index
  · subst he
    rw [List.getElem?_modify_eq, hget]
    simp only [Option.map_eq_map, Option.map_some, Option.some.injEq, exists_eq_left',
      AList.mem_insert, and_true]
    exact or_comm
  · rw [List.getElem?_modify_ne _ _ (Ne.symm he)]
    simp only [he, and_false, or_false]

theorem inSlot_fillSlot {result : List (USet String)} (hlen : result.length = 20)
    (peer other : String) (i : Nat) :
    InSlot (fillSlot nodeid result peer) i other ↔
      InSlot result i other ∨
        other = peer ∧ i < 20 ∧ indexFromDistance (peerDistance nodeid other) = i := by
  unfold fillSlot
  simp only [contactDistance_peer]
  by_cases hin : indexFromDistance (peerDistance nodeid peer) < 20
  · rw [if_pos hin, inSlot_modify (hlen ▸ hin)]
    refine or_congr_right (and_congr_right fun he => ?_)
    subst he
    exact ⟨fun h => ⟨h ▸ hin, h.symm⟩, fun h => h.2.symm⟩
  · rw [if_neg hin]
    refine (or_iff_left ?_).symm
    rintro ⟨rfl, hi, rfl⟩
    exact hin hi

/-- After the loop a slot has the peers it had and those of its index. -/
theorem inSlot_foldl (peers : List String) {result : List (USet String)}
    (hlen : result.length = 20) (other : String) (i : Nat) :
    InSlot (peers.foldl (fillSlot nodeid) result) i other ↔
      InSlot result i other ∨
        other ∈ peers ∧ i < 20 ∧ indexFromDistance (peerDistance nodeid other) = i := by
  induction peers generalizing result with
  | nil => simp
  | cons peer peers ih =>
    rw [List.foldl_cons, ih ((length_fillSlot result peer).trans hlen), inSlot_fillSlot hlen,
      List.mem_cons, or_and_right, or_assoc]

theorem inSlot_peersDistance (ord : IterOrder) (peer : String) (i : Nat) :
    InSlot (peersDistance ord nodeid allPeers) i peer ↔
      peer ∈ allPeers ∧ i < 20 ∧ indexFromDistance (peerDistance nodeid peer) = i := by
  have hempty : ¬ InSlot (List.replicate 20 (∅ : USet String)) i peer := by
    rintro ⟨slot, hslot, hmem⟩
    rw [List.getElem?_replicate] at hslot
    split at hslot
    · cases hslot
      exact AList.notMem_empty _ hmem
    · cases hslot
  rw [peersDistance, inSlot_foldl _ List.length_replicate, or_iff_right hempty,
    (UMap.keys_perm ord allPeers).mem_iff]
  rfl

/-- The slots by the bit lengths of the distances. -/
theorem inSlot_iff_size (ord : IterOrder) (peer : String) (i : Nat) :
    InSlot (peersDistance ord nodeid allPeers) i peer ↔
      peer ∈ allPeers ∧ i < 20 ∧ (peerDistance nodeid peer).size = i + 1 := by
  rw [inSlot_peersDistance]
  refine and_congr_right fun _ => and_congr_right fun hi => ?_
  by_cases hz : peerDistance nodeid peer = 0
  · have hwrap : indexFromDistance 0 = 2 ^ 64 - 1 := rfl
    rw [hz, hwrap, Nat.size_zero]
    omega
  · rw [index_eq hz, size_eq_log hz]
    omega

/-! ## The slots are the bit lengths -/

theorem size_pos {peer : String} (h : stringDistance peer ≠ stringDistance nodeid) :
    0 < (peerDistance nodeid peer).size :=
  Nat.size_pos.mpr (Nat.pos_of_ne_zero (peerDistance_ne_zero.mpr h))

theorem classifies_of_lt (ord : IterOrder)
    (h : ∀ peer ∈ allPeers, peerDistance nodeid peer < 2 ^ 20) :
    Classifies nodeid allPeers (peersDistance ord nodeid allPeers) := by
  have hslot : ∀ peer ∈ allPeers, stringDistance peer ≠ stringDistance nodeid →
      InSlot (peersDistance ord nodeid allPeers) ((peerDistance nodeid peer).size - 1) peer := by
    intro peer hp hne
    have hpos := size_pos hne
    have hle : (peerDistance nodeid peer).size ≤ 20 := Nat.size_le.mpr (h peer hp)
    rw [inSlot_iff_size]
    exact ⟨hp, by omega, by omega⟩
  constructor
  case once =>
    intro peer hp hne
    refine ⟨_, hslot peer hp hne, fun i hi => ?_⟩
    have := ((inSlot_iff_size ord peer i).mp hi).2.2
    omega
  case shares =>
    intro peer hp other ho hpne hone
    constructor
    · intro ⟨i, hi, hj⟩
      exact ((inSlot_iff_size ord peer i).mp hi).2.2.trans
        ((inSlot_iff_size ord other i).mp hj).2.2.symm
    · intro hsize
      refine ⟨_, hslot peer hp hpne, ?_⟩
      rw [hsize]
      exact hslot other ho hone
  case ordered =>
    intro i j peer other hlt hi hj
    have hpeer := ((inSlot_iff_size ord peer i).mp hi).2.2
    have hother := ((inSlot_iff_size ord other j).mp hj).2.2
    exact lt_of_size_lt (by omega)
  case only =>
    intro i peer hi
    obtain ⟨hp, -, hsize⟩ := (inSlot_iff_size ord peer i).mp hi
    refine ⟨hp, peerDistance_ne_zero.mp fun hz => ?_⟩
    rw [hz, Nat.size_zero] at hsize
    cases hsize

/-- A peer whose distance has more than twenty bits is in no slot. -/
theorem not_inSlot (ord : IterOrder) {peer : String} (h : 2 ^ 20 ≤ peerDistance nodeid peer)
    (i : Nat) : ¬ InSlot (peersDistance ord nodeid allPeers) i peer := by
  intro hi
  obtain ⟨-, hlt, hsize⟩ := (inSlot_iff_size ord peer i).mp hi
  have : 20 < (peerDistance nodeid peer).size := Nat.lt_size.mpr h
  omega

theorem not_classifies (ord : IterOrder) {peer : String} (hp : peer ∈ allPeers)
    (h : 2 ^ 20 ≤ peerDistance nodeid peer) :
    ¬ Classifies nodeid allPeers (peersDistance ord nodeid allPeers) := by
  intro hc
  have hne : peerDistance nodeid peer ≠ 0 :=
    (Nat.lt_of_lt_of_le (Nat.two_pow_pos 20) h).ne'
  obtain ⟨i, hi, -⟩ := hc.once peer hp (peerDistance_ne_zero.mp hne)
  exact not_inSlot ord h i hi

/-- The peers are classified when no distance has more than twenty bits. -/
theorem classifies_iff (ord : IterOrder) (nodeid : String) (allPeers : USet String) :
    Classifies nodeid allPeers (peersDistance ord nodeid allPeers) ↔
      ∀ peer ∈ allPeers, peerDistance nodeid peer < 2 ^ 20 := by
  refine ⟨fun hc peer hp => ?_, classifies_of_lt ord⟩
  by_contra hge
  exact not_classifies ord hp (Nat.not_lt.mp hge) hc

/-- The digests of two ids; the others do not matter. -/
abbrev sha256AB : Sha256 where
  digest str :=
    if str = "a" then 0xca978112ca1bbdcafac231b39a23dc4da786eff8147c4e72b9807785afee48bb
    else if str = "b" then 0x3e23e8160039594a33894f6564e1b1348bbd7a0088d42c4acb73eeaed59c009d
    else 0
  digest_lt str := by
    split
    · decide
    · split
      · decide
      · decide

omit [Sha256] in
theorem peer_lost :
    ¬ @Classifies sha256AB "a" ((∅ : USet String).insert "b" ())
      (@peersDistance sha256AB .stored "a" ((∅ : USet String).insert "b" ())) :=
  @not_classifies sha256AB "a" _ .stored "b" ((AList.mem_insert _).mpr (.inl rfl)) (by decide)

end MeshPP.P2PSocket
