import Mathlib.Data.List.Sort
import MeshPP.Lib.Frame
import MeshPP.Lib.Machine
import MeshPP.Lib.Positions

/-! # `communication_state`

The table of peers: a list of items and six containers of positions in it. An
item is passive until a connection gives it a peer id. An operation that reads a
position outside the list, asks a passive item for its peer or meets a failed
assertion ends in a `Fault`. -/

namespace MeshPP.P2PSocket
open MeshPP.Lib

abbrev PeerId := String

/-! ## Addresses -/

structure IpDestination where
  address : String
  port : Nat
  deriving DecidableEq, Repr

inductive IpType
  | any
  | ipv4
  | ipv6
  deriving DecidableEq, Repr

structure IpAddress where
  «local» : IpDestination
  remote : IpDestination
  ipType : IpType
  deriving DecidableEq, Repr

/-- Which destinations belt.pp takes for empty. -/
class EmptyDestination where
  empty : IpDestination → Bool

def IpDestination.empty [EmptyDestination] (d : IpDestination) : Bool := EmptyDestination.empty d

def addressKey [EmptyDestination] (addr : IpAddress) : IpDestination :=
  if !addr.remote.empty then addr.remote else addr.local

/-! ## Items -/

inductive Fault
  | assertion
  | outOfRange
  | passivePeer
  deriving DecidableEq, Repr

/-- What the table asks of the values it stores. -/
class CommunicationValue (T : Type) (K : outParam Type) where
  key : T → K

export CommunicationValue (key)

/-- `size_t(-1)` -/
def sizeMax : Nat := 0xFFFFFFFFFFFFFFFF

structure PeerState where
  openAttempts : Nat
  nodeId : String
  deriving DecidableEq, Repr

instance : Inhabited PeerState := ⟨⟨sizeMax, ""⟩⟩

instance : CommunicationValue PeerState String := ⟨PeerState.nodeId⟩

structure StateItem (T : Type) where
  value : T
  peer : Option PeerId
  address : IpAddress

namespace StateItem
variable {T : Type}

def active (item : StateItem T) : Bool := item.peer.isSome

def listens [EmptyDestination] (item : StateItem T) : Bool := item.address.remote.empty

def getPeer (item : StateItem T) : Except Fault PeerId :=
  match item.peer with
  | some p => .ok p
  | none => .error .passivePeer

end StateItem

structure ToRemoveInfo where
  steps : Nat
  sendDrop : Bool
  mustNotify : Bool
  deriving DecidableEq, Repr

def ToRemoveInfo.stepped (info : ToRemoveInfo) : ToRemoveInfo :=
  if info.steps ≠ 0 then { info with steps := info.steps - 1 } else info

inductive InsertCode
  | old
  | fresh
  deriving DecidableEq, Repr

inductive UpdateCode
  | updated
  | added
  deriving DecidableEq, Repr

structure CommunicationState (T K : Type) where
  peers : List (StateItem T)
  mapByAddress : UMap IpDestination Nat
  mapByPeerId : UMap PeerId Nat
  mapByKey : UMap K Nat
  setToListen : USet Nat
  setToConnect : USet Nat
  mapToRemove : UMap Nat ToRemoveInfo

namespace CommunicationState
variable {T K : Type} [Inhabited T] [Inhabited K] [DecidableEq K] [CommunicationValue T K]
  [EmptyDestination]

def init : CommunicationState T K := ⟨[], ∅, ∅, ∅, ∅, ∅, ∅⟩

/-- `peers[index]` -/
def item (s : CommunicationState T K) (index : Nat) : Except Fault (StateItem T) :=
  match s.peers[index]? with
  | some item => .ok item
  | none => .error .outOfRange

/-- The item at `index` gets a key: the entry of its old one goes if the two differ. -/
def dropKey (s : CommunicationState T K) (value old : T) : UMap K Nat :=
  if key value ≠ key old then s.mapByKey.erase (key old) else s.mapByKey

/-! ## `add_passive` and `add_active` -/

/-- The last block of `add_passive`: write a fresh item to `index`. -/
def store (s : CommunicationState T K) (index : Nat) (addr : IpAddress) (value : T) :
    Except Fault (CommunicationState T K) := do
  let stored ← s.item index
  let item : StateItem T := ⟨value, none, addr⟩
  return { s with
    peers := s.peers.set index item
    mapByAddress :=
      (s.mapByAddress.erase (addressKey stored.address)).insert (addressKey addr) index
    mapByKey := ((s.dropKey value default).erase (key stored.value)).insert (key value) index
    setToConnect := if item.listens then s.setToConnect else s.setToConnect.insert index ()
    setToListen := if item.listens then s.setToListen.insert index () else s.setToListen }

/-- The position has an item that is passive and due to be removed. -/
def reusable (s : CommunicationState T K) (index : Nat) : Except Fault Bool :=
  match s.mapToRemove.lookup index with
  | none => return false
  | some info =>
    if info.steps = 0 then return !(← s.item index).active else return false

def addPassive (s : CommunicationState T K) (addr : IpAddress) (value : T := default) :
    Except Fault (InsertCode × CommunicationState T K) :=
  match s.mapByAddress.lookup (addressKey addr) with
  | none => do
    let s' : CommunicationState T K := { s with peers := s.peers ++ [⟨default, none, addr⟩] }
    return (.fresh, ← s'.store s.peers.length addr value)
  | some index => do
    if ← s.reusable index then
      let s' : CommunicationState T K := { s with mapToRemove := s.mapToRemove.erase index }
      return (.fresh, ← s'.store index addr value)
    else return (.old, s)

/-- The entry of the peer that an item is taken over from. -/
def releasePeer (s : CommunicationState T K) (stored : StateItem T) (p : PeerId) :
    Except Fault (UMap PeerId Nat) :=
  match stored.peer with
  | none => return s.mapByPeerId
  | some q =>
    if p = q then return s.mapByPeerId
    else if q ∈ s.mapByPeerId then return s.mapByPeerId.erase q
    else throw .assertion

def addActive (s : CommunicationState T K) (addr : IpAddress) (p : PeerId) (value : T := default) :
    Except Fault (UpdateCode × CommunicationState T K) := do
  let (addPassiveCode, s) ← s.addPassive addr
  match s.mapByAddress.lookup (addressKey addr) with
  | none => throw .assertion
  | some index =>
    let stored ← s.item index
    let mapByPeerId ← s.releasePeer stored p
    let s' : CommunicationState T K := { s with
      peers := s.peers.set index ⟨value, some p, addr⟩
      mapByPeerId := mapByPeerId.insert p index
      mapByKey := (s.dropKey value stored.value).insert (key value) index
      setToConnect := s.setToConnect.erase index
      setToListen := s.setToListen.erase index }
    return (if addPassiveCode = .old then .updated else .added, s')

/-! ## Values -/

def setValueAt (s : CommunicationState T K) (index : Nat) (value : T) :
    Except Fault (CommunicationState T K) := do
  let stored ← s.item index
  return { s with
    peers := s.peers.set index { stored with value }
    mapByKey := (s.dropKey value stored.value).insert (key value) index }

def setActiveValue (s : CommunicationState T K) (p : PeerId) (value : T) :
    Except Fault (CommunicationState T K) :=
  match s.mapByPeerId.lookup p with
  | some index => s.setValueAt index value
  | none => return s

def setValue (s : CommunicationState T K) (addr : IpAddress) (value : T) :
    Except Fault (CommunicationState T K) :=
  match s.mapByAddress.lookup (addressKey addr) with
  | some index => s.setValueAt index value
  | none => return s

def getActiveValue (s : CommunicationState T K) (p : PeerId) : Except Fault (Option T) :=
  match s.mapByPeerId.lookup p with
  | some index => return some (← s.item index).value
  | none => return none

def getValue (s : CommunicationState T K) (addr : IpAddress) : Except Fault (Option T) :=
  match s.mapByAddress.lookup (addressKey addr) with
  | some index => return some (← s.item index).value
  | none => return none

/-! ## Removal -/

def doStep (s : CommunicationState T K) : CommunicationState T K :=
  { s with mapToRemove := s.mapToRemove.bindValues fun info => some info.stepped }

/-- `remove_later` leaves the item at `index` alone. -/
def spared (s : CommunicationState T K) (index : Nat) (onlyIfPassive : Bool) : Except Fault Bool :=
  if onlyIfPassive then return (← s.item index).active else return false

def removeLaterAddress (s : CommunicationState T K) (addr : IpAddress) (step : Nat)
    (sendDrop onlyIfPassive mustNotify : Bool) : Except Fault (Bool × CommunicationState T K) :=
  match s.mapByAddress.lookup (addressKey addr) with
  | none => return (false, s)
  | some index => do
    if ← s.spared index onlyIfPassive then return (false, s)
    else return (true,
      { s with mapToRemove := s.mapToRemove.insert index ⟨step, sendDrop, mustNotify⟩ })

def removeLater (s : CommunicationState T K) (p : PeerId) (step : Nat)
    (sendDrop mustNotify : Bool) : Bool × CommunicationState T K :=
  match s.mapByPeerId.lookup p with
  | none => (false, s)
  | some index =>
    (true, { s with mapToRemove := s.mapToRemove.insert index ⟨step, sendDrop, mustNotify⟩ })

def undoRemove (s : CommunicationState T K) (p : PeerId) : CommunicationState T K :=
  match s.mapByPeerId.lookup p with
  | none => s
  | some index => { s with mapToRemove := s.mapToRemove.erase index }

/-- The peer that is sent a drop. -/
def dropOf (stored : StateItem T) (info : ToRemoveInfo) : Except Fault (List PeerId) :=
  if info.sendDrop then return [← stored.getPeer] else return []

/-- What the first loop of `remove_pending` has found due. -/
structure Pending (K : Type) where
  keys : List (K × Bool)
  drops : List PeerId
  indices : List Nat
  mapToRemove : UMap Nat ToRemoveInfo

def collectDue (s : CommunicationState T K) (pending : Pending K) :
    List (Sigma fun _ : Nat => ToRemoveInfo) → Except Fault (Pending K)
  | [] => return pending
  | ⟨index, info⟩ :: rest => do
    if info.steps ≠ 0 then s.collectDue pending rest
    else
      let stored ← s.item index
      let drops ← dropOf stored info
      s.collectDue
        { keys := pending.keys ++
            if key stored.value ≠ default then [(key stored.value, info.mustNotify)] else []
          drops := pending.drops ++ drops
          indices := pending.indices ++ [index]
          mapToRemove := pending.mapToRemove.erase index } rest

/-- One round of the second loop. -/
def removeAt (ord : IterOrder) (index : Nat) (s : CommunicationState T K) :
    CommunicationState T K where
  peers := s.peers.eraseIdx index
  mapByAddress := s.mapByAddress.removePosition index
  mapByPeerId := s.mapByPeerId.removePosition index
  mapByKey := s.mapByKey.removePosition index
  setToListen := s.setToListen.removePosition ord index
  setToConnect := s.setToConnect.removePosition ord index
  mapToRemove := s.mapToRemove.shiftKeys index s.peers.length

def removePending (s : CommunicationState T K) (ord : IterOrder) :
    Except Fault ((List (K × Bool) × List PeerId) × CommunicationState T K) := do
  let pending ← s.collectDue ⟨[], [], [], s.mapToRemove⟩ (ord.order s.mapToRemove.entries)
  let s' : CommunicationState T K := { s with mapToRemove := pending.mapToRemove }
  -- the highest position goes first
  return ((pending.keys, pending.drops),
    (pending.indices.insertionSort (· ≤ ·)).foldr (removeAt ord) s')

/-! ## What is to be done -/

/-- The item at `index` is about to be removed. -/
def due (s : CommunicationState T K) (index : Nat) : Bool :=
  match s.mapToRemove.lookup index with
  | some info => info.steps = 0
  | none => false

def todo (s : CommunicationState T K) (set : USet Nat) (ord : IterOrder) :
    Except Fault (List IpAddress) :=
  ((ord.order set.keys).filter fun index => !s.due index).mapM fun index => do
    return (← s.item index).address

def getToListen (s : CommunicationState T K) (ord : IterOrder) : Except Fault (List IpAddress) :=
  s.todo s.setToListen ord

def getToConnect (s : CommunicationState T K) (ord : IterOrder) : Except Fault (List IpAddress) :=
  s.todo s.setToConnect ord

def removeFromTodoList (s : CommunicationState T K) (addr : IpAddress) :
    Bool × CommunicationState T K :=
  match s.mapByAddress.lookup (addressKey addr) with
  | none => (false, s)
  | some index =>
    (decide (index ∈ s.setToConnect) || decide (index ∈ s.setToListen),
      { s with
        setToConnect := s.setToConnect.erase index
        setToListen := s.setToListen.erase index })

def getConnected (s : CommunicationState T K) : List (StateItem T) :=
  (s.peers.zipIdx.filter fun e => !s.due e.2 && (e.1.active && !e.1.listens)).map Prod.fst

def getListening (s : CommunicationState T K) : List (StateItem T) :=
  (s.peers.zipIdx.filter fun e => !s.due e.2 && (e.1.active && e.1.listens)).map Prod.fst

end CommunicationState

end MeshPP.P2PSocket
