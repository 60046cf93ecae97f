import MeshPP.Kbucket.KBucket
import MeshPP.P2PSocket.PeerRemoval

/-! # `p2pstate_ex`

What a node keeps of the network: the bucket of contacts, the table of peers,
the peers that have proved who they are, and the nodes that were dropped. -/

namespace MeshPP.P2PSocket
open MeshPP.Lib MeshPP.Kbucket

inductive ContactStatus
  | noContact
  | newContact
  | existingContact
  deriving DecidableEq, Repr

def IpDestination.none : IpDestination := ⟨"", 0⟩

def IpAddress.none : IpAddress := ⟨.none, .none, .any⟩

structure P2PState where
  fixedLocalPort : Nat
  externalIpAddress : IpAddress
  selfId : String
  kbucket : KBucket Konnection
  programState : CommunicationState PeerState String
  verifiedPeers : USet PeerId
  /-- For each node the limit and the count of the mentions that are skipped. -/
  dropedNodes : UMap String (Nat × Nat)

namespace P2PState

def init (selfId : String) : P2PState where
  fixedLocalPort := 0
  externalIpAddress := .none
  selfId := selfId
  kbucket := .init ⟨selfId, ""⟩
  programState := .init
  verifiedPeers := ∅
  dropedNodes := ∅

variable [Sha256] [EmptyDestination]

/-! ## The bucket -/

def addContact (s : P2PState) (peerid : PeerId) (nodeid : String) :
    Except String (ContactStatus × P2PState) :=
  let k : Konnection := ⟨nodeid, peerid⟩
  if (s.kbucket.find k).isSome then return (.existingContact, s)
  else do
    let r ← s.kbucket.insert k
    return (if r.1 then .newContact else .noContact, { s with kbucket := r.2 })

def contactsEmpty (s : P2PState) : Bool := s.kbucket.contacts.isEmpty

def getKbucketNodeids (s : P2PState) : List String := s.kbucket.getNodeids

def getPeerId (s : P2PState) (nodeid : String) : Option PeerId :=
  (s.kbucket.find ⟨nodeid, ""⟩).map Konnection.peer

def processIntroduceRequest (s : P2PState) (nodeid : String) : Option PeerId :=
  (s.kbucket.find ⟨nodeid, ""⟩).map Konnection.peer

/-! ## The table of peers -/

def setActiveNodeid (s : P2PState) (peerid : PeerId) (nodeid : String) : Except Fault P2PState := do
  let value : PeerState := { (default : PeerState) with nodeId := nodeid }
  return { s with programState := ← s.programState.setActiveValue peerid value }

def getNodeid (s : P2PState) (peerid : PeerId) : Except Fault String := do
  match ← s.programState.getActiveValue peerid with
  | some value => return value.nodeId
  | none => return ""

def getConnectedPeerids (s : P2PState) : Except Fault (List PeerId) :=
  s.programState.getConnected.mapM StateItem.getPeer

def addPassive (s : P2PState) (addr : IpAddress) : Except Fault P2PState := do
  let r ← s.programState.addPassive addr
  return { s with programState := r.2 }

def addPassiveAttempts (s : P2PState) (addr : IpAddress) (openAttempts : Nat) :
    Except Fault P2PState := do
  let r ← s.programState.addPassive addr { (default : PeerState) with openAttempts }
  return { s with programState := r.2 }

def addActive (s : P2PState) (addr : IpAddress) (p : PeerId) : Except Fault P2PState := do
  let r ← s.programState.addActive addr p
  return { s with programState := r.2 }

def removeFromTodoList (s : P2PState) (addr : IpAddress) : P2PState :=
  { s with programState := (s.programState.removeFromTodoList addr).2 }

def getOpenAttempts (s : P2PState) (addr : IpAddress) : Except Fault Nat := do
  match ← s.programState.getValue addr with
  | some value => return if value.openAttempts ≠ sizeMax then value.openAttempts else 0
  | none => return 0

def removeLater (s : P2PState) (p : PeerId) (step : Nat) (sendDrop mustNotify : Bool) : P2PState :=
  { s with programState := (s.programState.removeLater p step sendDrop mustNotify).2 }

def removeLaterAddress (s : P2PState) (addr : IpAddress) (step : Nat)
    (sendDrop onlyIfPassive mustNotify : Bool) : Except Fault P2PState := do
  let r ← s.programState.removeLaterAddress addr step sendDrop onlyIfPassive mustNotify
  return { s with programState := r.2 }

def doStep (s : P2PState) : P2PState := { s with programState := s.programState.doStep }

/-- Each key that the table gives up is erased from the bucket. -/
def eraseContacts (s : P2PState) (keys : List (String × Bool)) : P2PState :=
  { s with kbucket := keys.foldl (fun b key => b.erase ⟨key.1, ""⟩) s.kbucket }

def removePending (s : P2PState) (ord : IterOrder) :
    Except Fault ((List (String × Bool) × List PeerId) × P2PState) := do
  let toRemove ← s.programState.removePending ord
  return (toRemove.1, { s with programState := toRemove.2 }.eraseContacts toRemove.1.1)

/-! ## Verified peers and dropped nodes -/

def isPeerVerified (s : P2PState) (peerid : PeerId) : Bool := peerid ∈ s.verifiedPeers

def setPeerVerified (s : P2PState) (peerid : PeerId) : P2PState :=
  { s with verifiedPeers := s.verifiedPeers.insert peerid () }

def setPeerUnverified (s : P2PState) (peerid : PeerId) : P2PState :=
  { s with verifiedPeers := s.verifiedPeers.erase peerid }

def processNodeJoin (s : P2PState) (nodeid : String) : P2PState :=
  if nodeid = "" then s else { s with dropedNodes := s.dropedNodes.erase nodeid }

def processNodeDrop (s : P2PState) (nodeid : String) : P2PState :=
  if nodeid = "" then s
  else match s.dropedNodes.lookup nodeid with
    | none => { s with dropedNodes := s.dropedNodes.insert nodeid (1, 0) }
    | some (limit, count) =>
      if limit ≤ count then
        let limit := if limit < 1000000000000 then limit * 10 else limit
        { s with dropedNodes := s.dropedNodes.insert nodeid (limit, 0) }
      else s

/-- One mention of a node: whether to ask for it. -/
def introduceCandidate (s : P2PState) (nodeid : String) : Bool × P2PState :=
  if nodeid = s.selfId then (false, s)
  else if (s.kbucket.find ⟨nodeid, ""⟩).isSome then (false, s)
  else match s.dropedNodes.lookup nodeid with
    | none => (true, s)
    | some (limit, count) =>
      if count < limit then
        (false, { s with dropedNodes := s.dropedNodes.insert nodeid (limit, count + 1) })
      else (true, s)

def filterIntroduceCandidates (s : P2PState) : List String → List String × P2PState
  | [] => ([], s)
  | nodeid :: rest =>
    let r := s.introduceCandidate nodeid
    let more := r.2.filterIntroduceCandidates rest
    (if r.1 then nodeid :: more.1 else more.1, more.2)

end P2PState

end MeshPP.P2PSocket
