import MeshPP.Lib.Frame
import MeshPP.P2PSocket.P2PState

/-! # `p2psocket`

A node over a socket of belt.pp. What a call of the socket, the clock and the
timers answer comes from outside, a call for each packet or address it is made
for. An exception ends an operation where it is thrown. The trace lists the
packets delivered and sent. Logging is left out and assertions are compiled out. -/

namespace MeshPP.P2PSocket
open MeshPP.Lib MeshPP.Kbucket

/-! ## Packets -/

structure Ping where
  nodeid : String
  stamp : Int
  signature : String
  connectionInfo : IpAddress
  deriving DecidableEq, Repr

structure Pong where
  nodeid : String
  stamp : Int
  signature : String
  deriving DecidableEq, Repr

inductive Packet
  | streamJoin
  | streamDrop
  | streamProtocolError (buffer : String)
  | socketOpenRefused (address : IpAddress)
  | socketOpenError (address : IpAddress)
  | ping (msg : Ping)
  | pong (msg : Pong)
  | findNode (nodeid : String)
  | nodeDetails (origin : String) (nodeids : List String)
  | introduceTo (nodeid : String)
  | openConnectionWith (addr : IpAddress)
  | other (contents : String)
  /-- of a type that `receive` has no case for -/
  | unknown
  deriving DecidableEq, Repr

/-- What `receive` hands to the application. -/
inductive AppPacket
  | streamJoin
  | streamDrop
  | streamProtocolError (buffer : String)
  | socketOpenRefused (address : IpAddress)
  | socketOpenError (address : IpAddress)
  | extension (contents : String)
  deriving DecidableEq, Repr

inductive SocketEvent
  | delivered (p : PeerId) (packet : Packet)
  | sent (p : PeerId) (packet : Packet)
  deriving DecidableEq, Repr

/-! ## The node -/

/-- What Crypto++ and belt.pp compute. -/
class Library where
  /-- the constructor of `public_key` does not throw -/
  validPublicKey : String → Bool
  verifySignature : String → String → String → Bool
  sign : String → String
  gmTime : Int → String

inductive P2PError
  | runtimeError (what : String)
  | logicError (what : String)
  | publicKey (str : String)
  | socket
  | fault (fault : Fault)
  deriving DecidableEq, Repr

/-- `p2psocket_internals` -/
structure Internals where
  discoveryServer : Bool
  state : P2PState
  connectToAddresses : List IpAddress
  theFirstConnectToAddressFromSocket : IpAddress
  notifyRemovedPeers : USet PeerId
  trace : List SocketEvent

abbrev SocketM := EStateM P2PError Internals

def updateState (f : P2PState → P2PState) : SocketM Unit :=
  modify fun s => { s with state := f s.state }

def readState {α : Type} (f : P2PState → Except Fault α) : SocketM α := do
  match f (← get).state with
  | .ok a => return a
  | .error e => throw (.fault e)

def tryState (f : P2PState → Except Fault P2PState) : SocketM Unit := do
  let t ← readState f
  updateState fun _ => t

def record (event : SocketEvent) : SocketM Unit :=
  modify fun s => { s with trace := s.trace ++ [event] }

/-- A call of the socket with the answer it gives, or none when it throws. -/
def skCall {α : Type} : Option α → SocketM α
  | some a => return a
  | none => throw .socket

def skSend (returns : Bool) (p : PeerId) (packet : Packet) : SocketM Unit :=
  if returns then record (.sent p packet) else throw .socket

variable [Sha256] [EmptyDestination] [Library]

/-! ## The constructor -/

def bindAddress (bindToAddress item : IpAddress) : Except P2PError IpAddress :=
  if item.local.empty && item.remote.empty then
    throw (.runtimeError "incorrect connect configuration")
  else
    let item := if !item.local.empty && item.remote.empty then
        { item with remote := item.local, «local» := .none } else item
    return if !bindToAddress.local.empty then
        { item with «local» := { item.local with port := bindToAddress.local.port } } else item

def initBindToAddress (discoveryServer : Bool) (bindToAddress : IpAddress)
    (connectToAddresses : List IpAddress) : Except P2PError (List IpAddress) :=
  if !discoveryServer then connectToAddresses.mapM (bindAddress bindToAddress) else return []

def create (discoveryServer : Bool) (bindToAddress : IpAddress)
    (connectToAddresses : List IpAddress) (selfId : String) : Except P2PError Internals := do
  let addresses ← initBindToAddress discoveryServer bindToAddress connectToAddresses
  if bindToAddress.local.empty && addresses.isEmpty then throw (.logicError "dummy socket")
  else
    let start := P2PState.init selfId
    let passive := if !bindToAddress.local.empty then
        [{ bindToAddress with remote := .none }] else []
    let state := if !bindToAddress.local.empty then
        { start with fixedLocalPort := bindToAddress.local.port } else start
    match (passive ++ addresses).foldlM P2PState.addPassive state with
    | .ok state => return ⟨discoveryServer, state, addresses, .none, ∅, []⟩
    | .error e => throw (.fault e)

/-! ## `receive`, one packet -/

/-- The answers of the calls made for one packet. -/
structure PacketCalls where
  /-- `info` and `info_connection` of the peer -/
  info : Option IpAddress
  infoConnection : Option IpAddress
  /-- `info` of the peer that is introduced -/
  infoIntroduce : Option IpAddress
  /-- whether each `send` returns -/
  send : Nat → Bool
  /-- the clock in nanoseconds when a stamp is checked -/
  now : Int
  /-- the clock in seconds when a packet is stamped -/
  time : Int

/-- The variables of `receive`. -/
structure Received where
  peer : PeerId
  currentConnection : IpAddress
  returnPackets : List AppPacket

def Received.push (r : Received) (peer : PeerId) (packet : AppPacket) : Received :=
  { r with peer, returnPackets := r.returnPackets ++ [packet] }

/-- `PING_INTERVAL` in nanoseconds -/
def pingInterval : Int := 30 * 10 ^ 9

def outdated (stamp now : Int) : Bool :=
  let diff := (stamp * 10 ^ 9 - now).bmod (2 ^ 64)
  diff < -pingInterval || pingInterval ≤ diff

def stampedMessage (nodeid : String) (stamp : Int) : String := nodeid ++ Library.gmTime stamp

def verifySignature (nodeid message signature : String) : SocketM Bool :=
  if Library.validPublicKey nodeid then
    return Library.verifySignature nodeid message signature
  else throw (.publicKey nodeid)

def signedPing (nodeid : String) (stamp : Int) (connection : IpAddress) : Packet :=
  .ping ⟨nodeid, stamp, Library.sign (stampedMessage nodeid stamp), connection⟩

def isConfiguredAddress (s : Internals) (item : IpAddress) : Bool :=
  s.connectToAddresses.any fun it => item.remote = it.remote

def removeIfConfiguredAddress (item : IpAddress) : SocketM Unit := do
  if isConfiguredAddress (← get) item then
    tryState fun t => t.removeLaterAddress item 0 false true false
  else return

def isTheFirstConfiguredAddress (peerConnection item : IpAddress) : SocketM Bool := do
  let s ← get
  if !s.theFirstConnectToAddressFromSocket.remote.empty &&
      s.theFirstConnectToAddressFromSocket = item then return true
  else if s.connectToAddresses.head?.any fun it => it.remote = item.remote then
    modify fun s => { s with theFirstConnectToAddressFromSocket := peerConnection }
    return true
  else return false

def receiveJoin (p : PeerId) (calls : PacketCalls) (r : Received) : SocketM Received := do
  let s ← get
  if s.state.fixedLocalPort = 0 ∨ r.currentConnection.local.port = s.state.fixedLocalPort then
    tryState fun t => t.addActive r.currentConnection p
    skSend (calls.send 0) p (signedPing s.state.selfId calls.time r.currentConnection)
    updateState fun t => t.removeLater p 10 true false
    updateState fun t => { t with fixedLocalPort := r.currentConnection.local.port }
    tryState fun t => t.addPassive { r.currentConnection with remote := .none }
    return r
  else throw (.logicError
    "code is updated so that all connections must have the same fixed local port from beginning")

def receiveProtocolError (p : PeerId) (nodeid buffer : String) (r : Received) :
    SocketM Received := do
  updateState fun t => t.removeLater p 0 true false
  return if nodeid ≠ "" then r.push nodeid (.streamProtocolError buffer)
    else { r with peer := nodeid }

def receiveOpenFailed (p : PeerId) (address : IpAddress) (packet : AppPacket) (r : Received) :
    SocketM Received := do
  removeIfConfiguredAddress address
  return r.push ("p2p: " ++ p) packet

def receiveDrop (p : PeerId) (nodeid : String) (r : Received) : SocketM Received := do
  updateState fun t => t.setPeerUnverified p
  updateState fun t => t.removeLater p 0 false false
  if nodeid ≠ "" then
    updateState fun t => t.processNodeDrop nodeid
    return r.push nodeid .streamDrop
  else return { r with peer := nodeid }

/-- The stamp and the signature of a `Ping`. -/
def authenticatePing (p : PeerId) (msg : Ping) (now : Int) : SocketM Bool :=
  if outdated msg.stamp now then return false
  else if msg.signature ≠ "" then do
    if ← verifySignature msg.nodeid (stampedMessage msg.nodeid msg.stamp) msg.signature then
      updateState fun t => t.setPeerVerified p
      return true
    else return false
  else do return (← get).state.isPeerVerified p

def externalAddressPing (msg : Ping) : IpAddress :=
  { msg.connectionInfo with «local» := msg.connectionInfo.remote, remote := .none }

def canResetExternalAddress (peerConnection currentConnection : IpAddress) : SocketM Bool := do
  if (← get).state.contactsEmpty then return true
  else isTheFirstConfiguredAddress peerConnection currentConnection

/-- The peer sees this node under the address it is known to have. -/
def acceptExternalAddress (msg : Ping) (stored : IpAddress) (canReset : Bool) : SocketM Bool :=
  if (stored.local.empty && stored.remote.empty) || canReset then do
    updateState fun t => { t with externalIpAddress := externalAddressPing msg }
    return true
  else return externalAddressPing msg = stored

/-- What a `Ping` has to pass before its sender is registered. -/
def checkPing (p : PeerId) (msg : Ping) (calls : PacketCalls) (r : Received) : SocketM Bool := do
  let peerConnection ← skCall calls.infoConnection
  let stored := (← get).state.externalIpAddress
  let canReset ← canResetExternalAddress peerConnection r.currentConnection
  if ← authenticatePing p msg calls.now then acceptExternalAddress msg stored canReset
  else return false

def addContact (p : PeerId) (nodeid : String) : SocketM ContactStatus := do
  match (← get).state.addContact p nodeid with
  | .ok (status, t) =>
    updateState fun _ => t
    return status
  | .error what => throw (.logicError what)

def registerPing (p : PeerId) (msg : Ping) (calls : PacketCalls) (r : Received) :
    SocketM Received := do
  let status ← addContact p msg.nodeid
  let name := (← get).state.selfId
  let signature := if msg.signature ≠ "" then Library.sign (stampedMessage name calls.time) else ""
  skSend (calls.send 0) p (.pong ⟨name, calls.time, signature⟩)
  if status ≠ .noContact then
    updateState fun t => t.removeLater p 10 true true
    tryState fun t => t.setActiveNodeid p msg.nodeid
    return if msg.nodeid ≠ "" ∧ status = .newContact then r.push msg.nodeid .streamJoin else r
  else
    updateState fun t => t.processNodeDrop msg.nodeid
    return r

def receivePing (p : PeerId) (msg : Ping) (calls : PacketCalls) (r : Received) :
    SocketM Received := do
  if ← checkPing p msg calls r then registerPing p msg calls r else return r

def checkPong (p : PeerId) (msg : Pong) (now : Int) : SocketM Bool := do
  if (← get).state.selfId = msg.nodeid then return false
  else if outdated msg.stamp now then return false
  else if msg.signature ≠ "" then
    verifySignature msg.nodeid (stampedMessage msg.nodeid msg.stamp) msg.signature
  else return (← get).state.isPeerVerified p

def receivePong (p : PeerId) (msg : Pong) (calls : PacketCalls) : SocketM Unit := do
  if ← checkPong p msg calls.now then
    skSend (calls.send 0) p (.findNode (← get).state.selfId)
  else return

def receiveFindNode (p : PeerId) (calls : PacketCalls) : SocketM Unit := do
  let t := (← get).state
  skSend (calls.send 0) p (.nodeDetails t.selfId t.getKbucketNodeids)

def receiveNodeDetails (p : PeerId) (nodeids : List String) (calls : PacketCalls) :
    SocketM Unit := do
  let wanted := (← get).state.filterIntroduceCandidates nodeids
  updateState fun _ => wanted.2
  wanted.1.zipIdx.foldlM (fun _ intro => skSend (calls.send intro.2) p (.introduceTo intro.1)) ()

def receiveIntroduceTo (p : PeerId) (nodeid : String) (calls : PacketCalls) (r : Received) :
    SocketM Unit := do
  match (← get).state.processIntroduceRequest nodeid with
  | some introducePeerId =>
    let introduceAddr ← skCall calls.infoIntroduce
    skSend (calls.send 0) p (.openConnectionWith introduceAddr)
    skSend (calls.send 1) introducePeerId (.openConnectionWith r.currentConnection)
  | none => return

def receiveOpenConnectionWith (addr : IpAddress) (r : Received) : SocketM Unit := do
  if !(← get).discoveryServer then
    tryState fun t => t.addPassiveAttempts { addr with «local» := r.currentConnection.local } 1000
  else return

def receiveOther (nodeid contents : String) (r : Received) : SocketM Received := do
  if nodeid ≠ "" then
    updateState fun t => t.processNodeJoin nodeid
    return r.push nodeid (.extension contents)
  else return { r with peer := nodeid }

/-- The packets for which `receive` does not ask for the connection. -/
def Packet.unconnected : Packet → Bool
  | .streamDrop | .socketOpenError _ | .socketOpenRefused _ => true
  | _ => false

def receiveCase (p : PeerId) (nodeid : String) (calls : PacketCalls) (r : Received) :
    Packet → SocketM Received
  | .streamJoin => receiveJoin p calls r
  | .streamProtocolError buffer => receiveProtocolError p nodeid buffer r
  | .socketOpenRefused address => receiveOpenFailed p address (.socketOpenRefused address) r
  | .socketOpenError address => receiveOpenFailed p address (.socketOpenError address) r
  | .streamDrop => receiveDrop p nodeid r
  | .ping msg => receivePing p msg calls r
  | .pong msg => do receivePong p msg calls; return r
  | .findNode _ => do receiveFindNode p calls; return r
  | .nodeDetails _ nodeids => do receiveNodeDetails p nodeids calls; return r
  | .introduceTo nodeid => do receiveIntroduceTo p nodeid calls r; return r
  | .openConnectionWith addr => do receiveOpenConnectionWith addr r; return r
  | .other contents => receiveOther nodeid contents r
  | .unknown => return r

/-- `info` of the peer, when it is asked for and does not throw. -/
def Received.connected (r : Received) (packet : Packet) (calls : PacketCalls) : Received :=
  if packet.unconnected then r
  else { r with currentConnection := calls.info.getD r.currentConnection }

def receivePacket (p : PeerId) (r : Received) (x : Packet × PacketCalls) : SocketM Received := do
  record (.delivered p x.1)
  let nodeid ← readState fun t => t.getNodeid p
  receiveCase p nodeid x.2 (r.connected x.1 x.2) x.1

/-! ## The operations -/

/-- `receive`, over what the socket's `receive` has to say when it is called; `peer` is the
caller's variable. -/
def receive (ord : IterOrder) (peer : PeerId)
    (batch : Option (PeerId × List (Packet × PacketCalls))) :
    SocketM (PeerId × List AppPacket) := do
  match ord.order (← get).notifyRemovedPeers.keys with
  | removed :: _ =>
    modify fun s => { s with notifyRemovedPeers := s.notifyRemovedPeers.erase removed }
    return (removed, [.streamDrop])
  | [] =>
    let batch ← skCall batch
    let r ← batch.2.foldlM (receivePacket batch.1) ⟨peer, .none, []⟩
    return (r.peer, r.returnPackets)

/-- The answers of the calls `prepare_wait` makes, by address and by peer. -/
structure WaitCalls where
  ord : IterOrder
  sendDrop : PeerId → Bool
  /-- the peers of `listen` and their `info` -/
  listen : Nat → Option (List (PeerId × Option IpAddress))
  connectTimerExpired : Bool
  reconnectTimerExpired : Bool
  /-- whether each `open` returns -/
  «open» : Nat → Bool
  prepareWait : Bool

def dropRemoved (calls : WaitCalls) (p : PeerId) : SocketM Unit := do
  updateState fun t => t.setPeerUnverified p
  skSend (calls.sendDrop p) p .streamDrop

def removePending (calls : WaitCalls) : SocketM Unit := do
  let toRemove ← readState fun t => t.removePending calls.ord
  let notify := (toRemove.1.1.filter Prod.snd).map Prod.fst
  modify fun s => { s with
    state := toRemove.2
    notifyRemovedPeers := notify.foldl (fun set key => set.insert key ()) s.notifyRemovedPeers }
  toRemove.1.2.foldlM (fun _ p => dropRemoved calls p) ()

def addListening (x : PeerId × Option IpAddress) : SocketM Unit := do
  let connection ← skCall x.2
  tryState fun t => t.addActive connection x.1

def listenOn (calls : WaitCalls) (x : IpAddress × Nat) : SocketM Unit := do
  let port := (← get).state.fixedLocalPort
  if port = 0 then throw (.runtimeError "impossible to listen without fixed local port")
  else
    let item : IpAddress := { x.1 with «local» := { x.1.local with port } }
    onFailure (updateState fun t => t.removeFromTodoList item) do
      let peers ← skCall (calls.listen x.2)
      peers.foldlM (fun _ peer => addListening peer) ()

def addConfigured : SocketM Unit := do
  (← get).connectToAddresses.foldlM (fun _ item => tryState fun t => t.addPassive item) ()

/-- Without any connection, or when it is time, the configured addresses are tried again. -/
def reconnect (calls : WaitCalls) (toConnect : List IpAddress) : SocketM Unit := do
  if toConnect.isEmpty then
    let connected ← readState fun t => t.getConnectedPeerids
    if connected.isEmpty && calls.connectTimerExpired then addConfigured else pure ()
  else pure ()
  if calls.reconnectTimerExpired then addConfigured else pure ()

/-- The item leaves the list of things to do, whether `open` returns or throws. -/
def openTo (calls : WaitCalls) (x : IpAddress × Nat) : SocketM Unit := do
  onFailure (do removeIfConfiguredAddress x.1; updateState fun t => t.removeFromTodoList x.1) do
    let _ ← readState fun t => t.getOpenAttempts x.1
    skCall (if calls.open x.2 then some () else none)
    tryState fun t => t.removeLaterAddress x.1 30 false true false
  updateState fun t => t.removeFromTodoList x.1

def prepareWait (calls : WaitCalls) : SocketM Unit := do
  removePending calls
  let toListen ← readState fun t => t.programState.getToListen calls.ord
  toListen.zipIdx.foldlM (fun _ x => listenOn calls x) ()
  let toConnect ← readState fun t => t.programState.getToConnect calls.ord
  reconnect calls toConnect
  toConnect.zipIdx.foldlM (fun _ x => openTo calls x) ()
  skCall (if calls.prepareWait then some () else none)

/-- What the application sends. -/
inductive SendPacket
  | streamDrop
  | extension (contents : String)

def send (peer : String) (pack : SendPacket) (returns : Bool) : SocketM Unit := do
  match (← get).state.getPeerId peer with
  | none => throw (.runtimeError ("send() no such node: " ++ peer))
  | some p =>
    match pack with
    | .streamDrop => updateState fun t => t.removeLater p 0 true false
    | .extension contents => skSend returns p (.other contents)

structure TimerCalls where
  timerAction : Bool
  info : PeerId → Option IpAddress
  send : PeerId → Bool
  time : PeerId → Int

def pingPeer (calls : TimerCalls) (p : PeerId) : SocketM Unit := do
  let currentConnection ← skCall (calls.info p)
  skSend (calls.send p) p (.ping ⟨(← get).state.selfId, calls.time p, "", currentConnection⟩)

def timerAction (calls : TimerCalls) : SocketM Unit := do
  skCall (if calls.timerAction then some () else none)
  updateState P2PState.doStep
  let connected ← readState fun t => t.getConnectedPeerids
  connected.foldlM (fun _ p => pingPeer calls p) ()

inductive P2POp
  | receive (ord : IterOrder) (peer : PeerId)
    (batch : Option (PeerId × List (Packet × PacketCalls)))
  | prepareWait (calls : WaitCalls)
  | send (peer : String) (pack : SendPacket) (returns : Bool)
  | timerAction (calls : TimerCalls)

inductive P2POut
  | received (peer : PeerId) (packets : List AppPacket)
  | done
  | thrown (error : P2PError)

/-- The outcome of an operation and the socket it leaves. -/
def outcome {α : Type} (out : α → P2POut) :
    EStateM.Result P2PError Internals α → P2POut × Internals
  | .ok a s => (out a, s)
  | .error e s => (.thrown e, s)

def Internals.step (s : Internals) : P2POp → P2POut × Internals
  | .receive ord peer batch =>
    outcome (fun r => .received r.1 r.2) (P2PSocket.receive ord peer batch s)
  | .prepareWait calls => outcome (fun _ => .done) (P2PSocket.prepareWait calls s)
  | .send peer pack returns => outcome (fun _ => .done) (P2PSocket.send peer pack returns s)
  | .timerAction calls => outcome (fun _ => .done) (P2PSocket.timerAction calls s)

end MeshPP.P2PSocket
