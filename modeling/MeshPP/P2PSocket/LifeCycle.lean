import MeshPP.P2PSocket.Presence
import MeshPP.P2PSocket.Unfailing

/-! # The life of a node, as the application sees it

The application is told that a node joins and that it leaves, and it gets the
packets of the node in between. A join is told for each new contact, a leave for
each connection, so the two only take turns while no second connection of a node
speaks behind the first one's leave. -/

set_option linter.unusedSectionVars false

namespace MeshPP.P2PSocket
open MeshPP.Lib MeshPP.Kbucket

/-! ## Events -/

inductive LifeEvent
  | join
  | leave
  | data
  deriving DecidableEq, Repr

/-- Joins and leaves take turns, and data come between a join and the next leave. -/
def LifeEvent.next : Bool → LifeEvent → Option Bool
  | false, .join => some true
  | true, .leave => some false
  | true, .data => some true
  | _, _ => none

def AppPacket.lifeEvent : AppPacket → Option LifeEvent
  | .streamJoin => some .join
  | .streamDrop | .streamProtocolError _ => some .leave
  | .extension _ => some .data
  | .socketOpenRefused _ | .socketOpenError _ => none

/-- The events of `nodeid` in packets that are returned under `peer`. -/
def eventsUnder (peer : String) (packets : List AppPacket) (nodeid : String) : List LifeEvent :=
  if peer = nodeid then packets.filterMap AppPacket.lifeEvent else []

/-- What an operation that ends in `out` is for the life of `nodeid`. -/
def P2POp.lifeEvents (op : P2POp) (out : P2POut) (nodeid : String) : List LifeEvent :=
  match op, out with
  | .receive _ _ _, .received peer packets => eventsUnder peer packets nodeid
  | .send peer .streamDrop _, .done => if peer = nodeid then [.leave] else []
  | _, _ => []

/-- Data leave a life where it is. -/
theorem life_of_data {events : List LifeEvent} (h : ∀ e ∈ events, e = .data) {b b' : Bool}
    (hrun : events.foldlM LifeEvent.next b = some b') : b' = b := by
  induction events generalizing b with
  | nil => exact (Option.some.inj hrun).symm
  | cons e events ih =>
    obtain rfl := h e List.mem_cons_self
    cases b with
    | false => cases hrun
    | true => exact ih (fun e he => h e (List.mem_cons_of_mem _ he)) hrun

section
variable [Sha256] [EmptyDestination] [Library] {s s' s'' : Internals}

def lifeEvents (s : Internals) (ops : List P2POp) (nodeid : String) : List LifeEvent :=
  (ops.zip (outputs Internals.step s ops)).flatMap fun x => x.1.lifeEvents x.2 nodeid

/-- The life of every node is one of joins and leaves that take turns. -/
def LifeCycle (s : Internals) (ops : List P2POp) : Prop :=
  ∀ nodeid, ((lifeEvents s ops nodeid).foldlM LifeEvent.next false).isSome

/-! ## What events make of the nodes that have joined -/

open Classical in
noncomputable def joined (s : Internals) (nodeid : String) : Bool := decide (Joined s nodeid)

theorem joined_eq_true {nodeid : String} : joined s nodeid = true ↔ Joined s nodeid := by
  classical
  exact decide_eq_true_iff

theorem joined_eq_false {nodeid : String} : joined s nodeid = false ↔ ¬ Joined s nodeid := by
  classical
  exact decide_eq_false_iff_not

theorem joined_eq {nodeid : String} (h : Joined s' nodeid ↔ Joined s nodeid) :
    joined s' nodeid = joined s nodeid := by
  rw [Bool.eq_iff_iff, joined_eq_true, joined_eq_true]
  exact h

/-- The events lead from the nodes that have joined before to those that have joined after. -/
def Follows (s s' : Internals) (events : String → List LifeEvent) : Prop :=
  ∀ nodeid, (events nodeid).foldlM LifeEvent.next (joined s nodeid) = some (joined s' nodeid)

theorem follows_none (h : ∀ nodeid, Joined s' nodeid ↔ Joined s nodeid) :
    Follows s s' fun _ => [] :=
  fun nodeid => congrArg some (joined_eq (h nodeid)).symm

theorem Follows.trans {events events' : String → List LifeEvent} (h : Follows s s' events)
    (h' : Follows s' s'' events') :
    Follows s s'' fun nodeid => events nodeid ++ events' nodeid := by
  intro nodeid
  rw [List.foldlM_append, h nodeid]
  exact h' nodeid

theorem follows_one {name : String} {event : LifeEvent}
    (hname : LifeEvent.next (joined s name) event = some (joined s' name))
    (hother : ∀ nodeid, nodeid ≠ name → (Joined s' nodeid ↔ Joined s nodeid)) :
    Follows s s' fun nodeid => if name = nodeid then [event] else [] := by
  intro nodeid
  dsimp only
  split
  · next he =>
    subst he
    rw [List.foldlM_cons, hname]
    rfl
  · next hne => exact congrArg some (joined_eq (hother nodeid (Ne.symm hne))).symm

theorem follows_join {name : String} (hn : ¬ Joined s name)
    (h : ∀ nodeid, Joined s' nodeid ↔ Joined s nodeid ∨ nodeid = name) :
    Follows s s' fun nodeid => if name = nodeid then [.join] else [] := by
  refine follows_one ?_ fun nodeid hne => (h nodeid).trans (or_iff_left hne)
  rw [joined_eq_false.mpr hn, joined_eq_true.mpr ((h name).mpr (.inr rfl))]
  rfl

theorem follows_leave {name : String} (hn : Joined s name)
    (h : ∀ nodeid, Joined s' nodeid ↔ Joined s nodeid ∧ nodeid ≠ name) :
    Follows s s' fun nodeid => if name = nodeid then [.leave] else [] := by
  refine follows_one ?_ fun nodeid hne => (h nodeid).trans (and_iff_left hne)
  rw [joined_eq_true.mpr hn, joined_eq_false.mpr fun hj => ((h name).mp hj).2 rfl]
  rfl

theorem follows_data {name : String} (hn : Joined s name)
    (h : ∀ nodeid, Joined s' nodeid ↔ Joined s nodeid) :
    Follows s s' fun nodeid => if name = nodeid then [.data] else [] := by
  refine follows_one ?_ fun nodeid _ => h nodeid
  rw [joined_eq_true.mpr hn, joined_eq_true.mpr ((h name).mpr hn)]
  rfl

/-! ## What is asked of the packets -/

/-- The packets that are returned under the node of their peer. -/
def Packet.speaks : Packet → Bool
  | .streamDrop | .streamProtocolError _ | .other _ => true
  | _ => false

/-- `p` is new to the table, and it takes the place of no connection that has left. -/
structure Arrives (addr : IpAddress) (p : PeerId) (s : Internals) : Prop where
  new : s.state.slot p = none
  displaces : ∀ q, (s.state.holder addr).bind StateItem.peer = some q → ¬ s.state.Left q

/-- The name under which `receive` returns its packets once it has handled this one. -/
inductive Relabels (p : PeerId) (r : Received) (x : Packet × PacketCalls) (s : Internals) :
    String → Prop
  | speaks : x.1.speaks → Relabels p r x s (s.state.nodeOf p)
  | refused {address : IpAddress} : x.1 = .socketOpenRefused address →
    Relabels p r x s ("p2p: " ++ p)
  | failed {address : IpAddress} : x.1 = .socketOpenError address →
    Relabels p r x s ("p2p: " ++ p)
  | joined {msg : Ping} {b : KBucket Konnection} : x.1 = .ping msg →
    Accepted (s.delivered p x.1) p msg x.2 (r.connected x.1 x.2) →
    P2PState.Added s.state.kbucket ⟨msg.nodeid, p⟩ .newContact b → msg.nodeid ≠ "" →
    Relabels p r x s msg.nodeid

/-- A join or a leave waits to be returned. -/
def Received.turns (r : Received) : Prop :=
  ∃ packet ∈ r.returnPackets, packet.lifeEvent = some .join ∨ packet.lifeEvent = some .leave

/-- What keeps the life of the nodes in order when a packet is handled. -/
structure Orderly (p : PeerId) (r : Received) (x : Packet × PacketCalls) (s : Internals) :
    Prop where
  /-- a connection speaks for a node that is present -/
  present : x.1.speaks → s.state.nodeOf p ≠ "" → s.state.Present (s.state.nodeOf p)
  arrives : x.1 = .streamJoin → (s.state.fixedLocalPort = 0 ∨
    (r.connected x.1 x.2).currentConnection.local.port = s.state.fixedLocalPort) →
    Arrives (r.connected x.1 x.2).currentConnection p s
  registers : ∀ msg status b, x.1 = .ping msg →
    Accepted (s.delivered p x.1) p msg x.2 (r.connected x.1 x.2) →
    P2PState.Added s.state.kbucket ⟨msg.nodeid, p⟩ status b →
    (status ≠ .noContact → x.2.send 0 = true → Registrable p msg.nodeid status s) ∧
      (status = .newContact → x.2.send 0 = false → msg.nodeid = "")
  /-- what waits to be returned keeps its name -/
  label : r.returnPackets.filterMap AppPacket.lifeEvent ≠ [] →
    ∀ name, Relabels p r x s name → name = r.peer
  /-- a join or a leave that waits is not lost -/
  unfailing : r.turns → Unfailing p r x s

def Conditions.orderly : Conditions where
  activates addr p s := Arrives addr p s
  packet p r x s := Orderly p r x s
  drop peer s := ∀ p, s.state.getPeerId peer = some p →
    peer ≠ "" ∧ s.state.Present peer ∧ s.state.nodeOf p = peer

/-! ## One batch -/

/-- What a batch has done so far, from the state in which it began. -/
structure Batch (s₀ : Internals) (r : Received) (s : Internals) : Prop where
  settled : Settled s
  quiet : ∀ nodeid, nodeid ∉ s.notifyRemovedPeers
  follows : Follows s₀ s (eventsUnder r.peer r.returnPackets)

variable {s₀ : Internals} {p : PeerId} {r r' : Received}

theorem eventsUnder_append {peer peer' : String} {packets more : List AppPacket}
    (h : packets.filterMap AppPacket.lifeEvent ≠ [] → peer' = peer) (nodeid : String) :
    eventsUnder peer' (packets ++ more) nodeid =
      eventsUnder peer packets nodeid ++ eventsUnder peer' more nodeid := by
  unfold eventsUnder
  rw [List.filterMap_append]
  by_cases hnil : packets.filterMap AppPacket.lifeEvent = []
  · rw [hnil, ite_self, List.nil_append, List.nil_append]
  · rw [h hnil]
    split
    · rfl
    · rfl

theorem Batch.extend (h : Batch s₀ r s) (hs : Settled s')
    (hn : s'.notifyRemovedPeers = s.notifyRemovedPeers) {more : List AppPacket}
    (hr : r'.returnPackets = r.returnPackets ++ more)
    (hf : Follows s s' (eventsUnder r'.peer more))
    (hl : r.returnPackets.filterMap AppPacket.lifeEvent ≠ [] → r'.peer = r.peer) :
    Batch s₀ r' s' := by
  refine ⟨hs, fun nodeid => ?_, fun nodeid => ?_⟩
  · rw [hn]
    exact h.quiet nodeid
  · rw [hr, eventsUnder_append hl]
    exact h.follows.trans hf nodeid

/-- A packet with an event is returned. -/
theorem Batch.push (h : Batch s₀ r s) (hs : Settled s')
    (hn : s'.notifyRemovedPeers = s.notifyRemovedPeers) {name : String} {packet : AppPacket}
    {event : LifeEvent} (he : packet.lifeEvent = some event)
    (hf : Follows s s' fun nodeid => if name = nodeid then [event] else [])
    (hr : r'.returnPackets = r.returnPackets ++ [packet] ∧ r'.peer = name)
    (hl : r.returnPackets.filterMap AppPacket.lifeEvent ≠ [] → name = r.peer) :
    Batch s₀ r' s' := by
  refine h.extend hs hn hr.1 (fun nodeid => ?_) fun hne => hr.2.trans (hl hne)
  have hone : eventsUnder r'.peer [packet] nodeid = if name = nodeid then [event] else [] := by
    unfold eventsUnder
    rw [hr.2, List.filterMap_cons_some he, List.filterMap_nil]
  rw [hone]
  exact hf nodeid

/-- A packet without an event is returned. -/
theorem Batch.relabel (h : Batch s₀ r s) (hs : Settled s')
    (hn : s'.notifyRemovedPeers = s.notifyRemovedPeers)
    (hj : ∀ nodeid, Joined s' nodeid ↔ Joined s nodeid) (more : List AppPacket)
    (hm : more.filterMap AppPacket.lifeEvent = [])
    (hr : r'.returnPackets = r.returnPackets ++ more)
    (hl : r.returnPackets.filterMap AppPacket.lifeEvent ≠ [] → r'.peer = r.peer) :
    Batch s₀ r' s' := by
  refine h.extend hs hn hr (fun nodeid => ?_) hl
  have hnil : eventsUnder r'.peer more nodeid = [] := by
    unfold eventsUnder
    rw [hm, ite_self]
  rw [hnil]
  exact follows_none hj nodeid

/-- Nothing is returned for the packet, and no node joins or leaves. -/
theorem Batch.skip (h : Batch s₀ r s) (hs : Settled s')
    (hn : s'.notifyRemovedPeers = s.notifyRemovedPeers)
    (hj : ∀ nodeid, Joined s' nodeid ↔ Joined s nodeid)
    (hr : r'.returnPackets = r.returnPackets ∧ r'.peer = r.peer) : Batch s₀ r' s' :=
  h.relabel hs hn hj [] rfl (hr.1.trans (List.append_nil _).symm) fun _ => hr.2

/-- What speaks for the node of `p` is returned under it, when it has one. -/
theorem Batch.closing (h : Batch s₀ r s) (hs : Settled s')
    (hn : s'.notifyRemovedPeers = s.notifyRemovedPeers) {name : String} {packet : AppPacket}
    {event : LifeEvent} (he : packet.lifeEvent = some event)
    (hone : name ≠ "" → Follows s s' fun nodeid => if name = nodeid then [event] else [])
    (hnone : name = "" → ∀ nodeid, Joined s' nodeid ↔ Joined s nodeid)
    {r₁ : Received} (hr : r₁.returnPackets = r.returnPackets ∧ r₁.peer = r.peer)
    (hl : r.returnPackets.filterMap AppPacket.lifeEvent ≠ [] → name = r.peer) :
    Batch s₀ (r₁.closing name packet) s' := by
  unfold Received.closing
  by_cases hname : name = ""
  · rw [if_neg (not_not.mpr hname)]
    refine h.relabel hs hn (hnone hname) [] rfl ?_ hl
    exact hr.1.trans (List.append_nil _).symm
  · rw [if_pos hname]
    exact h.push hs hn he (hone hname) ⟨congrArg (· ++ [packet]) hr.1, rfl⟩ hl

/-- The leave of the node of `p` is told. -/
theorem Batch.closes (h : Batch s₀ r s) {packet : AppPacket} (he : packet.lifeEvent = some .leave)
    (hp : s.state.nodeOf p ≠ "" → s.state.Present (s.state.nodeOf p))
    (hc : Turn (P2PState.Closes · · p) s s') {r₁ : Received}
    (hr : r₁.returnPackets = r.returnPackets ∧ r₁.peer = r.peer)
    (hl : r.returnPackets.filterMap AppPacket.lifeEvent ≠ [] → s.state.nodeOf p = r.peer) :
    Batch s₀ (r₁.closing (s.state.nodeOf p) packet) s' := by
  have hj := h.settled.joined_closes hc fun hne => (hp hne).contact
  refine h.closing (h.settled.closes hc) hc.notify he (fun hne => ?_) (fun hempty nodeid => ?_)
    hr hl
  · exact follows_leave ⟨hne, .inr (hp hne)⟩ hj
  · refine (hj nodeid).trans (and_iff_left_of_imp fun hjoined he => hjoined.1 (he.trans hempty))

/-- The state behind a packet that is delivered, before it is handled. -/
theorem Batch.delivered (h : Batch s₀ r s) (p : PeerId) (packet : Packet) :
    Batch s₀ r (s.delivered p packet) :=
  ⟨⟨h.settled.indexed, h.settled.found, h.settled.unnamed, h.settled.distinct,
    h.settled.notified⟩, h.quiet, h.follows⟩

/-- A packet that changes neither the bucket nor an active item. -/
theorem Batch.calmly (h : Batch s₀ r s) {x : Packet × PacketCalls} (ho : Orderly p r x s)
    (hm : x.1.moves = false) (hc : Calm (s.delivered p x.1) s') {r₁ : Received}
    (hr : r₁.returnPackets = r.returnPackets ∧ r₁.peer = r.peer) :
    Batch s₀ (r₁.calmly p (s.state.nodeOf p) x.1) s' := by
  obtain ⟨hs, hj⟩ := (h.delivered p x.1).settled.calm hc
  obtain ⟨packet, calls⟩ := x
  cases packet with
  | streamJoin => cases hm
  | streamDrop => cases hm
  | streamProtocolError buffer => cases hm
  | ping msg => cases hm
  | socketOpenRefused address =>
    exact h.relabel hs hc.notify hj [.socketOpenRefused address] rfl
      (congrArg (· ++ _) hr.1) fun hne => ho.label hne _ (.refused rfl)
  | socketOpenError address =>
    exact h.relabel hs hc.notify hj [.socketOpenError address] rfl
      (congrArg (· ++ _) hr.1) fun hne => ho.label hne _ (.failed rfl)
  | other contents =>
    have he : (AppPacket.extension contents).lifeEvent = some .data := rfl
    refine h.closing hs hc.notify he (fun hne => ?_) (fun _ => hj) hr fun hne =>
      ho.label hne _ (.speaks rfl)
    exact follows_data ⟨hne, .inr (ho.present rfl hne)⟩ hj
  | pong msg => exact h.skip hs hc.notify hj hr
  | findNode nodeid => exact h.skip hs hc.notify hj hr
  | nodeDetails origin nodeids => exact h.skip hs hc.notify hj hr
  | introduceTo nodeid => exact h.skip hs hc.notify hj hr
  | openConnectionWith addr => exact h.skip hs hc.notify hj hr
  | unknown => exact h.skip hs hc.notify hj hr

/-- A `Ping` is registered. -/
theorem Batch.registers (h : Batch s₀ r s) {msg : Ping} {status : ContactStatus}
    {b : KBucket Konnection} (hb : P2PState.Added s.state.kbucket ⟨msg.nodeid, p⟩ status b)
    (hr : Registrable p msg.nodeid status s)
    (hc : Turn (fun t t' => P2PState.Adopts { t with kbucket := b } t' p msg.nodeid) s s')
    {r₁ : Received} (hr₁ : r₁.returnPackets = r.returnPackets ∧ r₁.peer = r.peer)
    (hl : status = .newContact → msg.nodeid ≠ "" →
      r.returnPackets.filterMap AppPacket.lifeEvent ≠ [] → msg.nodeid = r.peer) :
    Batch s₀ (if msg.nodeid ≠ "" ∧ status = .newContact then r₁.push msg.nodeid .streamJoin
      else r₁) s' := by
  obtain ⟨hs, hj⟩ := h.settled.registers hb h.quiet hr hc
  by_cases hnew : msg.nodeid ≠ "" ∧ status = .newContact
  · obtain ⟨hne, rfl⟩ := hnew
    rw [if_pos ⟨hne, rfl⟩]
    have he : AppPacket.streamJoin.lifeEvent = some .join := rfl
    refine h.push hs hc.notify he (follows_join ?_ fun nodeid => ?_)
      ⟨congrArg (· ++ _) hr₁.1, rfl⟩ (hl rfl hne)
    · intro hjoined
      rcases hjoined.2 with hm | hpres
      · exact h.quiet _ hm
      · exact hb.not_hasContact hpres.contact
    · exact (hj nodeid).trans (or_congr_right ⟨fun hboth => hboth.2.2, fun he => ⟨rfl, hne, he⟩⟩)
  · rw [if_neg hnew]
    refine h.skip hs hc.notify (fun nodeid => ?_) hr₁
    exact (hj nodeid).trans (or_iff_left fun hboth => hnew ⟨hboth.2.1, hboth.1⟩)

theorem Batch.returned (h : Batch s₀ r s) {x : Packet × PacketCalls} (ho : Orderly p r x s)
    (he : Effect (s.delivered p x.1) p (r.connected x.1 x.2) x.2 x.1 (some r') s') :
    Batch s₀ r' s' := by
  have h₀ := h.delivered p x.1
  have hr := r.connected_eq x.1 x.2
  obtain ⟨packet, calls⟩ := x
  cases he with
  | calm hm hcalm => exact h.calmly ho hm hcalm hr
  | ignored hcalm =>
    obtain ⟨hs, hj⟩ := h₀.settled.calm hcalm
    exact h₀.skip hs hcalm.notify hj hr
  | joined hport hact hres =>
    obtain rfl := Option.some.inj (hres.resolve_right fun hnone => (nomatch hnone))
    have harr := ho.arrives rfl hport
    obtain ⟨hs, hj⟩ := h₀.settled.activates harr.new harr.displaces hact
    exact h₀.skip hs hact.notify hj hr
  | errored hclose =>
    exact h₀.closes rfl (ho.present rfl) hclose hr fun hne => ho.label hne _ (.speaks rfl)
  | dropped hclose =>
    exact h₀.closes rfl (ho.present rfl) hclose hr fun hne => ho.label hne _ (.speaks rfl)
  | @registered msg status b s' hacc hb hstatus hsend hturn =>
    have hreg := (ho.registers msg status b rfl hacc hb).1 hstatus hsend
    refine h₀.registers hb ⟨hreg.stays, hreg.others⟩ hturn hr fun hnew hne hlife => ?_
    subst hnew
    exact ho.label hlife _ (.joined rfl hacc hb hne)

theorem data_of_not_turns (h : ¬ r.turns) :
    ∀ event ∈ r.returnPackets.filterMap AppPacket.lifeEvent, event = .data := by
  intro event hm
  obtain ⟨packet, hp, he⟩ := List.mem_filterMap.mp hm
  cases event with
  | join => exact absurd ⟨packet, hp, .inl he⟩ h
  | leave => exact absurd ⟨packet, hp, .inr he⟩ h
  | data => rfl

/-- Only data are lost when the batch is. -/
theorem Batch.lost (h : Batch s₀ r s) (hr : ¬ r.turns)
    (hj : ∀ nodeid, Joined s' nodeid ↔ Joined s nodeid) : Follows s₀ s' fun _ => [] := by
  intro nodeid
  have hsame : joined s nodeid = joined s₀ nodeid := by
    refine life_of_data (fun event he => ?_) (h.follows nodeid)
    unfold eventsUnder at he
    split at he
    · exact data_of_not_turns hr event he
    · cases he
  exact congrArg some (hsame.symm.trans (joined_eq (hj nodeid)).symm)

theorem Batch.thrown (h : Batch s₀ r s) {x : Packet × PacketCalls} (ho : Orderly p r x s)
    (hr : ¬ r.turns)
    (he : Effect (s.delivered p x.1) p (r.connected x.1 x.2) x.2 x.1 none s') :
    Settled s' ∧ Follows s₀ s' fun _ => [] := by
  have h₀ := h.delivered p x.1
  obtain ⟨packet, calls⟩ := x
  have hcases : Settled s' ∧ ∀ nodeid, Joined s' nodeid ↔ Joined s nodeid := by
    cases he with
    | thrown hcalm => exact h₀.settled.calm hcalm
    | joined hport hact hres =>
      have harr := ho.arrives rfl hport
      exact h₀.settled.activates harr.new harr.displaces hact
    | @unanswered msg status b s' hacc hb hsend hturn =>
      exact h₀.settled.unanswered hb h.quiet
        (fun hnew => (ho.registers msg status b rfl hacc hb).2 hnew hsend) hturn
  exact ⟨hcases.1, h.lost hr hcases.2⟩

theorem Batch.packet (h : Batch s₀ r s) {selfId : String} (hown : Owned selfId s)
    {x : Packet × PacketCalls} (ho : Orderly p r x s) :
    Leaves (receivePacket p r x) s (fun r' s' => Batch s₀ r' s' ∧ Owned selfId s')
      fun s' => Settled s' ∧ Follows s₀ s' fun _ => [] := by
  have he := receivePacket_effect h.settled.indexed p r x
  cases hrun : receivePacket p r x s with
  | ok r' s' =>
    have hown' : Owned selfId s' := (bears_owned.packet hown trivial).of_ok hrun
    exact leaves_ok hrun ⟨h.returned ho (he.of_ok hrun), hown'⟩
  | error e s' =>
    refine leaves_error hrun (h.thrown ho (fun hturns => ?_) (he.of_error hrun))
    obtain ⟨r', s₁, hok⟩ := (ho.unfailing hturns).returns hown h.settled.found
    cases hrun.symm.trans hok

/-! ## One operation -/

/-- The state is settled, and the events follow from the nodes that had joined. -/
def Lives (s₀ : Internals) (events : String → List LifeEvent) (s : Internals) : Prop :=
  Settled s ∧ Follows s₀ s events

theorem lives_of_iff (hs : Settled s') (hj : ∀ nodeid, Joined s' nodeid ↔ Joined s nodeid) :
    Lives s (fun _ => []) s' := ⟨hs, follows_none hj⟩

theorem Settled.receive (h : Settled s) {selfId : String} (hown : Owned selfId s)
    (ord : IterOrder) (peer : PeerId)
    (batch : Option (PeerId × List (Packet × PacketCalls)))
    (hc : ReceiveMeets Conditions.orderly.packet ord peer batch s) :
    Leaves (P2PSocket.receive ord peer batch) s (fun out s' => Lives s (eventsUnder out.1 out.2) s')
      (Lives s fun _ => []) := by
  unfold P2PSocket.receive
  refine Leaves.get_bind ?_
  cases hkeys : ord.order s.notifyRemovedPeers.keys with
  | cons removed rest =>
    have hmem : removed ∈ s.notifyRemovedPeers := by
      rw [AList.mem_keys, ← (ord.perm _).mem_iff, hkeys]
      exact List.mem_cons_self
    obtain ⟨hs, hj⟩ := h.forgets hmem
    exact leaves_ok rfl ⟨hs, follows_leave ⟨(h.notified removed hmem).1, .inl hmem⟩ hj⟩
  | nil =>
    cases batch with
    | none => exact leaves_error rfl (lives_of_iff h fun _ => .rfl)
    | some b =>
      have hquiet : ∀ nodeid, nodeid ∉ s.notifyRemovedPeers := by
        intro nodeid hm
        rw [AList.mem_keys, ← (ord.perm _).mem_iff, hkeys] at hm
        cases hm
      have hstart : Batch s ⟨peer, .none, []⟩ s := by
        refine ⟨h, hquiet, fun nodeid => ?_⟩
        have hnil : eventsUnder peer [] nodeid = [] := ite_self _
        rw [hnil]
        rfl
      refine (leaves_foldlM_meets (fun r s' => Batch s r s' ∧ Owned selfId s')
        (fun x r t hx ht => ht.1.packet ht.2 hx) b.2 ⟨peer, .none, []⟩ s (hc hkeys b.1 b.2 rfl)
        ⟨hstart, hown⟩).bind fun r s' _ h' => ?_
      exact leaves_pure ⟨h'.1.settled, h'.1.follows⟩

theorem Settled.prepareWait (h : Settled s) (hr : Releases s) (calls : WaitCalls)
    (hc : WaitMeets Conditions.orderly.activates calls s) :
    Leaves (P2PSocket.prepareWait calls) s (fun _ => Lives s fun _ => [])
      (Lives s fun _ => []) := by
  have hsteady : Steady (fun s' => Settled s' ∧ ∀ nodeid, Joined s' nodeid ↔ Joined s nodeid)
      Conditions.orderly.activates := by
    refine ⟨fun s' h' => h'.1.indexed, fun s₁ s₂ h' hcalm => ?_,
      fun s₁ s₂ addr p h' harr hact => ?_⟩
    · obtain ⟨hs, hj⟩ := h'.1.calm hcalm
      exact ⟨hs, fun nodeid => (hj nodeid).trans (h'.2 nodeid)⟩
    · obtain ⟨hs, hj⟩ := h'.1.activates harr.new harr.displaces hact
      exact ⟨hs, fun nodeid => (hj nodeid).trans (h'.2 nodeid)⟩
  have hstart : Settled s ∧ ∀ nodeid, Joined s nodeid ↔ Joined s nodeid := ⟨h, fun _ => .rfl⟩
  refine (hsteady.prepareWait hstart (fun s' hclear => h.clears hr hclear) calls hc).leaves.mono
    (fun _ s' h' => lives_of_iff h'.2.1 h'.2.2) fun s' h' => ?_
  exact lives_of_iff (h' hstart).1 (h' hstart).2

theorem Settled.send (h : Settled s) (peer : String) (pack : SendPacket) (returns : Bool)
    (hc : pack = .streamDrop → Conditions.orderly.drop peer s) :
    Leaves (P2PSocket.send peer pack returns) s
      (fun _ => Lives s ((P2POp.send peer pack returns).lifeEvents .done))
      (Lives s fun _ => []) := by
  refine (send_effect peer pack returns).mono (fun _ s' heffect => ?_) fun s' hcalm => ?_
  · rcases heffect with ⟨⟨contents, rfl⟩, hcalm⟩ | ⟨rfl, p, hp, hclose⟩
    · obtain ⟨hs, hj⟩ := h.calm hcalm
      exact lives_of_iff hs hj
    · obtain ⟨hne, hpres, hname⟩ := hc rfl p hp
      refine ⟨h.closes hclose, follows_leave ⟨hne, .inr hpres⟩ ?_⟩
      have hj := h.joined_closes hclose fun _ => hname ▸ hpres.contact
      rwa [hname] at hj
  · obtain ⟨hs, hj⟩ := h.calm hcalm
    exact lives_of_iff hs hj

/-- What every step of a run is asked. -/
def StepOrderly (s : Internals) (op : P2POp) : Prop :=
  StepMeets .orderly s op ∧ ∀ calls, op = .prepareWait calls → Releases s

/-- What an operation returns or throws, with the state that it leaves. -/
theorem lives_of_leaves {α : Type} {m : SocketM α} {op : P2POp} {out : α → P2POut}
    {Q : α → Internals → Prop} (h : Leaves m s Q (Lives s fun _ => []))
    (hq : ∀ a s', Q a s' → Lives s (op.lifeEvents (out a)) s')
    (he : ∀ e, op.lifeEvents (.thrown e) = fun _ => []) :
    Lives s (op.lifeEvents (outcome out (m s)).1) (outcome out (m s)).2 := by
  unfold outcome
  cases hm : m s with
  | ok a s' => exact hq a s' (h.of_ok hm)
  | error e s' =>
    dsimp only
    rw [he e]
    exact h.of_error hm

theorem Settled.step (h : Settled s) {selfId : String} (hown : Owned selfId s) {op : P2POp}
    (hc : StepOrderly s op) :
    Lives s (op.lifeEvents (s.step op).1) (s.step op).2 := by
  obtain ⟨hmeets, hrelease⟩ := hc
  cases op with
  | receive ord peer batch =>
    exact lives_of_leaves (h.receive hown ord peer batch hmeets) (fun _ _ h' => h') fun _ => rfl
  | prepareWait calls =>
    exact lives_of_leaves (h.prepareWait (hrelease calls rfl) calls hmeets) (fun _ _ h' => h')
      fun _ => rfl
  | send peer pack returns =>
    cases pack with
    | streamDrop =>
      exact lives_of_leaves (h.send peer .streamDrop returns fun _ => hmeets) (fun _ _ h' => h')
        fun _ => rfl
    | extension contents =>
      exact lives_of_leaves (h.send peer (.extension contents) returns fun hd => (nomatch hd))
        (fun _ _ h' => h') fun _ => rfl
  | timerAction calls =>
    have htimer : Leaves (P2PSocket.timerAction calls) s (fun _ => Lives s fun _ => [])
        (Lives s fun _ => []) := (calm_timerAction calls).leaves.mono
      (fun _ s' h' => lives_of_iff (h.calm h'.1).1 (h.calm h'.1).2)
      fun s' h' => lives_of_iff (h.calm h').1 (h.calm h').2
    exact lives_of_leaves htimer (fun _ _ h' => h') fun _ => rfl

/-! ## Runs -/

theorem Settled.run (h : Settled s) {selfId : String} (hown : Owned selfId s) {ops : List P2POp}
    (hm : Meets Internals.step StepOrderly s ops) :
    Lives s (lifeEvents s ops) (final Internals.step s ops) := by
  induction ops generalizing s with
  | nil => exact lives_of_iff h fun _ => .rfl
  | cons op ops ih =>
    obtain ⟨hs, hf⟩ := h.step hown hm.1
    have hown' : Owned selfId (s.step op).2 := bears_owned.step op hown (stepMeets_none s op)
    obtain ⟨hs', hf'⟩ := ih hs hown' hm.2
    exact ⟨hs', hf.trans hf'⟩

theorem settled_create {discoveryServer : Bool} {bindToAddress : IpAddress}
    {connectToAddresses : List IpAddress} {selfId : String}
    (h : create discoveryServer bindToAddress connectToAddresses selfId = .ok s) :
    Settled s ∧ ∀ nodeid, ¬ Joined s nodeid := by
  have hattached := attached_create h
  obtain ⟨hsame, hnotify, -⟩ := create_same h
  have hnone : ∀ nodeid, nodeid ∉ s.notifyRemovedPeers := by
    intro nodeid
    rw [hnotify]
    exact AList.notMem_empty nodeid
  refine ⟨⟨hsame.indexed, hsame.found (peerFound_init selfId), hsame.unnamed (unnamed_init selfId),
    hattached.distinct, fun nodeid hm => absurd hm (hnone nodeid)⟩, fun nodeid hjoined => ?_⟩
  rcases hjoined.2 with hm | ⟨⟨c, hc, -⟩, -⟩
  · exact hnone nodeid hm
  · rw [hsame.kbucket] at hc
    cases hc

/-- **As long as every step is orderly, the life of every node is one of joins and leaves that
take turns, with its packets in between.** -/
theorem run_lifeCycle {discoveryServer : Bool} {bindToAddress : IpAddress}
    {connectToAddresses : List IpAddress} {selfId : String} {s₀ : Internals}
    (hcreate : create discoveryServer bindToAddress connectToAddresses selfId = .ok s₀)
    {ops : List P2POp} (hm : Meets Internals.step StepOrderly s₀ ops) : LifeCycle s₀ ops := by
  obtain ⟨hsettled, hnone⟩ := settled_create hcreate
  intro nodeid
  have hfollows := (hsettled.run (owned_create hcreate) hm).2 nodeid
  rw [joined_eq_false.mpr (hnone nodeid)] at hfollows
  rw [hfollows]
  rfl

end

/-! ## Two connections of one node -/

/-- The packets of a trace that are delivered, with their peers. -/
def deliveries (trace : List SocketEvent) : List (PeerId × Packet) :=
  trace.filterMap fun event =>
    match event with
    | .delivered p packet => some (p, packet)
    | .sent _ _ => none

def deliveredBy (p : PeerId) (trace : List SocketEvent) : List Packet :=
  ((deliveries trace).filter fun x => x.1 = p).map Prod.snd

/-- A socket reports one join of a peer first and at most one drop last. -/
def Reported : List Packet → Prop
  | [] => True
  | first :: rest => first = .streamJoin ∧ .streamJoin ∉ rest ∧ .streamDrop ∉ rest.dropLast

namespace Sample
variable [Sha256] [EmptyDestination] [Library]

def deliverFrom (p : PeerId) (address : String) (packets : List Packet) : P2POp :=
  .receive .stored "" (some (p, packets.map fun packet => (packet, calls address)))

/-- `p` and `q` are connections of one node, and both are dropped. -/
def twoConnections : List P2POp :=
  [deliverFrom "p" "203.0.113.2" [.streamJoin, .ping (ping second)],
    deliverFrom "q" "203.0.113.3" [.streamJoin, .ping (ping second)],
    deliverFrom "p" "203.0.113.2" [.streamDrop], deliverFrom "q" "203.0.113.3" [.streamDrop]]

/-- The leave of the node is told twice. -/
def leavesTwice : Bool :=
  match create false bind [] own with
  | .ok s₀ => lifeEvents s₀ twoConnections second = [.join, .leave, .leave] &&
    deliveries (final Internals.step s₀ twoConnections).trace =
      [("p", .streamJoin), ("p", .ping (ping second)), ("q", .streamJoin),
        ("q", .ping (ping second)), ("p", .streamDrop), ("q", .streamDrop)]
  | .error _ => false

theorem reported_twoConnections {trace : List SocketEvent}
    (h : deliveries trace = [("p", .streamJoin), ("p", .ping (ping second)), ("q", .streamJoin),
      ("q", .ping (ping second)), ("p", .streamDrop), ("q", .streamDrop)]) (p : PeerId) :
    Reported (deliveredBy p trace) := by
  unfold deliveredBy
  rw [h]
  by_cases hp : p = "p"
  · subst hp
    exact ⟨rfl, by decide, by decide⟩
  · by_cases hq : p = "q"
    · subst hq
      exact ⟨rfl, by decide, by decide⟩
    · simp [Reported, Ne.symm hp, Ne.symm hq]

theorem exists_of_leavesTwice (h : leavesTwice = true) :
    ∃ s₀, create false bind [] own = .ok s₀ ∧
      (∀ p, Reported (deliveredBy p (final Internals.step s₀ twoConnections).trace)) ∧
      ¬ LifeCycle s₀ twoConnections := by
  unfold leavesTwice at h
  split at h
  · next s₀ hs₀ =>
    rw [Bool.and_eq_true, decide_eq_true_iff, decide_eq_true_iff] at h
    refine ⟨s₀, hs₀, reported_twoConnections h.2, fun hlife => ?_⟩
    have hsecond := hlife second
    rw [h.1] at hsecond
    cases hsecond
  · cases h

end Sample

theorem Sample.leavesTwice_true :
    @leavesTwice sha256 emptyDestination library = true := by decide +kernel

theorem not_run_lifeCycle :
    ¬ ∀ [Sha256] [EmptyDestination] [Library] (discoveryServer : Bool) (bindToAddress : IpAddress)
      (connectToAddresses : List IpAddress) (selfId : String) (s₀ : Internals),
      create discoveryServer bindToAddress connectToAddresses selfId = .ok s₀ →
      ∀ ops : List P2POp,
        (∀ p, Reported (deliveredBy p (final Internals.step s₀ ops).trace)) →
          LifeCycle s₀ ops := by
  intro h
  let _ := Sample.sha256
  let _ := Sample.emptyDestination
  let _ := Sample.library
  obtain ⟨s₀, hs₀, hreported, hnot⟩ := Sample.exists_of_leavesTwice Sample.leavesTwice_true
  exact hnot (h false Sample.bind [] Sample.own s₀ hs₀ Sample.twoConnections hreported)

/-! ## A connection that speaks once it has been registered -/

section
variable [Sha256] [EmptyDestination] [Library] {t : P2PState} {nodeid : String}

/-- The items of a node are all to be reported when they are removed. -/
def noticedItems (t : P2PState) (nodeid : String) : Bool :=
  t.programState.peers.zipIdx.all fun x => x.1.value.nodeId ≠ nodeid || t.noticeAt x.2

theorem noticeOf_of_items (h : noticedItems t nodeid = true) (hne : nodeid ≠ "") (q : PeerId)
    (hq : t.nodeOf q = nodeid) : t.noticeOf q := by
  subst hq
  obtain ⟨i, hs⟩ := Option.isSome_iff_exists.mp (P2PState.slot_of_nodeOf hne)
  cases hi : t.itemAt i with
  | none =>
    rw [P2PState.nodeOf, hs, Option.bind_some, hi] at hne
    exact absurd rfl hne
  | some item =>
    have hitem := List.all_eq_true.mp h (item, i) (List.mk_mem_zipIdx_iff_getElem?.mpr hi)
    rw [P2PState.noticeOf_of_slot hs]
    simpa [P2PState.nodeOf_of_slot hs hi] using hitem

namespace Sample

/-- `p` joins, registers and speaks for its node. -/
def oneConnection : List P2POp :=
  [deliver [.streamJoin, .ping (ping second), .other "contents"]]

/-- What the packets find: a table without `p`, one in which no item has a node, and one
in which the node of `p` is present. -/
def speaks : Bool :=
  match create false bind [] own with
  | .ok s₀ => (s₀.state.slot "p").isNone &&
    (s₀.state.holder (connection "203.0.113.2")).isNone &&
    passes (receivePacket "p" ⟨"", .none, []⟩ (.streamJoin, calls "203.0.113.2")) s₀ fun r₁ s₁ =>
      r₁.returnPackets.isEmpty && s₁.state.nodeOf "p" = "" && noticedItems s₁.state second &&
      passes (receivePacket "p" r₁ (.ping (ping second), calls "203.0.113.2")) s₁ fun r₂ s₂ =>
        r₂.peer = second && s₂.state.nodeOf "p" = second &&
        s₂.state.kbucket.contacts.any (fun c => c.nodeId = second) &&
        noticedItems s₂.state second
  | .error _ => false

theorem orderly_oneConnection (h : speaks = true) :
    ∃ s₀, create false bind [] own = .ok s₀ ∧
      Meets Internals.step StepOrderly s₀ oneConnection := by
  unfold speaks at h
  split at h
  · next s₀ hs₀ =>
    simp only [Bool.and_eq_true, Option.isNone_iff_eq_none] at h
    obtain ⟨⟨hslot, hholder⟩, htest⟩ := h
    obtain ⟨r₁, s₁, hrun₁, htest⟩ := exists_of_passes htest
    simp only [Bool.and_eq_true, List.isEmpty_iff, decide_eq_true_iff] at htest
    obtain ⟨⟨⟨hnone, hnode₁⟩, hitems₁⟩, htest⟩ := htest
    obtain ⟨r₂, s₂, hrun₂, htest⟩ := exists_of_passes htest
    simp only [Bool.and_eq_true, decide_eq_true_iff, List.any_eq_true] at htest
    obtain ⟨⟨⟨hpeer, hnode₂⟩, hcontact⟩, hitems₂⟩ := htest
    have hne : second ≠ "" := by decide
    have hjoin : Orderly "p" ⟨"", .none, []⟩ (.streamJoin, calls "203.0.113.2") s₀ := by
      refine ⟨fun hs => (nomatch hs), fun _ _ => ⟨hslot, fun q hq => ?_⟩,
        fun _ _ _ hp => (nomatch hp), fun hl => absurd rfl hl, fun ⟨_, hm, _⟩ => (nomatch hm)⟩
      have hheld : s₀.state.holder (connection "203.0.113.2") = none := hholder
      have hq' : (s₀.state.holder (connection "203.0.113.2")).bind StateItem.peer = some q := hq
      rw [hheld] at hq'
      cases hq'
    have hping : Orderly "p" r₁ (.ping (ping second), calls "203.0.113.2") s₁ := by
      refine ⟨fun hs => (nomatch hs), fun hp => (nomatch hp), fun msg status b hp _ _ =>
        ⟨fun _ _ => ⟨fun hleft => hleft.named hnode₁, fun _ q _ => ?_⟩, fun _ hs => (nomatch hs)⟩,
        fun hl => ?_, fun ⟨_, hm, _⟩ => ?_⟩
      · obtain rfl := Packet.ping.inj hp
        exact noticeOf_of_items hitems₁ hne q
      · rw [hnone] at hl
        exact absurd rfl hl
      · rw [hnone] at hm
        cases hm
    have hother : Orderly "p" r₂ (.other "contents", calls "203.0.113.2") s₂ := by
      refine ⟨fun _ _ => ?_, fun hp => (nomatch hp), fun _ _ _ hp => (nomatch hp),
        fun _ name hname => ?_, fun _ => ⟨⟨rfl, rfl, fun _ => rfl⟩, id, fun hp => (nomatch hp),
          fun _ hp => (nomatch hp)⟩⟩
      · rw [hnode₂]
        exact ⟨hcontact, fun q => noticeOf_of_items hitems₂ hne q⟩
      · cases hname with
        | speaks _ => exact hnode₂.trans hpeer.symm
        | refused hp => cases hp
        | failed hp => cases hp
        | joined hp _ _ _ => cases hp
    refine ⟨s₀, hs₀, ⟨fun _ p packets hbatch => ?_, fun _ hop => (nomatch hop)⟩, trivial⟩
    obtain ⟨rfl, rfl⟩ := Prod.mk.inj (Option.some.inj hbatch)
    refine ⟨hjoin, fun r s hrun => ?_⟩
    obtain ⟨rfl, rfl⟩ := EStateM.Result.ok.inj (hrun₁.symm.trans hrun)
    refine ⟨hping, fun r s hrun => ?_⟩
    obtain ⟨rfl, rfl⟩ := EStateM.Result.ok.inj (hrun₂.symm.trans hrun)
    exact ⟨hother, fun _ _ _ => trivial⟩
  · cases h

end Sample

end

theorem Sample.speaks_true :
    @speaks sha256 emptyDestination library = true := by decide +kernel

theorem run_lifeCycle_second :
    letI := Sample.sha256
    letI := Sample.emptyDestination
    letI := Sample.library
    ∃ s₀, create false Sample.bind [] Sample.own = .ok s₀ ∧
      LifeCycle s₀ Sample.oneConnection := by
  let _ := Sample.sha256
  let _ := Sample.emptyDestination
  let _ := Sample.library
  obtain ⟨s₀, hs₀, hm⟩ := Sample.orderly_oneConnection Sample.speaks_true
  exact ⟨s₀, hs₀, run_lifeCycle hs₀ hm⟩

end MeshPP.P2PSocket
