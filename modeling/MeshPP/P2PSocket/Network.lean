import MeshPP.P2PSocket.Station

/-! # A network of nodes

Nodes take their steps in any order, over links that carry what is sent. Nobody
has to be trusted then: a contact is the node on the other end, no id is made
up, a node is only introduced to nodes that the introducer is linked to, and an
application is handed what was sent to it by name, in order and once. -/

set_option linter.unusedSectionVars false

namespace MeshPP.P2PSocket
open MeshPP.Lib MeshPP.Kbucket

/-- What a node is called, and the keys that it holds. -/
structure Site where
  selfId : String
  library : Library

/-- The node ids that a packet tells of. -/
def Packet.names : Packet → List String
  | .ping msg => [msg.nodeid]
  | .pong msg => [msg.nodeid]
  | .findNode nodeid => [nodeid]
  | .nodeDetails origin nodeids => origin :: nodeids
  | .introduceTo nodeid => [nodeid]
  | _ => []

def SocketEvent.packet : SocketEvent → Packet
  | .sent _ packet => packet
  | .delivered _ packet => packet

/-! ## Lists that go together -/

theorem exists_of_forall₂ {α β : Type} {R : α → β → Prop} {l : List α} {l' : List β}
    (h : List.Forall₂ R l l') {a : α} (ha : a ∈ l) : ∃ b ∈ l', R a b := by
  induction h with
  | nil => cases ha
  | @cons a' b rest rest' hr hrest ih =>
    rcases List.mem_cons.mp ha with rfl | ha
    · exact ⟨b, List.mem_cons_self, hr⟩
    · obtain ⟨b', hb', hr'⟩ := ih ha
      exact ⟨b', List.mem_cons_of_mem _ hb', hr'⟩

theorem sublist_of_forall₂ {α β γ : Type} {R : α → β → Prop} {f : α → Option γ}
    {g : β → Option γ} (hfg : ∀ a b c, R a b → f a = some c → g b = some c) {l : List α}
    {l' : List β} (h : List.Forall₂ R l l') : (l.filterMap f).Sublist (l'.filterMap g) := by
  induction h with
  | nil => exact .refl _
  | @cons a b rest rest' hr hrest ih =>
    cases hf : f a with
    | none =>
      rw [List.filterMap_cons_none hf]
      exact ih.trans ((List.sublist_cons_self b rest').filterMap g)
    | some c =>
      rw [List.filterMap_cons_some hf, List.filterMap_cons_some (hfg a b c hr hf)]
      exact ih.cons_cons c

/-! ## Networks -/

section
variable [Sha256] [EmptyDestination] {N : Type} (sites : N → Site) (links : Links N PeerId)
  (w : N → Station)

/-- One node takes a step, with its own keys. -/
def networkStep [DecidableEq N] : (N → Station) → N × P2POp → P2POut × (N → Station) :=
  netStep fun n => @Station.step _ _ (sites n).library

/-- Every node has just been created, under its own id. -/
def Created : Prop :=
  ∀ n, (w n).posted = [] ∧ (w n).handed = [] ∧
    ∃ discoveryServer bindToAddress connectToAddresses,
      create discoveryServer bindToAddress connectToAddresses (sites n).selfId = .ok (w n).node

/-- A node whose station is kept, with its own keys. -/
def KeptAt (n : N) (st : Station) : Prop := @Kept _ _ (sites n).library (sites n).selfId st

variable {sites links w} {n m : N} {p q : PeerId} {nodeid : String} {ops : List (N × P2POp)}

theorem Created.kept (h : Created sites w) (n : N) : KeptAt sites n (w n) := by
  let _ := (sites n).library
  obtain ⟨hposted, hhanded, discoveryServer, bindToAddress, connectToAddresses, hcreate⟩ := h n
  obtain ⟨-, -, htrace⟩ := create_same hcreate
  refine ⟨speaks_create hcreate, ?_, fun p => ?_, ?_⟩
  · rw [htrace, hposted]
    exact .nil
  · rw [hhanded]
    exact List.nil_sublist _
  · rw [hhanded]
    exact fun _ hm => nomatch hm

theorem Created.trace (h : Created sites w) (n : N) : (w n).node.trace = [] := by
  let _ := (sites n).library
  obtain ⟨-, -, _, _, _, hcreate⟩ := h n
  exact (create_same hcreate).2.2

theorem Created.heard (h : Created sites w) (n : N) (p : PeerId) : ports.heard (w n) p = [] :=
  congrArg (heardFrom p) (h.trace n)

theorem Created.carried (h : Created sites w) : ports.Carried links w := by
  intro n p packet hheard
  rw [h.heard] at hheard
  cases hheard

theorem Created.ordered (h : Created sites w) : ports.Ordered links w := by
  intro n p m q _
  rw [h.heard]
  exact List.nil_sublist _

theorem KeptAt.step {st : Station} (h : KeptAt sites n st) (op : P2POp) :
    KeptAt sites n (@Station.step _ _ (sites n).library st op).2 :=
  @Kept.step _ _ (sites n).library _ _ h op

theorem KeptAt.logs {st : Station} (h : KeptAt sites n st) (op : P2POp) :
    ports.Logs (@Station.step _ _ (sites n).library) st op :=
  let _ := (sites n).library
  station_logs (Speaks.acquainted (Kept.speaks h)) op

/-! ## Over links that carry what is sent -/

/-- All stations are kept, and all that was heard was sent. -/
structure Sound (sites : N → Site) (links : Links N PeerId) (w : N → Station) : Prop where
  kept : ∀ n, KeptAt sites n (w n)
  carried : ports.Carried links w

theorem Created.sound_final [DecidableEq N] (h : Created sites w)
    (hm : Meets (networkStep sites) (ports.Carries links) w ops) :
    Sound sites links (final (networkStep sites) w ops) := by
  obtain ⟨hkept, hcarried⟩ := Ports.carried_final (I := KeptAt sites)
    (fun _ _ op hk => KeptAt.step hk op) (fun _ _ op hk => KeptAt.logs hk op) h.kept h.carried hm
  exact ⟨hkept, hcarried⟩

theorem Created.ordered_final [DecidableEq N] (h : Created sites w)
    (hm : Meets (networkStep sites) (ports.Orders links) w ops) :
    Sound sites links (final (networkStep sites) w ops) ∧
      ports.Ordered links (final (networkStep sites) w ops) := by
  obtain ⟨hkept, hcarried, hordered⟩ := Ports.ordered_final (I := KeptAt sites)
    (fun _ _ op hk => KeptAt.step hk op) (fun _ _ op hk => KeptAt.logs hk op) h.kept h.carried
    h.ordered hm
  exact ⟨⟨hkept, hcarried⟩, hordered⟩

theorem KeptAt.sincere {st : Station} {packet : Packet} (h : KeptAt sites n st)
    (hs : .sent p packet ∈ st.node.trace) :
    ∃ before, before <+: st.node.trace ∧
      @Sincere _ (sites n).library (sites n).selfId before p packet := by
  let _ := (sites n).library
  obtain ⟨before, after, htrace⟩ := List.append_of_mem hs
  exact ⟨before, htrace ▸ List.prefix_append _ _, h.speaks.justified before p packet after htrace⟩

/-- A `Ping` tells of the node that has sent it. -/
theorem KeptAt.ping {st : Station} {msg : Ping} (h : KeptAt sites n st)
    (hs : .sent p (.ping msg) ∈ st.node.trace) : msg.nodeid = (sites n).selfId := by
  obtain ⟨before, -, hsincere⟩ := h.sincere hs
  exact hsincere.1

theorem Sound.sent {packet : Packet} (h : Sound sites links w)
    (hd : .delivered p packet ∈ (w n).node.trace) (hf : packet.fromNode) :
    ∃ m q, links.other n p = some (m, q) ∧ .sent q packet ∈ (w m).node.trace := by
  obtain ⟨m, q, hlink, hs⟩ := h.carried n p packet (mem_heardFrom.mpr ⟨hd, hf⟩)
  exact ⟨m, q, hlink, mem_sentTo.mp hs⟩

/-- Who was met over a link is the node on the other end. -/
theorem Sound.met (h : Sound sites links w) (hmet : Met (w n).node.trace p nodeid) :
    ∃ m q, links.other n p = some (m, q) ∧ nodeid = (sites m).selfId := by
  obtain ⟨msg, hd, rfl⟩ := hmet
  obtain ⟨m, q, hlink, hs⟩ := h.sent hd rfl
  exact ⟨m, q, hlink, (h.kept m).ping hs⟩

/-- A node asks only for nodes that the one it asks is linked to. -/
theorem Sound.introduceTo (h : Sound sites links w)
    (hs : .sent p (.introduceTo nodeid) ∈ (w n).node.trace) :
    nodeid ≠ (sites n).selfId ∧ ∃ m q k r, links.other n p = some (m, q) ∧
      links.other m r = some k ∧ nodeid = (sites k.1).selfId := by
  obtain ⟨before, hbefore, hself, origin, nodeids, hd, hin⟩ := (h.kept n).sincere hs
  obtain ⟨m, q, hlink, hs⟩ := h.sent (hbefore.subset hd) rfl
  obtain ⟨earlier, hearlier, -, -, hmet⟩ := (h.kept m).sincere hs
  obtain ⟨r, msg, hd, hmsg⟩ := hmet nodeid hin
  obtain ⟨k, r', hlink', hname⟩ := h.met ⟨msg, hearlier.subset hd, hmsg⟩
  exact ⟨hself, m, q, (k, r'), r, hlink, hlink', hname⟩

theorem Sound.names {packet : Packet} (h : Sound sites links w)
    (hs : .sent p packet ∈ (w n).node.trace) (hname : nodeid ∈ packet.names) :
    ∃ m, nodeid = (sites m).selfId := by
  obtain ⟨before, hbefore, hsincere⟩ := (h.kept n).sincere hs
  cases packet with
  | ping msg => exact ⟨n, (List.mem_singleton.mp hname).trans hsincere.1⟩
  | pong msg => exact ⟨n, (List.mem_singleton.mp hname).trans hsincere.1⟩
  | findNode name => exact ⟨n, (List.mem_singleton.mp hname).trans hsincere.1⟩
  | nodeDetails origin nodeids =>
    obtain ⟨rfl, -, hmet⟩ := hsincere
    rcases List.mem_cons.mp hname with rfl | hin
    · exact ⟨n, rfl⟩
    · obtain ⟨q, msg, hd, hmsg⟩ := hmet nodeid hin
      obtain ⟨m, -, -, rfl⟩ := h.met ⟨msg, hbefore.subset hd, hmsg⟩
      exact ⟨m, rfl⟩
  | introduceTo name =>
    obtain ⟨-, -, -, k, -, -, -, rfl⟩ := h.introduceTo hs
    exact ⟨k.1, List.mem_singleton.mp hname⟩
  | _ => cases hname

/-- Both ends of an introduction are linked to the node that makes it. -/
theorem Sound.openConnectionWith {addr : IpAddress} (h : Sound sites links w)
    (hs : .sent p (.openConnectionWith addr) ∈ (w n).node.trace) :
    ∃ asker m q, links.other n asker = some (m, q) ∧ ∃ r k, links.other n r = some k ∧
      .sent q (.introduceTo (sites k.1).selfId) ∈ (w m).node.trace ∧
      (p = asker ∨ ∃ j, links.other n p = some j ∧
        stringDistance (sites j.1).selfId = stringDistance (sites k.1).selfId) := by
  obtain ⟨before, hbefore, asker, name, met, hd, hplace, hcase⟩ := (h.kept n).sincere hs
  obtain ⟨m, q, hlink, hasks⟩ := h.sent (hbefore.subset hd) rfl
  obtain ⟨-, n', p', k, r, hback, hlink', rfl⟩ := h.introduceTo hasks
  obtain ⟨rfl, rfl⟩ : n = n' ∧ asker = p' :=
    Prod.mk.inj (Option.some.inj ((links.symm hlink).symm.trans hback))
  refine ⟨asker, m, q, hlink, r, k, hlink', hasks, hcase.imp And.left fun ⟨msg, hd, hmsg⟩ => ?_⟩
  obtain ⟨j, p', hlink'', rfl⟩ := h.met ⟨msg, hbefore.subset hd, hmsg⟩
  exact ⟨(j, p'), hlink'', hplace⟩

/-! ## What applications send each other -/

/-- What is handed on was heard. -/
theorem KeptAt.heard {st : Station} {hand : Handed} (h : KeptAt sites n st)
    (hmem : hand ∈ st.handed) :
    ∃ packet, packet.contents = some hand.contents ∧
      packet ∈ heardFrom hand.peer st.node.trace := by
  let _ := (sites n).library
  have hin : hand.contents ∈ (heardFrom hand.peer st.node.trace).filterMap Packet.contents :=
    (Kept.handed h hand.peer).subset
      (List.mem_map_of_mem (List.mem_filter.mpr ⟨hmem, decide_eq_true rfl⟩))
  obtain ⟨packet, hpacket, hcontents⟩ := List.mem_filterMap.mp hin
  exact ⟨packet, hcontents, hpacket⟩

/-- What goes over a connection was sent by the application. -/
theorem KeptAt.posted {st : Station} {packet : Packet} {contents : String} (h : KeptAt sites n st)
    (hs : packet ∈ sentTo p st.node.trace) (hc : packet.contents = some contents) :
    ∃ post ∈ st.posted, Addressed st.node.trace (p, contents) post := by
  let _ := (sites n).library
  have hothers : (p, contents) ∈ otherSent st.node.trace :=
    List.mem_filterMap.mpr ⟨_, mem_sentTo.mp hs, congrArg (Option.map _) hc⟩
  exact exists_of_forall₂ (Kept.posted h) hothers

/-- What is handed on of a connection is some of what it has delivered, in this order. -/
theorem KeptAt.handed {st : Station} (h : KeptAt sites n st) (p : PeerId) :
    ((st.handed.filter fun hand => hand.peer = p).map Handed.contents).Sublist
      ((heardFrom p st.node.trace).filterMap Packet.contents) :=
  @Kept.handed _ _ (sites n).library _ _ h p

/-- What goes to a link under a name was sent to the place of the node on the other end. -/
theorem Sound.addressed {contents : String} {post : Post} (h : Sound sites links w)
    (hlink : links.other m q = some (n, p))
    (ha : Addressed (w m).node.trace (q, contents) post) :
    contents = post.contents ∧
      stringDistance post.target = stringDistance (sites n).selfId := by
  obtain ⟨hcontents, met, hmet, hplace⟩ := ha
  obtain ⟨n', p', hlink', rfl⟩ := h.met hmet
  obtain ⟨rfl, rfl⟩ : n = n' ∧ p = p' := Prod.mk.inj (Option.some.inj (hlink.symm.trans hlink'))
  exact ⟨hcontents, hplace.symm⟩

end

section
variable [Sha256] [EmptyDestination]

/-! ## Networks that are evaluated -/

namespace Sample

section
variable {N : Type} [DecidableEq N] (sites : N → Site) (links : Links N PeerId)

def start (site : Site) : Station :=
  match create false bind [] site.selfId with
  | .ok s => ⟨s, [], []⟩
  | .error _ => ⟨⟨false, .init "", [], .none, ∅, []⟩, [], []⟩

def created (site : Site) : Bool :=
  match create false bind [] site.selfId with
  | .ok _ => true
  | .error _ => false

/-- A new connection has joined; of the others, all is read that was not read before. -/
def reading (w : N → Station) (n : N) (p : PeerId) : List Packet :=
  if .delivered p .streamJoin ∈ (w n).node.trace then
    match links.other n p with
    | some (m, q) => (sentTo q (w m).node.trace).drop (heardFrom p (w n).node.trace).length
    | none => []
  else [.streamJoin]

def reads (n : N) (p : PeerId) (packets : List Packet) : N × P2POp :=
  (n, .receive .stored "" (some (p, packets.map fun packet =>
    (packet, calls (if p = "left" then "203.0.113.2" else "203.0.113.3")))))

def relay (w : N → Station) : List (N × PeerId) → List (N × P2POp)
  | [] => []
  | (n, p) :: rest =>
    let op := reads n p (reading links w n p)
    op :: relay (networkStep sites w op).2 rest

def orders (w : N → Station) : N × P2POp → Bool
  | (n, .receive _ _ (some (p, packets))) =>
    match links.other n p with
    | some (m, q) => (heardFrom p (w n).node.trace ++
        (packets.map Prod.fst).filter Packet.fromNode).isSublist (sentTo q (w m).node.trace)
    | none => false
  | _ => true

def allOrder (w : N → Station) : List (N × P2POp) → Bool
  | [] => true
  | op :: ops => orders links w op && allOrder (networkStep sites w op).2 ops

variable {sites links}

theorem created_start (h : ∀ n, created (sites n) = true) :
    Created sites fun n => start (sites n) := by
  intro n
  have hn := h n
  unfold created at hn
  split at hn
  · next s hs =>
    have hstart : start (sites n) = ⟨s, [], []⟩ := by
      unfold start
      rw [hs]
    dsimp only
    rw [hstart]
    exact ⟨rfl, rfl, false, bind, [], hs⟩
  · cases hn

theorem ports_orders {w : N → Station} {op : N × P2POp} (h : orders links w op = true) :
    ports.Orders links w op := by
  obtain ⟨n, op⟩ := op
  intro p hp
  cases op with
  | receive ord peer batch =>
    cases batch with
    | none => exact absurd rfl hp
    | some b =>
      obtain ⟨q, packets⟩ := b
      have hread : ports.reads (w n) (.receive ord peer (some (q, packets))) p =
          if q = p ∧ ord.order (w n).node.notifyRemovedPeers.keys = [] then
            (packets.map Prod.fst).filter Packet.fromNode else [] := rfl
      rw [hread] at hp ⊢
      obtain ⟨rfl, hkeys⟩ : q = p ∧ ord.order (w n).node.notifyRemovedPeers.keys = [] :=
        Classical.byContradiction fun hne => hp (if_neg hne)
      rw [if_pos ⟨rfl, hkeys⟩]
      unfold orders at h
      dsimp only at h
      split at h
      · next m q' hlink => exact ⟨m, q', hlink, List.isSublist_iff_sublist.mp h⟩
      · cases h
  | prepareWait calls => exact absurd rfl hp
  | send peer pack returns => exact absurd rfl hp
  | timerAction calls => exact absurd rfl hp

theorem meets_allOrder {w : N → Station} {ops : List (N × P2POp)}
    (h : allOrder sites links w ops = true) :
    Meets (networkStep sites) (ports.Orders links) w ops := by
  induction ops generalizing w with
  | nil => trivial
  | cons op ops ih =>
    obtain ⟨hop, hops⟩ := Bool.and_eq_true_iff.mp h
    exact ⟨ports_orders hop, ih hops⟩

end

/-- Two nodes that are both linked to a third one. -/
inductive Place | hub | left | right
  deriving DecidableEq

abbrev Place.site : Place → Site
  | .hub => ⟨own, library⟩
  | .left => ⟨second, { library with sign := fun _ => signature second }⟩
  | .right => ⟨third, { library with sign := fun _ => signature third }⟩

def Place.links : Links Place PeerId where
  other
    | .hub, p =>
      if p = "left" then some (.left, "hub")
      else if p = "right" then some (.right, "hub") else none
    | .left, p => if p = "hub" then some (.hub, "left") else none
    | .right, p => if p = "hub" then some (.hub, "right") else none
  symm {n p m q} h := by cases n <;> grind

abbrev Place.start (n : Place) : Station := Sample.start n.site

/-- The nodes on the left and on the right meet the one in between, which introduces the one on
the right to the one on the left. Then the left one sends it something. -/
def conversation : List (Place × P2POp) :=
  relay Place.site Place.links Place.start [(.hub, "left"), (.left, "hub"), (.hub, "right"),
    (.right, "hub"), (.left, "hub"), (.hub, "left"), (.right, "hub"), (.hub, "right"),
    (.left, "hub"), (.hub, "left"), (.left, "hub"), (.hub, "left"), (.left, "hub")] ++
  [(.left, .send own (.extension "contents") true), reads .hub "left" [.other "contents"]]

/-- The conversation is one over links that keep the order, and the contents get across. -/
def conversed : Bool :=
  created Place.hub.site && created Place.left.site && created Place.right.site &&
    allOrder Place.site Place.links Place.start conversation &&
    (final (networkStep Place.site) Place.start conversation .hub).handed.map Handed.contents =
      ["contents"]

theorem created_of_conversed (h : conversed = true) : Created Place.site Place.start := by
  unfold conversed at h
  simp only [Bool.and_eq_true] at h
  obtain ⟨⟨⟨⟨hhub, hleft⟩, hright⟩, -⟩, -⟩ := h
  exact created_start fun n => by
    cases n with
    | hub => exact hhub
    | left => exact hleft
    | right => exact hright

theorem orders_of_conversed (h : conversed = true) :
    Meets (networkStep Place.site) (ports.Orders Place.links) Place.start conversation := by
  unfold conversed at h
  rw [Bool.and_eq_true, Bool.and_eq_true] at h
  exact meets_allOrder h.1.2

theorem carries_of_conversed (h : conversed = true) :
    Meets (networkStep Place.site) (ports.Carries Place.links) Place.start conversation :=
  (orders_of_conversed h).mono fun _ _ h => h.carries

end Sample

end

theorem Sample.conversed_true : @conversed sha256 emptyDestination = true := by decide +kernel

section
variable [Sha256] [EmptyDestination] {N : Type} [DecidableEq N] {sites : N → Site}
  {links : Links N PeerId} {w : N → Station} {n m : N} {p q : PeerId} {ops : List (N × P2POp)}

/-! ## Runs of a network -/

/-- Contacts and items tell of the node on the other end of their connection. -/
structure Identified (sites : N → Site) (links : Links N PeerId) (w : N → Station) : Prop where
  contact : ∀ n, ∀ c ∈ (w n).node.state.kbucket.contacts,
    ∃ m q, links.other n c.peer = some (m, q) ∧ c.nodeId = (sites m).selfId
  node : ∀ n p, (w n).node.state.nodeOf p ≠ "" →
    ∃ m q, links.other n p = some (m, q) ∧ (w n).node.state.nodeOf p = (sites m).selfId

/-- **In every run of a network, each node knows who is on the other end of its connections.** -/
theorem network_identified (h : Created sites w)
    (hm : Meets (networkStep sites) (ports.Carries links) w ops) :
    Identified sites links (final (networkStep sites) w ops) := by
  have hsound := h.sound_final hm
  refine ⟨fun n c hc => ?_, fun n p hp => ?_⟩
  · let _ := (sites n).library
    exact hsound.met ((hsound.kept n).speaks.acquainted.contact c hc)
  · let _ := (sites n).library
    exact hsound.met ((hsound.kept n).speaks.acquainted.node p hp)

/-- Each id that a packet tells of is the id of a node. -/
def Known (sites : N → Site) (w : N → Station) : Prop :=
  ∀ n, ∀ event ∈ (w n).node.trace, ∀ nodeid ∈ event.packet.names, ∃ m, nodeid = (sites m).selfId

/-- **In every run of a network, no node id is made up.** -/
theorem network_known (h : Created sites w)
    (hm : Meets (networkStep sites) (ports.Carries links) w ops) :
    Known sites (final (networkStep sites) w ops) := by
  have hsound := h.sound_final hm
  intro n event hevent nodeid hname
  cases event with
  | sent p packet => exact hsound.names hevent hname
  | delivered p packet =>
    have hf : packet.fromNode := by
      cases packet with
      | streamJoin | streamDrop | streamProtocolError | socketOpenRefused | socketOpenError =>
        cases hname
      | _ => rfl
    obtain ⟨m, q, -, hsent⟩ := hsound.sent hevent hf
    exact hsound.names hsent hname

/-- What nodes ask of each other to be introduced, and what comes of it. -/
structure Introduced (sites : N → Site) (links : Links N PeerId) (w : N → Station) : Prop where
  /-- a node asks for a third node, to which the one that it asks is linked -/
  asked : ∀ n p nodeid, .sent p (.introduceTo nodeid) ∈ (w n).node.trace →
    nodeid ≠ (sites n).selfId ∧ ∃ m q k r, links.other n p = some (m, q) ∧
      links.other m r = some k ∧ nodeid = (sites k.1).selfId
  /-- a node introduces the one that has asked and the one that it has asked for -/
  opened : ∀ n p addr, .sent p (.openConnectionWith addr) ∈ (w n).node.trace →
    ∃ asker m q, links.other n asker = some (m, q) ∧ ∃ r k, links.other n r = some k ∧
      .sent q (.introduceTo (sites k.1).selfId) ∈ (w m).node.trace ∧
      (p = asker ∨ ∃ j, links.other n p = some j ∧
        stringDistance (sites j.1).selfId = stringDistance (sites k.1).selfId)

/-- **In every run of a network, nodes are introduced over a node that both are linked to.** -/
theorem network_introduced (h : Created sites w)
    (hm : Meets (networkStep sites) (ports.Carries links) w ops) :
    Introduced sites links (final (networkStep sites) w ops) :=
  have hsound := h.sound_final hm
  ⟨fun _ _ _ => hsound.introduceTo, fun _ _ _ => hsound.openConnectionWith⟩

/-- What an application is handed was sent to its node by the application on the other end. -/
def Genuine (sites : N → Site) (links : Links N PeerId) (w : N → Station) : Prop :=
  ∀ n, ∀ hand ∈ (w n).handed, ∃ m q post, links.other n hand.peer = some (m, q) ∧
    post ∈ (w m).posted ∧ post.contents = hand.contents ∧
    stringDistance post.target = stringDistance (sites n).selfId ∧
    (hand.label = "" ∨ hand.label = "p2p: " ++ hand.peer ∨ hand.label = (sites m).selfId)

/-- **In every run of a network, an application is handed only what was sent to it by name.** -/
theorem network_genuine (h : Created sites w)
    (hm : Meets (networkStep sites) (ports.Carries links) w ops) :
    Genuine sites links (final (networkStep sites) w ops) := by
  have hsound := h.sound_final hm
  intro n hand hmem
  obtain ⟨packet, hcontents, hheard⟩ := (hsound.kept n).heard hmem
  obtain ⟨m, q, hlink, hsent⟩ := hsound.carried n hand.peer packet hheard
  obtain ⟨post, hpost, haddressed⟩ := (hsound.kept m).posted hsent hcontents
  obtain ⟨heq, hplace⟩ := hsound.addressed (links.symm hlink) haddressed
  refine ⟨m, q, post, hlink, hpost, heq.symm, hplace, ?_⟩
  let _ := (sites n).library
  refine (Kept.named (hsound.kept n) hand hmem).imp id (Or.imp id fun hmet => ?_)
  obtain ⟨m', q', hlink', hname⟩ := hsound.met hmet
  rw [hname, (Prod.mk.inj (Option.some.inj (hlink.symm.trans hlink'))).1]

/-- **In every run of a network over links that keep the order, an application is handed what was
sent to it in this order, and no more than once.** -/
theorem network_inOrder (h : Created sites w)
    (hm : Meets (networkStep sites) (ports.Orders links) w ops)
    (hlink : links.other n p = some (m, q)) :
    (((final (networkStep sites) w ops n).handed.filter fun hand => hand.peer = p).map
      Handed.contents).Sublist
      ((final (networkStep sites) w ops m).posted.filterMap fun post =>
        if stringDistance post.target = stringDistance (sites n).selfId then some post.contents
        else none) := by
  obtain ⟨hsound, hordered⟩ := h.ordered_final hm
  refine ((hsound.kept n).handed p).trans (((hordered n p m q hlink).filterMap _).trans ?_)
  change List.Sublist ((sentTo q _).filterMap _) _
  rw [contents_sentTo]
  let _ := (sites m).library
  refine sublist_of_forall₂ (fun x post contents haddressed hx => ?_)
    (Kept.posted (hsound.kept m))
  obtain ⟨rfl, hcontents⟩ := Option.ite_none_right_eq_some.mp hx
  obtain ⟨heq, hplace⟩ := hsound.addressed (links.symm hlink) haddressed
  rw [if_pos hplace, ← heq, hcontents]

end

theorem network_identified_conversation :
    letI := Sample.sha256
    letI := Sample.emptyDestination
    Identified Sample.Place.site Sample.Place.links
      (final (networkStep Sample.Place.site) Sample.Place.start Sample.conversation) := by
  let _ := Sample.sha256
  let _ := Sample.emptyDestination
  have h := Sample.conversed_true
  exact network_identified (Sample.created_of_conversed h)
    (Sample.carries_of_conversed h)

theorem network_known_conversation :
    letI := Sample.sha256
    letI := Sample.emptyDestination
    Known Sample.Place.site
      (final (networkStep Sample.Place.site) Sample.Place.start Sample.conversation) := by
  let _ := Sample.sha256
  let _ := Sample.emptyDestination
  have h := Sample.conversed_true
  exact network_known (Sample.created_of_conversed h) (Sample.carries_of_conversed h)

theorem network_introduced_conversation :
    letI := Sample.sha256
    letI := Sample.emptyDestination
    Introduced Sample.Place.site Sample.Place.links
      (final (networkStep Sample.Place.site) Sample.Place.start Sample.conversation) := by
  let _ := Sample.sha256
  let _ := Sample.emptyDestination
  have h := Sample.conversed_true
  exact network_introduced (Sample.created_of_conversed h)
    (Sample.carries_of_conversed h)

theorem network_genuine_conversation :
    letI := Sample.sha256
    letI := Sample.emptyDestination
    Genuine Sample.Place.site Sample.Place.links
      (final (networkStep Sample.Place.site) Sample.Place.start Sample.conversation) := by
  let _ := Sample.sha256
  let _ := Sample.emptyDestination
  have h := Sample.conversed_true
  exact network_genuine (Sample.created_of_conversed h) (Sample.carries_of_conversed h)

theorem network_inOrder_conversation :
    letI := Sample.sha256
    letI := Sample.emptyDestination
    (((final (networkStep Sample.Place.site) Sample.Place.start Sample.conversation
        .hub).handed.filter fun hand => hand.peer = "left").map Handed.contents).Sublist
      ((final (networkStep Sample.Place.site) Sample.Place.start Sample.conversation
          .left).posted.filterMap fun post =>
        if stringDistance post.target = stringDistance (Sample.Place.site .hub).selfId then
          some post.contents
        else none) := by
  let _ := Sample.sha256
  let _ := Sample.emptyDestination
  have h := Sample.conversed_true
  have hlink : Sample.Place.links.other .hub "left" = some (.left, "hub") := rfl
  exact network_inOrder (Sample.created_of_conversed h) (Sample.orders_of_conversed h) hlink

end MeshPP.P2PSocket
