import MeshPP.Lib.Network
import MeshPP.P2PSocket.LifeCycle
import MeshPP.P2PSocket.Sincere

/-! # A node and its application

A station is a node with what its application has sent and what it has been
handed, in order. What is sent by name goes to a peer that was met in the place
of that name, and what is handed on was heard, once and in order. -/

set_option linter.unusedSectionVars false

namespace MeshPP.P2PSocket
open MeshPP.Lib MeshPP.Kbucket

/-! ## The station -/

/-- What the application sends, and to which node. -/
structure Post where
  target : String
  contents : String
  deriving DecidableEq, Repr

/-- What the application is handed, from which connection and under which name. -/
structure Handed where
  peer : PeerId
  label : String
  contents : String
  deriving DecidableEq, Repr

structure Station where
  node : Internals
  posted : List Post
  handed : List Handed

def AppPacket.contents : AppPacket → Option String
  | .extension contents => some contents
  | _ => none

def Packet.contents : Packet → Option String
  | .other contents => some contents
  | _ => none

/-- The packets that come from the node on the other end, and not from the socket. -/
def Packet.fromNode : Packet → Bool
  | .streamJoin | .streamDrop | .streamProtocolError _ | .socketOpenRefused _
  | .socketOpenError _ => false
  | _ => true

def P2POp.posts (op : P2POp) (out : P2POut) : List Post :=
  match op, out with
  | .send peer (.extension contents) _, .done => [⟨peer, contents⟩]
  | _, _ => []

def P2POp.hands (op : P2POp) (out : P2POut) : List Handed :=
  match op, out with
  | .receive _ _ (some (p, _)), .received label packets =>
    (packets.filterMap AppPacket.contents).map fun contents => ⟨p, label, contents⟩
  | _, _ => []

def Station.step [Sha256] [EmptyDestination] [Library] (st : Station) (op : P2POp) :
    P2POut × Station :=
  let r := st.node.step op
  (r.1, ⟨r.2, st.posted ++ op.posts r.1, st.handed ++ op.hands r.1⟩)

/-! ## What goes over a connection -/

def sentTo (p : PeerId) (trace : List SocketEvent) : List Packet :=
  trace.filterMap fun
    | .sent q packet => if q = p then some packet else none
    | .delivered _ _ => none

def heardFrom (p : PeerId) (trace : List SocketEvent) : List Packet :=
  trace.filterMap fun
    | .delivered q packet => if q = p ∧ packet.fromNode then some packet else none
    | .sent _ _ => none

/-- The packets of applications, with the peers they are sent to. -/
def otherSent (trace : List SocketEvent) : List (PeerId × String) :=
  trace.filterMap fun
    | .sent q packet => packet.contents.map fun contents => (q, contents)
    | .delivered _ _ => none

/-- What `receive` is given of `p`, unless it has a removed peer to tell of. -/
def P2POp.reads (s : Internals) (op : P2POp) (p : PeerId) : List Packet :=
  match op with
  | .receive ord _ (some (q, packets)) =>
    if q = p ∧ ord.order s.notifyRemovedPeers.keys = [] then
      (packets.map Prod.fst).filter Packet.fromNode
    else []
  | _ => []

def ports : Ports PeerId Station P2POp Packet where
  sent st p := sentTo p st.node.trace
  heard st p := heardFrom p st.node.trace
  reads st op p := op.reads st.node p

theorem mem_sentTo {p : PeerId} {trace : List SocketEvent} {packet : Packet} :
    packet ∈ sentTo p trace ↔ .sent p packet ∈ trace := by
  unfold sentTo
  rw [List.mem_filterMap]
  constructor
  · rintro ⟨event, hmem, he⟩
    cases event with
    | delivered q packet' => cases he
    | sent q packet' =>
      obtain ⟨hq, heq⟩ := Option.ite_none_right_eq_some.mp he
      rw [← hq, ← Option.some.inj heq]
      exact hmem
  · exact fun hmem => ⟨_, hmem, if_pos rfl⟩

theorem mem_heardFrom {p : PeerId} {trace : List SocketEvent} {packet : Packet} :
    packet ∈ heardFrom p trace ↔ .delivered p packet ∈ trace ∧ packet.fromNode := by
  unfold heardFrom
  rw [List.mem_filterMap]
  constructor
  · rintro ⟨event, hmem, he⟩
    cases event with
    | sent q packet' => cases he
    | delivered q packet' =>
      obtain ⟨⟨hq, hfrom⟩, heq⟩ := Option.ite_none_right_eq_some.mp he
      rw [← hq, ← Option.some.inj heq]
      exact ⟨hmem, hfrom⟩
  · exact fun ⟨hmem, hfrom⟩ => ⟨_, hmem, if_pos ⟨rfl, hfrom⟩⟩

theorem contents_sentTo (q : PeerId) (trace : List SocketEvent) :
    (sentTo q trace).filterMap Packet.contents =
      (otherSent trace).filterMap fun x => if x.1 = q then some x.2 else none := by
  unfold sentTo otherSent
  rw [List.filterMap_filterMap, List.filterMap_filterMap]
  refine List.filterMap_congr fun event _ => ?_
  cases event with
  | delivered p packet => rfl
  | sent p packet =>
    by_cases hp : p = q
    · cases packet <;> simp [hp, Packet.contents]
    · cases packet <;> simp [hp, Packet.contents]

section
variable [Sha256] [EmptyDestination] [Library] {s s' : Internals} {p : PeerId} {selfId : String}
  {r r' : Received}

/-! ## One packet -/

/-- The connection `p` has delivered these packets, and no packet of the application was sent. -/
structure Heard (p : PeerId) (s t : Internals) (packets : List Packet) : Prop where
  heard : ∀ q, heardFrom q t.trace =
    heardFrom q s.trace ++ if q = p then packets.filter Packet.fromNode else []
  others : otherSent t.trace = otherSent s.trace

theorem Heard.refl (p : PeerId) (s : Internals) : Heard p s s [] :=
  ⟨fun q => by rw [List.filter_nil, ite_self, List.append_nil], rfl⟩

theorem Heard.trans {t : Internals} {packets more : List Packet} (h : Heard p s s' packets)
    (h' : Heard p s' t more) : Heard p s t (packets ++ more) := by
  refine ⟨fun q => ?_, h'.others.trans h.others⟩
  rw [h'.heard, h.heard, List.append_assoc, List.filter_append]
  split <;> rfl

theorem heardFrom_utters {allowed : PeerId → Packet → Prop} {t : Internals}
    (hle : (utters allowed).le s t) (q : PeerId) : heardFrom q t.trace = heardFrom q s.trace := by
  obtain ⟨-, new, ht, -⟩ := hle
  unfold heardFrom
  rw [ht, List.filterMap_append, List.filterMap_map]
  exact (congrArg _ (List.filterMap_eq_nil_iff.mpr fun _ _ => rfl)).trans (List.append_nil _)

/-- What is sent in between is not heard, nor is it of the application. -/
theorem heard_of_utters {allowed : PeerId → Packet → Prop} {packets : List Packet}
    (h : Heard p s s' packets) {t : Internals} (hle : (utters allowed).le s' t)
    (ha : ∀ q packet, allowed q packet → packet.contents = none) : Heard p s t packets := by
  refine ⟨fun q => (heardFrom_utters hle q).trans (h.heard q), Eq.trans ?_ h.others⟩
  obtain ⟨-, new, ht, hnew⟩ := hle
  unfold otherSent
  rw [ht, List.filterMap_append, List.filterMap_map]
  refine (congrArg _ (List.filterMap_eq_nil_iff.mpr fun x hx => ?_)).trans (List.append_nil _)
  exact congrArg (Option.map _) (ha _ _ (hnew x hx))

theorem heard_delivered (p : PeerId) (s : Internals) (packet : Packet) :
    Heard p s (s.delivered p packet) [packet] := by
  refine ⟨fun q => ?_, ?_⟩
  · unfold heardFrom Internals.delivered
    rw [List.filterMap_append, List.filterMap_cons, List.filterMap_nil, List.filter_cons,
      List.filter_nil]
    by_cases hq : q = p
    · subst hq
      by_cases hf : packet.fromNode = true
      · simp [hf]
      · simp [hf]
    · simp [hq, Ne.symm hq]
  · unfold otherSent Internals.delivered
    rw [List.filterMap_append]
    exact List.append_nil _

theorem Replies.contents {t : P2PState} {packet answer : Packet} {q : PeerId}
    (h : Replies t p packet q answer) : answer.contents = none := by
  cases h <;> rfl

theorem heard_packet (hi : s.state.Indexed) (p : PeerId) (r : Received)
    (x : Packet × PacketCalls) :
    Leaves (receivePacket p r x) s (fun _ t => Heard p s t [x.1]) fun t => Heard p s t [x.1] := by
  have hanswers : ∀ t, (utters (Replies s.state p x.1)).le (s.delivered p x.1) t →
      Heard p s t [x.1] := fun t hle =>
    heard_of_utters (heard_delivered p s x.1) hle fun _ _ => Replies.contents
  exact (utters_receivePacket hi p r x).mono (fun _ => hanswers) hanswers

/-! ## What is handed on -/

/-- What is returned so far is under no name, or under one that the connection was met by. -/
def Labels (p : PeerId) (r : Received) (s : Internals) : Prop :=
  r.returnPackets ≠ [] → r.peer = "" ∨ r.peer = "p2p: " ++ p ∨ Met s.trace p r.peer

/-- The contents that are returned so far, each of a packet that was handled. -/
def Received.contents (r : Received) : List String := r.returnPackets.filterMap AppPacket.contents

theorem Received.contents_push (r : Received) (peer : PeerId) (packet : AppPacket) :
    (r.push peer packet).contents = r.contents ++ packet.contents.toList := by
  unfold Received.contents Received.push
  rw [List.filterMap_append]
  cases packet <;> rfl

theorem Received.contents_closing (r : Received) (nodeid : String) {packet : AppPacket}
    (h : packet.contents = none) : (r.closing nodeid packet).contents = r.contents := by
  unfold Received.closing
  split
  · rw [contents_push, h]
    exact List.append_nil _
  · rfl

/-- A packet is returned at most once, and only what an application sent is. -/
theorem Effect.contents {calls : PacketCalls} {packet : Packet}
    (h : Effect s p r calls packet (some r') s') :
    r'.contents.Sublist (r.contents ++ packet.contents.toList) := by
  have hsame : ∀ {r₁ : Received}, r₁.contents = r.contents →
      r₁.contents.Sublist (r.contents ++ packet.contents.toList) := fun h =>
    h ▸ List.sublist_append_left _ _
  cases h with
  | calm hm hcalm =>
    cases packet with
    | socketOpenRefused address => exact hsame ((r.contents_push _ _).trans (List.append_nil _))
    | socketOpenError address => exact hsame ((r.contents_push _ _).trans (List.append_nil _))
    | other contents =>
      change (r.closing (s.state.nodeOf p) (.extension contents)).contents.Sublist _
      unfold Received.closing
      split
      · rw [Received.contents_push]
        exact List.Sublist.refl _
      · exact List.sublist_append_left _ _
    | _ => exact hsame rfl
  | ignored hcalm => exact hsame rfl
  | joined hport ha hr =>
    rcases hr with hr | hr
    · obtain rfl := Option.some.inj hr
      exact hsame rfl
    · cases hr
  | errored hclose => exact hsame (r.contents_closing _ rfl)
  | dropped hclose => exact hsame (r.contents_closing _ rfl)
  | registered hacc hb hstatus hsend hturn =>
    split
    · exact hsame ((r.contents_push _ _).trans (List.append_nil _))
    · exact hsame rfl

theorem Labels.later (h : Labels p r s) (hr : r'.returnPackets = r.returnPackets ∧ r'.peer = r.peer)
    (ht : s.trace <+: s'.trace) : Labels p r' s' := by
  intro hne
  rw [hr.2]
  rw [hr.1] at hne
  exact (h hne).imp id (Or.imp id fun hp => hp.later ht)

theorem Labels.closing {nodeid : String} {packet : AppPacket}
    (hn : nodeid ≠ "" → Met s.trace p nodeid) : Labels p (r.closing nodeid packet) s := by
  intro _
  unfold Received.closing
  split
  · next hne => exact .inr (.inr (hn hne))
  · next hempty => exact .inl (not_not.mp hempty)

theorem Effect.labels {calls : PacketCalls} {packet : Packet} (ha : Acquainted s)
    (hl : Labels p r s) (h : Effect s p r calls packet (some r') s')
    (hd : .delivered p packet ∈ s.trace) : Labels p r' s' := by
  have hnode : s.trace <+: s'.trace → s.state.nodeOf p ≠ "" →
      Met s'.trace p (s.state.nodeOf p) := fun ht hne => (ha.node p hne).later ht
  cases h with
  | calm hm hcalm =>
    cases packet with
    | socketOpenRefused address => exact fun _ => .inr (.inl rfl)
    | socketOpenError address => exact fun _ => .inr (.inl rfl)
    | other contents =>
      have hclosing : Labels p (r.closing (s.state.nodeOf p) (.extension contents)) s' :=
        Labels.closing (hnode hcalm.trace)
      exact hclosing
    | _ => exact hl.later ⟨rfl, rfl⟩ hcalm.trace
  | ignored hcalm => exact hl.later ⟨rfl, rfl⟩ hcalm.trace
  | joined hport hact hr =>
    rcases hr with hr | hr
    · obtain rfl := Option.some.inj hr
      exact hl.later ⟨rfl, rfl⟩ hact.trace
    · cases hr
  | errored hclose => exact Labels.closing (hnode hclose.trace)
  | dropped hclose => exact Labels.closing (hnode hclose.trace)
  | @registered msg status b s' hacc hb hstatus hsend hturn =>
    split
    · exact fun _ => .inr (.inr ⟨msg, hturn.trace.subset hd, rfl⟩)
    · exact hl.later ⟨rfl, rfl⟩ hturn.trace

/-! ## One batch -/

/-- What `receive` has made of the packets that it has handled. -/
structure Taken (p : PeerId) (s : Internals) (packets : List Packet) (r : Received)
    (t : Internals) : Prop where
  acquainted : Acquainted t
  heard : Heard p s t packets
  contents : r.contents.Sublist (packets.filterMap Packet.contents)
  labels : Labels p r t

theorem Taken.packet {packets : List Packet} {t : Internals} (h : Taken p s packets r t)
    (x : Packet × PacketCalls) :
    Leaves (receivePacket p r x) t (fun r' t' => Taken p s (packets ++ [x.1]) r' t')
      fun t' => Heard p s t' (packets ++ [x.1]) := by
  have hacq := bears_acquainted.packet h.acquainted (p := p) (r := r) (x := x) trivial
  have heffect := receivePacket_effect h.acquainted.indexed p r x
  have hheard := heard_packet h.acquainted.indexed p r x
  have hdelivered : Acquainted (t.delivered p x.1) :=
    h.acquainted.of_eq h.acquainted.indexed (fun _ hm => .inl hm) (fun _ => .inr (.inl rfl))
      (List.prefix_append _ _)
  have hconnected := r.connected_eq x.1 x.2
  refine ((hacq.and heffect).and hheard).mono (fun r' t' hall => ?_) fun t' hall =>
    h.heard.trans hall.2
  obtain ⟨⟨hacq', heffect'⟩, hheard'⟩ := hall
  refine ⟨hacq', h.heard.trans hheard', ?_, ?_⟩
  · have hcontents : (r.connected x.1 x.2).contents = r.contents :=
      congrArg (List.filterMap _) hconnected.1
    have hone := heffect'.contents
    rw [hcontents] at hone
    rw [List.filterMap_append]
    refine hone.trans (List.Sublist.append h.contents ?_)
    cases x.1 <;> exact List.Sublist.refl _
  · exact heffect'.labels hdelivered (h.labels.later hconnected (List.prefix_append _ _))
      (by simp [Internals.delivered])

theorem taken_batch (ha : Acquainted s) (peer : PeerId) (packets : List (Packet × PacketCalls)) :
    Leaves (packets.foldlM (receivePacket p) ⟨peer, .none, []⟩) s
      (fun r t => Taken p s (packets.map Prod.fst) r t)
      fun t => ∃ done, done <+: packets.map Prod.fst ∧ Heard p s t done := by
  have hloop := leaves_foldlM (f := receivePacket p)
    (E := fun t => ∃ done, done <+: packets.map Prod.fst ∧ Heard p s t done)
    (fun rest r t => ∃ done, done ++ rest.map Prod.fst = packets.map Prod.fst ∧
      Taken p s done r t)
    (fun x rest r t ⟨done, hdone, htaken⟩ => ?_) packets ⟨peer, .none, []⟩ s
    ⟨[], rfl, ha, .refl p s, .refl _, fun hnil => absurd rfl hnil⟩
  · refine hloop.mono (fun r t ⟨done, hdone, htaken⟩ => ?_) fun _ h => h
    rw [List.map_nil, List.append_nil] at hdone
    rw [← hdone]
    exact htaken
  · have hsplit : (done ++ [x.1]) ++ rest.map Prod.fst = packets.map Prod.fst := by
      rw [← hdone, List.append_assoc]
      rfl
    exact (htaken.packet x).mono (fun r' t' h => ⟨_, hsplit, h⟩)
      fun t' h => ⟨_, ⟨_, hsplit⟩, h⟩

/-! ## Steps -/

theorem bears_trace (trace : List SocketEvent) :
    Bears (fun s => s.state.Indexed ∧ trace <+: s.trace) .none where
  indexed _ h := h.1
  calm _ _ h hc := ⟨(hc.state h.1).indexed, h.2.trans hc.trace⟩
  activates _ _ _ _ h _ hc := ⟨(hc.state h.1).indexed, h.2.trans hc.trace⟩
  clears _ _ h hc := by
    obtain ⟨keys, hclears, -⟩ := hc.state
    exact ⟨hclears.indexed, h.2.trans hc.trace⟩
  forgets _ _ h _ := h
  drops _ _ _ _ h _ _ hc := ⟨(hc.state h.1).indexed, h.2.trans hc.trace⟩
  effect s s' p r x result h _ he := by
    have ht : trace <+: (s.delivered p x.1).trace := h.2.trans (List.prefix_append _ _)
    obtain ⟨packet, calls⟩ := x
    cases he with
    | calm hm hc => exact ⟨(hc.state h.1).indexed, ht.trans hc.trace⟩
    | thrown hc => exact ⟨(hc.state h.1).indexed, ht.trans hc.trace⟩
    | ignored hc => exact ⟨(hc.state h.1).indexed, ht.trans hc.trace⟩
    | joined hport hc hr => exact ⟨(hc.state h.1).indexed, ht.trans hc.trace⟩
    | errored hc => exact ⟨(hc.state h.1).indexed, ht.trans hc.trace⟩
    | dropped hc => exact ⟨(hc.state h.1).indexed, ht.trans hc.trace⟩
    | registered hacc hb hstatus hsend hc => exact ⟨(hc.state h.1).indexed, ht.trans hc.trace⟩
    | unanswered hacc hb hsend hc => exact ⟨(hc.state h.1).indexed, ht.trans hc.trace⟩

theorem step_trace (hi : s.state.Indexed) (op : P2POp) : s.trace <+: (s.step op).2.trace :=
  ((bears_trace s.trace).step op ⟨hi, List.prefix_refl _⟩ (stepMeets_none s op)).2

/-- What goes to `p` under a name was sent by name to where `p` was met. -/
def Addressed (trace : List SocketEvent) (x : PeerId × String) (post : Post) : Prop :=
  x.2 = post.contents ∧ ∃ met, Met trace x.1 met ∧ stringDistance met = stringDistance post.target

/-- What is handed on is under no name, or under one that its connection was met by. -/
def Handed.Named (trace : List SocketEvent) (h : Handed) : Prop :=
  h.label = "" ∨ h.label = "p2p: " ++ h.peer ∨ Met trace h.peer h.label

/-- A station whose node is justified, and whose application has sent and been handed what went
over the connections. -/
structure Kept (selfId : String) (st : Station) : Prop where
  speaks : Speaks selfId st.node
  posted : List.Forall₂ (Addressed st.node.trace) (otherSent st.node.trace) st.posted
  handed : ∀ p, ((st.handed.filter fun h => h.peer = p).map Handed.contents).Sublist
    ((heardFrom p st.node.trace).filterMap Packet.contents)
  named : ∀ h ∈ st.handed, h.Named st.node.trace

theorem Addressed.later {before after : List SocketEvent} {x : PeerId × String} {post : Post}
    (h : Addressed before x post) (ht : before <+: after) : Addressed after x post :=
  ⟨h.1, h.2.imp fun _ h => ⟨h.1.later ht, h.2⟩⟩

theorem Handed.Named.later {before after : List SocketEvent} {h : Handed} (hn : h.Named before)
    (ht : before <+: after) : h.Named after :=
  Or.imp id (Or.imp id fun hm => hm.later ht) hn

/-- What an operation adds to the logs of a station. -/
structure Adds (s t : Internals) (posts : List Post) (hands : List Handed) : Prop where
  trace : s.trace <+: t.trace
  others : ∃ new, otherSent t.trace = otherSent s.trace ++ new ∧
    List.Forall₂ (Addressed t.trace) new posts
  heard : ∀ p, ∃ done, heardFrom p t.trace = heardFrom p s.trace ++ done ∧
    ((hands.filter fun h => h.peer = p).map Handed.contents).Sublist
      (done.filterMap Packet.contents)
  named : ∀ h ∈ hands, h.Named t.trace

theorem Kept.adds {st : Station} {posts : List Post} {hands : List Handed} {t : Internals}
    (h : Kept selfId st) (hs : Speaks selfId t) (ha : Adds st.node t posts hands) :
    Kept selfId ⟨t, st.posted ++ posts, st.handed ++ hands⟩ := by
  obtain ⟨new, hnew, hposts⟩ := ha.others
  refine ⟨hs, ?_, fun p => ?_, fun hand hmem => ?_⟩
  · change List.Forall₂ _ (otherSent t.trace) _
    rw [hnew]
    exact List.rel_append (h.posted.imp fun _ _ hp => hp.later ha.trace) hposts
  · obtain ⟨done, hdone, hhands⟩ := ha.heard p
    change List.Sublist _ ((heardFrom p t.trace).filterMap _)
    rw [hdone, List.filter_append, List.map_append, List.filterMap_append]
    exact (h.handed p).append hhands
  · rcases List.mem_append.mp hmem with hmem | hmem
    · exact (h.named hand hmem).later ha.trace
    · exact ha.named hand hmem

/-- Nothing of an application is sent or handed on. -/
theorem Heard.adds {t : Internals} {packets : List Packet} (h : Heard p s t packets)
    (ht : s.trace <+: t.trace) : Adds s t [] [] :=
  ⟨ht, ⟨[], by rw [h.others, List.append_nil], .nil⟩,
    fun q => ⟨_, h.heard q, List.nil_sublist _⟩, fun _ hm => (nomatch hm)⟩

theorem utters_adds {allowed : PeerId → Packet → Prop} {t : Internals}
    (hle : (utters allowed).le s t) (ha : ∀ q packet, allowed q packet → packet.contents = none) :
    Adds s t [] [] := by
  refine (heard_of_utters (.refl "" s) hle ha).adds ?_
  obtain ⟨-, new, ht, -⟩ := hle
  exact ht ▸ List.prefix_append _ _

theorem contents_fromNode (packets : List Packet) :
    (packets.filter Packet.fromNode).filterMap Packet.contents =
      packets.filterMap Packet.contents := by
  rw [List.filterMap_filter]
  refine List.filterMap_congr fun packet _ => ?_
  cases packet <;> rfl

theorem Taken.adds {packets : List Packet} {t : Internals} (h : Taken p s packets r t)
    (ht : s.trace <+: t.trace) :
    Adds s t [] (r.contents.map fun contents => ⟨p, r.peer, contents⟩) := by
  refine ⟨ht, ⟨[], by rw [h.heard.others, List.append_nil], .nil⟩,
    fun q => ⟨_, h.heard.heard q, ?_⟩, fun hand hmem => ?_⟩
  · rw [List.filter_map, List.map_map]
    by_cases hq : q = p
    · subst hq
      have hall : r.contents.filter ((fun h : Handed => decide (h.peer = q)) ∘
          fun contents => ⟨q, r.peer, contents⟩) = r.contents :=
        List.filter_eq_self.mpr fun _ _ => decide_eq_true rfl
      rw [if_pos rfl, contents_fromNode, hall]
      exact (List.map_id r.contents).symm ▸ h.contents
    · have hnone : r.contents.filter ((fun h : Handed => decide (h.peer = q)) ∘
          fun contents => ⟨p, r.peer, contents⟩) = [] :=
        List.filter_eq_nil_iff.mpr fun _ _ => by simpa using Ne.symm hq
      rw [if_neg hq, hnone]
      exact List.Sublist.refl _
  · obtain ⟨contents, hcontents, rfl⟩ := List.mem_map.mp hmem
    refine h.labels fun hnil => ?_
    unfold Received.contents at hcontents
    rw [hnil] at hcontents
    cases hcontents

/-- `receive` tells of a removed peer, or has nothing to read, or handles a batch. -/
theorem receive_run (s : Internals) (ord : IterOrder) (peer : PeerId)
    (batch : Option (PeerId × List (Packet × PacketCalls))) :
    (∃ removed t, receive ord peer batch s = .ok (removed, [.streamDrop]) t ∧
      t.trace = s.trace) ∨
    receive ord peer batch s = .error .socket s ∨
    ∃ p packets, batch = some (p, packets) ∧ ord.order s.notifyRemovedPeers.keys = [] ∧
      receive ord peer batch s = (packets.foldlM (receivePacket p) ⟨peer, .none, []⟩ >>=
        fun r => pure (r.peer, r.returnPackets)) s := by
  unfold receive
  rw [get_bind_run]
  cases hkeys : ord.order s.notifyRemovedPeers.keys with
  | cons removed rest => exact .inl ⟨removed, _, rfl, rfl⟩
  | nil =>
    cases batch with
    | none => exact .inr (.inl rfl)
    | some b => exact .inr (.inr ⟨b.1, b.2, rfl, rfl, rfl⟩)

theorem adds_receive (ha : Acquainted s) (ord : IterOrder) (peer : PeerId)
    (batch : Option (PeerId × List (Packet × PacketCalls))) :
    Adds s (s.step (.receive ord peer batch)).2 []
      (P2POp.hands (.receive ord peer batch) (s.step (.receive ord peer batch)).1) := by
  have ht := step_trace ha.indexed (.receive ord peer batch)
  unfold Internals.step at ht ⊢
  dsimp only at ht ⊢
  rcases receive_run s ord peer batch with ⟨removed, t, hrun, htrace⟩ | hrun | ⟨p, packets, rfl, -, hrun⟩
  · rw [hrun] at ht ⊢
    have hheard : Heard "" s t [] := by
      refine ⟨fun q => ?_, by rw [otherSent, htrace]; rfl⟩
      rw [List.filter_nil, ite_self, List.append_nil, heardFrom, htrace]
      rfl
    have hnone : P2POp.hands (.receive ord peer batch) (.received removed [.streamDrop]) = [] := by
      unfold P2POp.hands
      split
      · next h => cases h; rfl
      · rfl
    change Adds s t [] (P2POp.hands (.receive ord peer batch) (.received removed [.streamDrop]))
    rw [hnone]
    exact hheard.adds ht
  · rw [hrun]
    have hnone : P2POp.hands (.receive ord peer batch) (.thrown .socket) = [] := by
      unfold P2POp.hands
      split
      · next h => cases h
      · rfl
    change Adds s s [] (P2POp.hands (.receive ord peer batch) (.thrown .socket))
    rw [hnone]
    exact (Heard.refl "" s).adds (List.prefix_refl _)
  · rw [hrun] at ht ⊢
    have hbatch := taken_batch (p := p) ha peer packets
    cases hfold : packets.foldlM (receivePacket p) ⟨peer, .none, []⟩ s with
    | ok r t =>
      rw [bind_run_ok hfold] at ht ⊢
      exact (hbatch.of_ok hfold).adds ht
    | error e t =>
      rw [bind_run_error hfold] at ht ⊢
      obtain ⟨done, -, hheard⟩ := hbatch.of_error hfold
      exact hheard.adds ht

theorem adds_send (ha : Acquainted s) (peer : String) (pack : SendPacket) (returns : Bool) :
    Adds s (s.step (.send peer pack returns)).2
      (P2POp.posts (.send peer pack returns) (s.step (.send peer pack returns)).1) [] := by
  have hnone : Adds s s [] [] := (Heard.refl "" s).adds (List.prefix_refl _)
  unfold Internals.step
  dsimp only
  cases hp : s.state.getPeerId peer with
  | none =>
    have hrun : send peer pack returns s =
        .error (.runtimeError ("send() no such node: " ++ peer)) s := by
      unfold send
      rw [get_bind_run, hp]
      rfl
    rw [hrun]
    cases pack <;> exact hnone
  | some p =>
    cases pack with
    | streamDrop =>
      have hle := outcome_le (fun _ => .done) (utters_send (s := s) peer .streamDrop returns)
      refine utters_adds hle fun q packet hq => ?_
      obtain ⟨-, contents, hpack, -⟩ := hq
      cases hpack
    | extension contents =>
      cases returns with
      | false =>
        have hrun : send peer (.extension contents) false s = .error .socket s := by
          unfold send
          rw [get_bind_run, hp]
          rfl
        rw [hrun]
        exact hnone
      | true =>
        have hrun : send peer (.extension contents) true s =
            .ok () { s with trace := s.trace ++ [.sent p (.other contents)] } := by
          unfold send
          rw [get_bind_run, hp]
          rfl
        rw [hrun]
        obtain ⟨met, hmet, hplace⟩ := ha.met_of_getPeerId hp
        have ht : s.trace <+: s.trace ++ [.sent p (.other contents)] := List.prefix_append _ _
        refine ⟨ht, ⟨[(p, contents)], ?_, .cons ⟨rfl, met, hmet.later ht, hplace⟩ .nil⟩,
          fun q => ⟨[], ?_, .refl _⟩, fun _ hm => nomatch hm⟩
        · exact List.filterMap_append
        · exact List.filterMap_append

theorem step_adds (ha : Acquainted s) (op : P2POp) :
    Adds s (s.step op).2 (op.posts (s.step op).1) (op.hands (s.step op).1) := by
  cases op with
  | receive ord peer batch => exact adds_receive ha ord peer batch
  | prepareWait calls =>
    exact utters_adds (outcome_le _ (utters_prepareWait calls)) fun q packet hq => hq ▸ rfl
  | send peer pack returns => exact adds_send ha peer pack returns
  | timerAction calls =>
    refine utters_adds (outcome_le _ (utters_timerAction calls)) fun q packet hq => ?_
    obtain ⟨stamp, connection, rfl⟩ := hq
    rfl

theorem Kept.step {st : Station} (h : Kept selfId st) (op : P2POp) :
    Kept selfId (st.step op).2 :=
  h.adds (h.speaks.step op) (step_adds h.speaks.acquainted op)

theorem heard_receive (ha : Acquainted s) (ord : IterOrder) (peer : PeerId)
    (batch : Option (PeerId × List (Packet × PacketCalls))) (p : PeerId) :
    ∃ done, done <+: P2POp.reads s (.receive ord peer batch) p ∧
      heardFrom p (s.step (.receive ord peer batch)).2.trace = heardFrom p s.trace ++ done := by
  have hnone : ∀ t : Internals, t.trace = s.trace →
      ∃ done, done <+: P2POp.reads s (.receive ord peer batch) p ∧
        heardFrom p t.trace = heardFrom p s.trace ++ done := fun t ht =>
    ⟨[], List.nil_prefix, by rw [ht, List.append_nil]⟩
  unfold Internals.step
  dsimp only
  rcases receive_run s ord peer batch with ⟨removed, t, hrun, htrace⟩ | hrun |
    ⟨q, packets, rfl, hkeys, hrun⟩
  · rw [hrun]
    exact hnone t htrace
  · rw [hrun]
    exact hnone s rfl
  · have hdone : ∀ (t : Internals) (done : List Packet), done <+: packets.map Prod.fst →
        Heard q s t done → ∃ done, done <+: P2POp.reads s (.receive ord peer (some (q, packets))) p ∧
          heardFrom p t.trace = heardFrom p s.trace ++ done := by
      intro t done hpre hheard
      refine ⟨_, ?_, hheard.heard p⟩
      change _ <+: if q = p ∧ ord.order s.notifyRemovedPeers.keys = [] then
        (packets.map Prod.fst).filter Packet.fromNode else []
      by_cases hq : q = p
      · rw [if_pos hq.symm, if_pos ⟨hq, hkeys⟩]
        exact hpre.filter _
      · rw [if_neg (Ne.symm hq), if_neg fun h => hq h.1]
    have hbatch := taken_batch (p := q) ha peer packets
    rw [hrun]
    cases hfold : packets.foldlM (receivePacket q) ⟨peer, .none, []⟩ s with
    | ok r t =>
      rw [bind_run_ok hfold]
      exact hdone t _ (List.prefix_refl _) (hbatch.of_ok hfold).heard
    | error e t =>
      rw [bind_run_error hfold]
      obtain ⟨done, hpre, hheard⟩ := hbatch.of_error hfold
      exact hdone t done hpre hheard

/-- A step of a station forgets nothing and hears the first part of what it reads. -/
theorem station_logs {st : Station} (ha : Acquainted st.node) (op : P2POp) :
    ports.Logs Station.step st op := by
  refine ⟨fun p => (step_trace ha.indexed op).filterMap _, fun p => ?_⟩
  have hquiet : ∀ {allowed : PeerId → Packet → Prop} {t : Internals},
      (utters allowed).le st.node t → heardFrom p t.trace = heardFrom p st.node.trace ++ [] :=
    fun hle => (heardFrom_utters hle p).trans (List.append_nil _).symm
  cases op with
  | receive ord peer batch => exact heard_receive ha ord peer batch p
  | prepareWait calls =>
    exact ⟨[], List.nil_prefix, hquiet (outcome_le _ (utters_prepareWait calls))⟩
  | send peer pack returns =>
    exact ⟨[], List.nil_prefix, hquiet (outcome_le _ (utters_send peer pack returns))⟩
  | timerAction calls =>
    exact ⟨[], List.nil_prefix, hquiet (outcome_le _ (utters_timerAction calls))⟩

end

end MeshPP.P2PSocket
