import MeshPP.P2PSocket.Identity
import MeshPP.P2PSocket.Speech

/-! # What justifies a packet

In every run of a node, each packet that it sends is justified by what it was
given before: a list of nodes by a `Ping` of each of them, a request for a node
by a list that names it, an introduction by a request, and what the application
sends by a `Ping` of the peer it goes to. -/

set_option linter.unusedSectionVars false

namespace MeshPP.P2PSocket
open MeshPP.Lib MeshPP.Kbucket

section
variable [Sha256] [EmptyDestination] [Library] {s s' : Internals} {p : PeerId}
  {selfId nodeid : String} {before after : List SocketEvent}

/-! ## Acquaintances -/

/-- The connection `p` has delivered a `Ping` that names the node. -/
def Met (trace : List SocketEvent) (p : PeerId) (nodeid : String) : Prop :=
  ∃ msg : Ping, .delivered p (.ping msg) ∈ trace ∧ msg.nodeid = nodeid

theorem Met.later (h : Met before p nodeid) (ht : before <+: after) : Met after p nodeid := by
  obtain ⟨msg, hm, hn⟩ := h
  exact ⟨msg, ht.subset hm, hn⟩

/-- The contacts and the nodes of the items were met where they are said to be. -/
structure Acquainted (s : Internals) : Prop where
  indexed : s.state.Indexed
  contact : ∀ c ∈ s.state.kbucket.contacts, Met s.trace c.peer c.nodeId
  node : ∀ p, s.state.nodeOf p ≠ "" → Met s.trace p (s.state.nodeOf p)

theorem Acquainted.of_eq (h : Acquainted s) (hi : s'.state.Indexed)
    (hk : ∀ c ∈ s'.state.kbucket.contacts, c ∈ s.state.kbucket.contacts ∨
      Met s'.trace c.peer c.nodeId)
    (hn : ∀ q, s'.state.nodeOf q = "" ∨ s'.state.nodeOf q = s.state.nodeOf q ∨
      Met s'.trace q (s'.state.nodeOf q))
    (ht : s.trace <+: s'.trace) : Acquainted s' := by
  refine ⟨hi, fun c hc => ?_, fun q hq => ?_⟩
  · rcases hk c hc with hc | hmet
    · exact (h.contact c hc).later ht
    · exact hmet
  · rcases hn q with hempty | heq | hmet
    · exact absurd hempty hq
    · rw [heq] at hq ⊢
      exact (h.node q hq).later ht
    · exact hmet

theorem Acquainted.calm (h : Acquainted s) (hc : Calm s s') : Acquainted s' := by
  have hsame := hc.state h.indexed
  exact h.of_eq hsame.indexed (fun c hm => .inl (hsame.kbucket ▸ hm))
    (fun q => .inr (.inl (hsame.nodeOf h.indexed q))) hc.trace

theorem Acquainted.closes (h : Acquainted s) (hc : Turn (P2PState.Closes · · p) s s') :
    Acquainted s' := by
  have hclose := hc.state h.indexed
  exact h.of_eq hclose.indexed (fun c hm => .inl (hclose.kbucket ▸ hm))
    (fun q => .inr (.inl (hclose.nodeOf q))) hc.trace

theorem Acquainted.activates {addr : IpAddress} (h : Acquainted s)
    (hc : Turn (P2PState.Activates · · addr p) s s') : Acquainted s' := by
  have hact := hc.state h.indexed
  refine h.of_eq hact.indexed (fun c hm => .inl (hact.kbucket ▸ hm)) (fun q => ?_) hc.trace
  rw [hact.nodeOf]
  split
  · exact .inl rfl
  · exact .inr (.inl rfl)

theorem Acquainted.clears (h : Acquainted s) (hc : Clearing s s') : Acquainted s' := by
  obtain ⟨keys, hclears, -⟩ := hc.state
  refine h.of_eq hclears.indexed (fun c hm => ?_) (fun q => ?_) hc.trace
  · rw [hclears.kbucket] at hm
    exact .inl (mem_of_mem_eraseContacts hm)
  · rw [hclears.nodeOf]
    split
    · exact .inl rfl
    · exact .inr (.inl rfl)

theorem bears_acquainted : Bears Acquainted .none where
  indexed _ h := h.indexed
  calm _ _ h hc := h.calm hc
  activates _ _ _ _ h _ ha := h.activates ha
  clears _ _ h hc := h.clears hc
  forgets s nodeid h _ := ⟨h.indexed, h.contact, h.node⟩
  drops _ _ _ _ h _ _ hc := h.closes hc
  effect s s' p r x result h _ he := by
    have ht : s.trace <+: (s.delivered p x.1).trace := List.prefix_append _ _
    have h₀ : Acquainted (s.delivered p x.1) :=
      h.of_eq h.indexed (fun _ hm => .inl hm) (fun _ => .inr (.inl rfl)) ht
    obtain ⟨packet, calls⟩ := x
    cases he with
    | calm hm hcalm => exact h₀.calm hcalm
    | thrown hcalm => exact h₀.calm hcalm
    | ignored hcalm => exact h₀.calm hcalm
    | joined hport ha hr => exact h₀.activates ha
    | errored hclose => exact h₀.closes hclose
    | dropped hclose => exact h₀.closes hclose
    | @registered msg status b s' hacc hb hstatus hsend hturn =>
      have hadopt := hturn.state h.indexed
      have hmet : Met s'.trace p msg.nodeid :=
        ⟨msg, hturn.trace.subset (by simp [Internals.delivered]), rfl⟩
      refine h₀.of_eq hadopt.indexed (fun c hc => ?_) (fun q => ?_) hturn.trace
      · rw [hadopt.kbucket] at hc
        rcases Added.mem_contacts hb hc with hc | ⟨-, rfl⟩
        · exact .inl hc
        · exact .inr hmet
      · rw [hadopt.nodeOf]
        split
        · next hq => exact .inr (.inr (hq.1 ▸ hmet))
        · exact .inr (.inl rfl)
    | @unanswered msg status b s' hacc hb hsend hturn =>
      have hsame := hturn.state h.indexed
      have hmet : Met s'.trace p msg.nodeid :=
        ⟨msg, hturn.trace.subset (by simp [Internals.delivered]), rfl⟩
      refine h₀.of_eq hsame.indexed (fun c hc => ?_) (fun q => ?_) hturn.trace
      · rw [hsame.kbucket] at hc
        rcases Added.mem_contacts hb hc with hc | ⟨-, rfl⟩
        · exact .inl hc
        · exact .inr hmet
      · exact .inr (.inl (hsame.nodeOf h.indexed q))

theorem acquainted_create {discoveryServer : Bool} {bindToAddress : IpAddress}
    {connectToAddresses : List IpAddress}
    (h : create discoveryServer bindToAddress connectToAddresses selfId = .ok s) :
    Acquainted s := by
  obtain ⟨hsame, -, -⟩ := create_same h
  refine ⟨hsame.indexed, fun c hc => ?_, fun q hq => ?_⟩
  · rw [hsame.kbucket] at hc
    cases hc
  · rw [hsame.nodeOf (indexed_init selfId)] at hq
    exact absurd rfl hq

/-! ## Justified packets -/

/-- What was delivered justifies sending the packet to `p`. A node is known in the bucket by its
place, the digest of its id. -/
def Sincere (selfId : String) (before : List SocketEvent) (p : PeerId) : Packet → Prop
  | .ping msg =>
    msg.nodeid = selfId ∧ (msg.signature = "" ∨ .delivered p .streamJoin ∈ before ∧
      msg.signature = Library.sign (stampedMessage selfId msg.stamp))
  | .pong msg =>
    msg.nodeid = selfId ∧ (∃ ping, .delivered p (.ping ping) ∈ before) ∧
      (msg.signature = "" ∨ msg.signature = Library.sign (stampedMessage selfId msg.stamp))
  | .findNode nodeid => nodeid = selfId ∧ ∃ pong, .delivered p (.pong pong) ∈ before
  | .nodeDetails origin nodeids =>
    origin = selfId ∧ (∃ nodeid, .delivered p (.findNode nodeid) ∈ before) ∧
      ∀ nodeid ∈ nodeids, ∃ q, Met before q nodeid
  | .introduceTo nodeid =>
    nodeid ≠ selfId ∧ ∃ origin nodeids, .delivered p (.nodeDetails origin nodeids) ∈ before ∧
      nodeid ∈ nodeids
  | .openConnectionWith _ =>
    ∃ asker nodeid met, .delivered asker (.introduceTo nodeid) ∈ before ∧
      stringDistance met = stringDistance nodeid ∧
      (p = asker ∧ (∃ q, Met before q met) ∨ Met before p met)
  | .other _ => ∃ met, Met before p met
  | .streamDrop => True
  | _ => False

theorem Sincere.later {packet : Packet} (h : Sincere selfId before p packet)
    (ht : before <+: after) : Sincere selfId after p packet := by
  cases packet with
  | ping msg => exact ⟨h.1, h.2.imp id fun hs => ⟨ht.subset hs.1, hs.2⟩⟩
  | pong msg =>
    obtain ⟨hn, ⟨ping, hm⟩, hs⟩ := h
    exact ⟨hn, ⟨ping, ht.subset hm⟩, hs⟩
  | findNode nodeid =>
    obtain ⟨hn, pong, hm⟩ := h
    exact ⟨hn, pong, ht.subset hm⟩
  | nodeDetails origin nodeids =>
    obtain ⟨hn, ⟨name, hm⟩, hmet⟩ := h
    exact ⟨hn, ⟨name, ht.subset hm⟩, fun nodeid hin => (hmet nodeid hin).imp fun _ h => h.later ht⟩
  | introduceTo nodeid =>
    obtain ⟨hn, origin, nodeids, hm, hin⟩ := h
    exact ⟨hn, origin, nodeids, ht.subset hm, hin⟩
  | openConnectionWith addr =>
    obtain ⟨asker, nodeid, met, hm, hplace, hcase⟩ := h
    refine ⟨asker, nodeid, met, ht.subset hm, hplace, ?_⟩
    exact hcase.imp (fun h => ⟨h.1, h.2.imp fun _ h => h.later ht⟩) fun h => h.later ht
  | other contents => exact h.imp fun _ h => h.later ht
  | streamDrop => trivial
  | _ => exact h

/-- Every packet that was sent is justified by what came before it. -/
def Justified (selfId : String) (trace : List SocketEvent) : Prop :=
  ∀ before p packet after, trace = before ++ .sent p packet :: after →
    Sincere selfId before p packet

theorem justified_nil : Justified selfId [] := by
  intro before p packet after h
  cases before <;> cases h

theorem Justified.concat {event : SocketEvent} (h : Justified selfId before)
    (he : ∀ p packet, event = .sent p packet → Sincere selfId before p packet) :
    Justified selfId (before ++ [event]) := by
  intro b p packet after heq
  rcases after.eq_nil_or_concat with rfl | ⟨after', last, rfl⟩
  · obtain ⟨rfl, hlast⟩ := List.append_inj' heq rfl
    exact he p packet (List.cons.inj hlast).1
  · rw [List.concat_eq_append, ← List.cons_append, ← List.append_assoc] at heq
    exact h b p packet after' (List.append_inj' heq rfl).1

theorem Justified.sent {new : List (PeerId × Packet)} (h : Justified selfId before)
    (hnew : ∀ x ∈ new, Sincere selfId before x.1 x.2) :
    Justified selfId (before ++ new.map fun x => .sent x.1 x.2) := by
  induction new generalizing before with
  | nil => simpa using h
  | cons x rest ih =>
    have hx : Justified selfId (before ++ [.sent x.1 x.2]) := h.concat fun p packet he => by
      obtain ⟨rfl, rfl⟩ := SocketEvent.sent.inj he
      exact hnew x List.mem_cons_self
    have hrest := ih hx fun y hy =>
      (hnew y (List.mem_cons_of_mem _ hy)).later (List.prefix_append _ _)
    rwa [List.map_cons, ← List.singleton_append, ← List.append_assoc]

theorem Acquainted.met_of_getPeerId (h : Acquainted s) (hp : s.state.getPeerId nodeid = some p) :
    ∃ met, Met s.trace p met ∧ stringDistance met = stringDistance nodeid := by
  obtain ⟨c, hc, rfl⟩ := Option.map_eq_some_iff.mp hp
  obtain ⟨hmem, hplace⟩ := KBucket.find_some hc
  exact ⟨c.nodeId, h.contact c hmem, hplace⟩

theorem Replies.sincere (h : Acquainted s) {packet answer : Packet} {q : PeerId}
    (hr : Replies s.state p packet q answer) :
    Sincere s.state.selfId (s.delivered p packet).trace q answer := by
  have ht : s.trace <+: (s.delivered p packet).trace := List.prefix_append _ _
  have hd : .delivered p packet ∈ (s.delivered p packet).trace := by simp [Internals.delivered]
  cases hr with
  | ping stamp connection => exact ⟨rfl, .inr ⟨hd, rfl⟩⟩
  | pong msg stamp signature hs => exact ⟨rfl, ⟨msg, hd⟩, hs⟩
  | findNode msg => exact ⟨rfl, msg, hd⟩
  | nodeDetails nodeid =>
    refine ⟨rfl, ⟨nodeid, hd⟩, fun name hname => ?_⟩
    obtain ⟨c, hc, rfl⟩ := List.mem_map.mp hname
    exact ⟨c.peer, (h.contact c hc).later ht⟩
  | introduceTo hin hself hpeer => exact ⟨hself, _, _, hd, hin⟩
  | openConnectionWith addr hq =>
    obtain ⟨met, hmet, hplace⟩ := h.met_of_getPeerId hq
    exact ⟨_, _, met, hd, hplace, .inl ⟨rfl, _, hmet.later ht⟩⟩
  | introduced addr hq =>
    obtain ⟨met, hmet, hplace⟩ := h.met_of_getPeerId hq
    exact ⟨_, _, met, hd, hplace, .inr (hmet.later ht)⟩

/-! ## Runs -/

/-- A node under its own id that is justified in all it has said. -/
structure Speaks (selfId : String) (s : Internals) : Prop where
  acquainted : Acquainted s
  name : s.state.selfId = selfId
  justified : Justified selfId s.trace

theorem Speaks.utters {allowed : PeerId → Packet → Prop} (h : Speaks selfId s)
    (ha : Acquainted s') (hle : (utters allowed).le s s')
    (hs : ∀ q packet, allowed q packet → Sincere selfId s.trace q packet) : Speaks selfId s' := by
  obtain ⟨hid, new, ht, hnew⟩ := hle
  refine ⟨ha, hid.trans h.name, ?_⟩
  rw [ht]
  exact h.justified.sent fun x hx => hs _ _ (hnew x hx)

theorem Speaks.delivered (h : Speaks selfId s) (p : PeerId) (packet : Packet) :
    Speaks selfId (s.delivered p packet) := by
  have ht : s.trace <+: (s.delivered p packet).trace := List.prefix_append _ _
  refine ⟨?_, h.name, h.justified.concat fun _ _ he => by cases he⟩
  exact h.acquainted.of_eq h.acquainted.indexed (fun _ hm => .inl hm)
    (fun _ => .inr (.inl rfl)) ht

theorem Speaks.packet (h : Speaks selfId s) (p : PeerId) (r : Received)
    (x : Packet × PacketCalls) :
    Leaves (receivePacket p r x) s (fun _ => Speaks selfId) (Speaks selfId) := by
  have hacq := bears_acquainted.packet h.acquainted (p := p) (r := r) (x := x) trivial
  have huttered := utters_receivePacket h.acquainted.indexed p r x
  have hall : ∀ s', Acquainted s' →
      (P2PSocket.utters (Replies s.state p x.1)).le (s.delivered p x.1) s' → Speaks selfId s' :=
    fun s' ha hle => (h.delivered p x.1).utters ha hle fun q answer hr =>
      h.name ▸ hr.sincere h.acquainted
  exact (hacq.and huttered).mono (fun _ s' h => hall s' h.1 h.2) fun s' h => hall s' h.1 h.2

theorem outcome_le {α : Type} {F : Frame Internals} {m : SocketM α} {Q : α → Internals → Prop}
    (out : α → P2POut) (h : Ends F m s Q) : F.le s (outcome out (m s)).2 :=
  outcome_of_leaves out h.leaves fun _ _ h => h.1

theorem Speaks.step (h : Speaks selfId s) (op : P2POp) : Speaks selfId (s.step op).2 := by
  have hacq := bears_acquainted.step op h.acquainted (stepMeets_none s op)
  cases op with
  | receive ord peer batch =>
    refine outcome_of_leaves _ (Q := fun _ => Speaks selfId) ?_ fun _ _ h => h
    unfold P2PSocket.receive
    refine Leaves.get_bind ?_
    cases hkeys : ord.order s.notifyRemovedPeers.keys with
    | cons removed rest =>
      exact leaves_ok rfl ⟨⟨h.acquainted.indexed, h.acquainted.contact, h.acquainted.node⟩,
        h.name, h.justified⟩
    | nil =>
      cases batch with
      | none => exact leaves_error rfl h
      | some b =>
        refine (leaves_foldlM_meets (C := fun _ _ _ => True) (fun _ => Speaks selfId)
          (fun x r t _ ht => ht.packet b.1 r x) b.2 ⟨peer, .none, []⟩ s
          (foldMeets_of_forall (fun _ _ _ => trivial) _ _ _) h).bind fun r s' _ h => leaves_pure h
  | prepareWait calls =>
    refine h.utters hacq (outcome_le _ (utters_prepareWait calls)) fun q packet hp => ?_
    rw [hp]
    trivial
  | send peer pack returns =>
    refine h.utters hacq (outcome_le _ (utters_send peer pack returns)) ?_
    intro q packet ⟨hq, contents, _, hp⟩
    rw [hp]
    exact (h.acquainted.met_of_getPeerId hq).imp fun _ h => h.1
  | timerAction calls =>
    refine h.utters hacq (outcome_le _ (utters_timerAction calls)) ?_
    intro q packet ⟨stamp, connection, hp⟩
    rw [hp, h.name]
    exact ⟨rfl, .inl rfl⟩

theorem speaks_create {discoveryServer : Bool} {bindToAddress : IpAddress}
    {connectToAddresses : List IpAddress}
    (h : create discoveryServer bindToAddress connectToAddresses selfId = .ok s) :
    Speaks selfId s := by
  obtain ⟨hsame, -, htrace⟩ := create_same h
  exact ⟨acquainted_create h, hsame.selfId, htrace ▸ justified_nil⟩

theorem Speaks.final (h : Speaks selfId s) (ops : List P2POp) :
    Speaks selfId (final Internals.step s ops) :=
  invariant_final (C := fun _ _ => True) (fun _ op h _ => h.step op) h
    (meets_of_forall (fun _ _ => trivial) s ops)

/-- **In every run, a node sends only what the packets before it justify.** -/
theorem run_justified {discoveryServer : Bool} {bindToAddress : IpAddress}
    {connectToAddresses : List IpAddress} {s₀ : Internals}
    (hcreate : create discoveryServer bindToAddress connectToAddresses selfId = .ok s₀)
    (ops : List P2POp) : Justified selfId (final Internals.step s₀ ops).trace :=
  ((speaks_create hcreate).final ops).justified

end

/-- A peer that pings and then asks for nodes. -/
theorem run_justified_second :
    letI := Sample.sha256
    letI := Sample.emptyDestination
    letI := Sample.library
    ∃ s₀, create false Sample.bind [] Sample.own = .ok s₀ ∧
      Justified Sample.own (final Internals.step s₀
        [Sample.deliver [.streamJoin, .ping (Sample.ping Sample.second),
          .findNode Sample.second]]).trace := by
  let _ := Sample.sha256
  let _ := Sample.emptyDestination
  let _ := Sample.library
  obtain ⟨s₀, hs₀, -⟩ := Sample.exists_of_impersonated Sample.impersonated_true
  exact ⟨s₀, hs₀, run_justified hs₀ _⟩

end MeshPP.P2PSocket
