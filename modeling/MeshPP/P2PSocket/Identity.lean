import MeshPP.P2PSocket.Registration

/-! # The nodes that a connection has proved to be

A peer proves a node with a signed `Ping`. What is remembered of it is that the
peer is verified, not the node it proved, and an unsigned `Ping` is taken from a
verified peer whatever node it names. Here the proofs themselves are noted beside
the node. As long as the unsigned packets name nodes that their connections have
proved, so is every contact that the bucket gains, and every label. -/

set_option linter.unusedSectionVars false

namespace MeshPP.P2PSocket
open MeshPP.Lib MeshPP.Kbucket

section
variable [Sha256] [EmptyDestination] [Library] {s s' : Internals} {p : PeerId}

/-! ## The proofs of the connections -/

/-- A node, and beside it what its connections have proved since they joined. -/
structure Audit where
  node : Internals
  proofs : List (PeerId × String)

/-- What a packet of `p` adds to the proofs. With a join they begin anew. -/
def note (p : PeerId) (x : Packet × PacketCalls) (proofs : List (PeerId × String)) :
    List (PeerId × String) :=
  match x.1 with
  | .streamJoin => proofs.filter fun proof => proof.1 ≠ p
  | .ping msg => if msg.Verified x.2 then (p, msg.nodeid) :: proofs else proofs
  | _ => proofs

def Audit.receivePacket (p : PeerId) (r : Received) (x : Packet × PacketCalls) :
    EStateM P2PError Audit Received := do
  modify fun a => { a with proofs := note p x a.proofs }
  zoom Audit.node (fun s a => { a with node := s }) (P2PSocket.receivePacket p r x)

/-- The batch that an operation handles, with the peer it is of and the caller's variable. -/
def handled (s : Internals) : P2POp → Option (PeerId × PeerId × List (Packet × PacketCalls))
  | .receive ord peer (some (p, packets)) =>
    if ord.order s.notifyRemovedPeers.keys = [] then some (peer, p, packets) else none
  | _ => none

/-- The proofs behind an operation. -/
def Audit.proofsBehind (a : Audit) (op : P2POp) : List (PeerId × String) :=
  match handled a.node op with
  | some (peer, p, packets) =>
    match packets.foldlM (Audit.receivePacket p) ⟨peer, .none, []⟩ a with
    | .ok _ a' => a'.proofs
    | .error _ a' => a'.proofs
  | none => a.proofs

def Audit.step (a : Audit) (op : P2POp) : P2POut × Audit :=
  ((a.node.step op).1, ⟨(a.node.step op).2, a.proofsBehind op⟩)

theorem mem_note {x : Packet × PacketCalls} (hx : x.1 ≠ .streamJoin)
    {proofs : List (PeerId × String)} {proof : PeerId × String} (h : proof ∈ proofs) :
    proof ∈ note p x proofs := by
  unfold note
  split
  · next hjoin => exact absurd hjoin hx
  · split
    · exact List.mem_cons_of_mem _ h
    · exact h
  · exact h

theorem mem_note_join {calls : PacketCalls} {proofs : List (PeerId × String)} {q : PeerId}
    {nodeid : String} (hq : q ≠ p) (h : (q, nodeid) ∈ proofs) :
    (q, nodeid) ∈ note p (.streamJoin, calls) proofs :=
  List.mem_filter.mpr ⟨h, decide_eq_true hq⟩

theorem mem_note_ping {msg : Ping} {calls : PacketCalls} {proofs : List (PeerId × String)}
    (h : msg.Verified calls) : (p, msg.nodeid) ∈ note p (.ping msg, calls) proofs := by
  unfold note
  dsimp only
  rw [if_pos h]
  exact List.mem_cons_self

theorem partOf_receivePacket (p : PeerId) (r : Received) (x : Packet × PacketCalls) (a : Audit) :
    partOf Audit.node (Audit.receivePacket p r x a) = P2PSocket.receivePacket p r x a.node := by
  unfold Audit.receivePacket
  rw [modify_bind_run]
  unfold zoom
  dsimp only
  cases P2PSocket.receivePacket p r x a.node with
  | ok r' s' => rfl
  | error e s' => rfl

theorem step_handled {op : P2POp} {peer : PeerId} {packets : List (Packet × PacketCalls)}
    (h : handled s op = some (peer, p, packets)) :
    s.step op = outcome (fun r => .received r.peer r.returnPackets)
      (packets.foldlM (receivePacket p) ⟨peer, .none, []⟩ s) := by
  unfold handled at h
  split at h
  · next ord peer' p' packets' =>
    split at h
    · next hkeys =>
      obtain ⟨rfl, hbatch⟩ := Prod.mk.inj (Option.some.inj h)
      obtain ⟨rfl, rfl⟩ := Prod.mk.inj hbatch
      have hrun : receive ord peer' (some (p', packets')) s =
          (packets'.foldlM (receivePacket p') ⟨peer', .none, []⟩ >>=
            fun r => pure (r.peer, r.returnPackets)) s := by
        unfold receive
        rw [get_bind_run, hkeys]
        rfl
      unfold Internals.step
      dsimp only
      rw [hrun]
      cases hpackets : packets'.foldlM (receivePacket p') ⟨peer', .none, []⟩ s with
      | ok r s' => rw [bind_run_ok hpackets]; rfl
      | error e s' => rw [bind_run_error hpackets]; rfl
    · cases h
  · cases h

/-- The proofs are only noted: what an operation returns or throws, and the node that it leaves,
do not depend on them. -/
theorem Audit.step_ok {a a' : Audit} {op : P2POp} {peer : PeerId} {r : Received}
    {packets : List (Packet × PacketCalls)} (h : handled a.node op = some (peer, p, packets))
    (hrun : packets.foldlM (Audit.receivePacket p) ⟨peer, .none, []⟩ a = .ok r a') :
    a.step op = (.received r.peer r.returnPackets, a') := by
  have hpart := partOf_foldlM (partOf_receivePacket p) packets ⟨peer, .none, []⟩ a
  unfold Audit.step Audit.proofsBehind
  rw [P2PSocket.step_handled h, ← hpart, h]
  dsimp only
  rw [hrun]
  rfl

theorem Audit.step_error {a a' : Audit} {op : P2POp} {peer : PeerId} {e : P2PError}
    {packets : List (Packet × PacketCalls)} (h : handled a.node op = some (peer, p, packets))
    (hrun : packets.foldlM (Audit.receivePacket p) ⟨peer, .none, []⟩ a = .error e a') :
    a.step op = (.thrown e, a') := by
  have hpart := partOf_foldlM (partOf_receivePacket p) packets ⟨peer, .none, []⟩ a
  unfold Audit.step Audit.proofsBehind
  rw [P2PSocket.step_handled h, ← hpart, h]
  dsimp only
  rw [hrun]
  rfl

/-! ## What is asked of the packets, and what they keep -/

/-- An unsigned `Ping` is accepted under a node that its connection has not proved, and it makes
a contact of it or labels the connection with it. -/
def Impersonates (p : PeerId) (r : Received) (x : Packet × PacketCalls) (a : Audit) : Prop :=
  ∃ msg, x.1 = .ping msg ∧ msg.signature = "" ∧ (p, msg.nodeid) ∉ a.proofs ∧
    Accepted (a.node.delivered p x.1) p msg x.2 (r.connected x.1 x.2) ∧
    ∃ status b, P2PState.Added a.node.state.kbucket ⟨msg.nodeid, p⟩ status b ∧
      (status = .newContact ∨
        status = .existingContact ∧ x.2.send 0 = true ∧ (a.node.state.slot p).isSome)

/-- A connection that joins again is refused while its item names a node. -/
def Rejoins (p : PeerId) (r : Received) (x : Packet × PacketCalls) (a : Audit) : Prop :=
  x.1 = .streamJoin ∧ a.node.state.nodeOf p ≠ "" ∧
    ¬ ((r.connected x.1 x.2).OnPort a.node.state ∧ a.node.state.PeerFound)

/-- No one impersonates another node. -/
def HonestAt (a : Audit) (op : P2POp) : Prop :=
  ∀ peer p packets, handled a.node op = some (peer, p, packets) →
    FoldMeets (fun r x a => ¬ Impersonates p r x a ∧ ¬ Rejoins p r x a) (Audit.receivePacket p)
      packets ⟨peer, .none, []⟩ a

/-- Each contact that the bucket gains is bound to a connection that has proved to be the node. -/
def GainsProved (s : Internals) (a' : Audit) : Prop :=
  ∀ c ∈ a'.node.state.kbucket.contacts,
    c ∈ s.state.kbucket.contacts ∨ (c.peer, c.nodeId) ∈ a'.proofs

/-- The label is no node, or one that `p` has proved to be. -/
def LabelProved (p : PeerId) (label : String) (proofs : List (PeerId × String)) : Prop :=
  label = "" ∨ label = "p2p: " ++ p ∨ (p, label) ∈ proofs

/-- What is to be returned is as before, or it has a label that is proved. -/
def Hands (p : PeerId) (proofs : List (PeerId × String)) (r r' : Received) : Prop :=
  r'.peer = r.peer ∧ r'.returnPackets = r.returnPackets ∨ LabelProved p r'.peer proofs

/-- What a packet of `p` adds is proved: the contacts, also when it throws, and the label under
which more is to be returned. -/
def ProvesPacket (p : PeerId) (r : Received) (x : Packet × PacketCalls) (a : Audit) : Prop :=
  Leaves (Audit.receivePacket p r x) a
    (fun r' a' => GainsProved a.node a' ∧ Hands p a'.proofs r r') (GainsProved a.node)

/-- What an operation adds is proved: the contacts, packet by packet, and the label of what
`receive` returns by the time the last of it is collected. -/
structure ProvesAt (a : Audit) (op : P2POp) : Prop where
  packets : ∀ peer p packets, handled a.node op = some (peer, p, packets) →
    FoldMeets (ProvesPacket p) (Audit.receivePacket p) packets ⟨peer, .none, []⟩ a
  idle : handled a.node op = none → ∀ c ∈ (a.step op).2.node.state.kbucket.contacts,
    c ∈ a.node.state.kbucket.contacts
  labels : ∀ peer p packets, handled a.node op = some (peer, p, packets) →
    ∀ label returned, (a.step op).1 = .received label returned → returned ≠ [] →
    ∃ done rest r a', packets = done ++ rest ∧
      done.foldlM (Audit.receivePacket p) ⟨peer, .none, []⟩ a = .ok r a' ∧
      r.peer = label ∧ r.returnPackets = returned ∧ LabelProved p label a'.proofs

/-- The nodes of the items are proved. -/
structure Attested (a : Audit) : Prop where
  indexed : a.node.state.Indexed
  node : ∀ q, a.node.state.nodeOf q ≠ "" → (q, a.node.state.nodeOf q) ∈ a.proofs

/-! ## One packet -/

section
variable {a : Audit} {proofs : List (PeerId × String)} {r : Received} {calls : PacketCalls}

theorem Attested.of_eq (h : Attested a) (hi : s'.state.Indexed)
    (hn : ∀ q, s'.state.nodeOf q = "" ∨ s'.state.nodeOf q = a.node.state.nodeOf q)
    (hp : ∀ q, s'.state.nodeOf q ≠ "" → ∀ nodeid, (q, nodeid) ∈ a.proofs → (q, nodeid) ∈ proofs) :
    Attested ⟨s', proofs⟩ := by
  refine ⟨hi, fun q hq => hp q hq _ ?_⟩
  have hsame : s'.state.nodeOf q = a.node.state.nodeOf q := (hn q).resolve_left hq
  have hproof := h.node q (hsame ▸ hq)
  rwa [← hsame] at hproof

theorem gainsProved_of_eq (hk : s'.state.kbucket = s.state.kbucket) : GainsProved s ⟨s', proofs⟩ :=
  fun _ hc => .inl (hk ▸ hc)

/-- A join takes the node from the item of the peer. -/
theorem Attested.joins (h : Attested a) (hr : ¬ Rejoins p r (.streamJoin, calls) a) :
    Leaves (P2PSocket.receivePacket p r (.streamJoin, calls)) a.node
      (fun r' s' => (Attested ⟨s', note p (.streamJoin, calls) a.proofs⟩ ∧
        s'.state.kbucket = a.node.state.kbucket) ∧ r' = r.connected .streamJoin calls)
      (fun s' => Attested ⟨s', note p (.streamJoin, calls) a.proofs⟩ ∧
        s'.state.kbucket = a.node.state.kbucket) := by
  have hleft : ∀ s', s'.state.Indexed → s'.state.kbucket = a.node.state.kbucket →
      (∀ q, s'.state.nodeOf q = "" ∨ s'.state.nodeOf q = a.node.state.nodeOf q) →
      s'.state.nodeOf p = "" → Attested ⟨s', note p (.streamJoin, calls) a.proofs⟩ ∧
        s'.state.kbucket = a.node.state.kbucket := fun s' hi hk hn hp =>
    ⟨h.of_eq hi hn fun q hq nodeid hm => mem_note_join (fun he => hq (he ▸ hp)) hm, hk⟩
  have hjoined : ∀ s', Turn (P2PState.Activates · · (r.connected .streamJoin calls).currentConnection p)
      (a.node.delivered p .streamJoin) s' → Attested ⟨s', note p (.streamJoin, calls) a.proofs⟩ ∧
        s'.state.kbucket = a.node.state.kbucket := by
    intro s' hturn
    have hact := hturn.state h.indexed
    refine hleft s' hact.indexed hact.kbucket (fun q => ?_) ((hact.nodeOf p).trans (if_pos (.inl rfl)))
    rw [hact.nodeOf]
    split
    · exact .inl rfl
    · exact .inr rfl
  unfold Leaves
  rw [receivePacket_run h.indexed]
  refine (receiveJoin_turn (s := a.node.delivered p .streamJoin) h.indexed p calls _).mono
    (fun r' s' hret => ⟨hjoined s' hret.2.2, hret.1⟩) fun s' hthrown => ?_
  rcases hthrown with ⟨-, hturn⟩ | ⟨hcalm, hrefused⟩
  · exact hjoined s' hturn
  · have hsame := hcalm.state h.indexed
    have hnode : ∀ q, s'.state.nodeOf q = a.node.state.nodeOf q := hsame.nodeOf h.indexed
    refine hleft s' hsame.indexed hsame.kbucket (fun q => .inr (hnode q)) ?_
    rw [hnode]
    by_contra hne
    exact hr ⟨rfl, hne, hrefused⟩

/-- What was accepted and is not an impersonation is proved once it is delivered. -/
theorem proved_of_accepted {msg : Ping}
    (ha : Accepted (a.node.delivered p (.ping msg)) p msg calls (r.connected (.ping msg) calls))
    (hu : msg.signature = "" → (p, msg.nodeid) ∈ a.proofs) :
    (p, msg.nodeid) ∈ note p (.ping msg, calls) a.proofs := by
  by_cases hsigned : msg.signature = ""
  · exact mem_note (x := (.ping msg, calls)) (by nofun) (hu hsigned)
  · obtain ⟨s₁, hcheck⟩ := ha
    exact mem_note_ping (((calm_checkPing p msg calls _).of_ok hcheck).2 rfl hsigned)

theorem Added.mem_contacts {b b' : KBucket Konnection} {c d : Konnection} {status : ContactStatus}
    (h : P2PState.Added b c status b') (hd : d ∈ b'.contacts) :
    d ∈ b.contacts ∨ status = .newContact ∧ d = c := by
  cases h with
  | existing hf => exact .inl hd
  | full hf hins => exact .inl hd
  | new hf hins =>
    have hperm := (KBucket.insert_ok hins).2
    rcases List.mem_cons.mp (hperm.mem_iff.mp hd) with rfl | hd
    · exact .inr ⟨rfl, rfl⟩
    · exact .inl hd

/-- The bucket gains the sender of a `Ping`. -/
theorem gainsProved_of_added {msg : Ping} {status : ContactStatus} {b : KBucket Konnection}
    (hb : P2PState.Added s.state.kbucket ⟨msg.nodeid, p⟩ status b)
    (hk : s'.state.kbucket = b) (hp : status = .newContact → (p, msg.nodeid) ∈ proofs) :
    GainsProved s ⟨s', proofs⟩ := by
  intro c hc
  have hc' : c ∈ b.contacts := hk ▸ hc
  exact (Added.mem_contacts hb hc').imp id fun ⟨hnew, he⟩ => he ▸ hp hnew

/-- A packet keeps the nodes of the items proved, and so is every contact that it adds. -/
theorem Attested.effect (h : Attested a) {x : Packet × PacketCalls} (hx : x.1 ≠ .streamJoin)
    (hi : ¬ Impersonates p r x a) {result : Option Received}
    (he : Effect (a.node.delivered p x.1) p (r.connected x.1 x.2) x.2 x.1 result s') :
    Attested ⟨s', note p x a.proofs⟩ ∧ GainsProved a.node ⟨s', note p x a.proofs⟩ := by
  have hkept : s'.state.Indexed → s'.state.kbucket = a.node.state.kbucket →
      (∀ q, s'.state.nodeOf q = a.node.state.nodeOf q) →
      Attested ⟨s', note p x a.proofs⟩ ∧ GainsProved a.node ⟨s', note p x a.proofs⟩ :=
    fun hi hk hn => ⟨h.of_eq hi (fun q => .inr (hn q)) fun _ _ _ hm => mem_note hx hm,
      gainsProved_of_eq hk⟩
  have hcalm : Calm (a.node.delivered p x.1) s' →
      Attested ⟨s', note p x a.proofs⟩ ∧ GainsProved a.node ⟨s', note p x a.proofs⟩ := fun hc =>
    have hsame := hc.state h.indexed
    hkept hsame.indexed hsame.kbucket fun q => hsame.nodeOf h.indexed q
  have hcloses : Turn (P2PState.Closes · · p) (a.node.delivered p x.1) s' →
      Attested ⟨s', note p x a.proofs⟩ ∧ GainsProved a.node ⟨s', note p x a.proofs⟩ := fun hc =>
    have hclose := hc.state h.indexed
    hkept hclose.indexed hclose.kbucket hclose.nodeOf
  obtain ⟨packet, calls⟩ := x
  cases he with
  | calm hm hc => exact hcalm hc
  | thrown hc => exact hcalm hc
  | ignored hc => exact hcalm hc
  | joined hport ha hr => exact absurd rfl hx
  | errored hc => exact hcloses hc
  | dropped hc => exact hcloses hc
  | @registered msg status b s' hacc hb hstatus hsend hturn =>
    have hadopt := hturn.state h.indexed
    have hp : status = .newContact ∨ status = .existingContact ∧ (a.node.state.slot p).isSome →
        (p, msg.nodeid) ∈ note p (.ping msg, calls) a.proofs := by
      intro hcase
      refine proved_of_accepted hacc fun hunsigned => ?_
      by_contra hnot
      exact hi ⟨msg, rfl, hunsigned, hnot, hacc, status, b, hb,
        hcase.imp id fun h => ⟨h.1, hsend, h.2⟩⟩
    refine ⟨⟨hadopt.indexed, fun q hq => ?_⟩,
      gainsProved_of_added hb hadopt.kbucket fun hnew => hp (.inl hnew)⟩
    dsimp only at hq ⊢
    rw [hadopt.nodeOf] at hq ⊢
    split at hq
    · next hqp =>
      rw [if_pos hqp, hqp.1]
      refine hp ?_
      cases hb with
      | new => exact .inl rfl
      | existing => exact .inr ⟨rfl, hqp.2⟩
      | full => exact absurd rfl hstatus
    · next hqp =>
      rw [if_neg hqp]
      exact mem_note hx (h.node q hq)
  | @unanswered msg status b s' hacc hb hsend hturn =>
    have hsame := hturn.state h.indexed
    refine ⟨h.of_eq hsame.indexed (fun q => .inr (hsame.nodeOf h.indexed q))
      fun _ _ _ hm => mem_note hx hm, gainsProved_of_added hb hsame.kbucket fun hnew => ?_⟩
    refine proved_of_accepted hacc fun hunsigned => ?_
    by_contra hnot
    exact hi ⟨msg, rfl, hunsigned, hnot, hacc, status, b, hb, .inl hnew⟩

/-! ## Labels -/

theorem Received.connected_eq (r : Received) (packet : Packet) (calls : PacketCalls) :
    (r.connected packet calls).returnPackets = r.returnPackets ∧
      (r.connected packet calls).peer = r.peer := by
  unfold Received.connected
  split <;> exact ⟨rfl, rfl⟩

theorem hands_connected (r : Received) (packet : Packet) (calls : PacketCalls) :
    Hands p proofs r (r.connected packet calls) :=
  .inl (r.connected_eq packet calls).symm

theorem Hands.closing {nodeid : String} {packet : AppPacket} {r' : Received}
    (hn : nodeid ≠ "" → (p, nodeid) ∈ proofs) : Hands p proofs r (r'.closing nodeid packet) := by
  unfold Received.closing
  split
  · next hne => exact .inr (.inr (.inr (hn hne)))
  · next hempty => exact .inr (.inl (not_not.mp hempty))

theorem Hands.calmly {nodeid : String} {packet : Packet} {r' : Received} (h : Hands p proofs r r')
    (hn : nodeid ≠ "" → (p, nodeid) ∈ proofs) : Hands p proofs r (r'.calmly p nodeid packet) := by
  cases packet with
  | socketOpenRefused address => exact .inr (.inr (.inl rfl))
  | socketOpenError address => exact .inr (.inr (.inl rfl))
  | other contents =>
    have hclosing : Hands p proofs r (r'.closing nodeid (.extension contents)) := .closing hn
    exact hclosing
  | _ => exact h

theorem Attested.hands (h : Attested a) {x : Packet × PacketCalls} (hx : x.1 ≠ .streamJoin)
    (hi : ¬ Impersonates p r x a) {r' : Received}
    (he : Effect (a.node.delivered p x.1) p (r.connected x.1 x.2) x.2 x.1 (some r') s') :
    Hands p (note p x a.proofs) r r' := by
  have hnode : a.node.state.nodeOf p ≠ "" → (p, a.node.state.nodeOf p) ∈ note p x a.proofs :=
    fun hne => mem_note hx (h.node p hne)
  have hgains := (h.effect hx hi he).2
  obtain ⟨packet, calls⟩ := x
  cases he with
  | calm hm hc => exact (hands_connected r packet calls).calmly hnode
  | ignored hc => exact hands_connected r _ calls
  | joined hport ha hr => exact absurd rfl hx
  | errored hc => exact .closing hnode
  | dropped hc => exact .closing hnode
  | @registered msg status b s' hacc hb hstatus hsend hturn =>
    split
    · next hnew =>
      obtain ⟨-, rfl⟩ := hnew
      have hmem : (⟨msg.nodeid, p⟩ : Konnection) ∈ s'.state.kbucket.contacts ∧
          (⟨msg.nodeid, p⟩ : Konnection) ∉ a.node.state.kbucket.contacts := by
        rw [(hturn.state h.indexed).kbucket]
        cases hb with
        | new hf hins =>
          exact ⟨(KBucket.insert_ok hins).2.mem_iff.mpr List.mem_cons_self,
            fun hold => KBucket.find_eq_none.mp hf _ hold rfl⟩
      exact .inr (.inr (.inr ((hgains _ hmem.1).resolve_left hmem.2)))
    · exact hands_connected r _ calls

theorem Attested.packet (h : Attested a) {x : Packet × PacketCalls} (hi : ¬ Impersonates p r x a)
    (hr : ¬ Rejoins p r x a) : Leaves (Audit.receivePacket p r x) a
      (fun r' a' => Attested a' ∧ GainsProved a.node a' ∧ Hands p a'.proofs r r')
      (fun a' => Attested a' ∧ GainsProved a.node a') := by
  have hnode : Leaves (P2PSocket.receivePacket p r x) a.node
      (fun r' s' => (Attested ⟨s', note p x a.proofs⟩ ∧ GainsProved a.node ⟨s', note p x a.proofs⟩) ∧
        Hands p (note p x a.proofs) r r')
      (fun s' => Attested ⟨s', note p x a.proofs⟩ ∧
        GainsProved a.node ⟨s', note p x a.proofs⟩) := by
    by_cases hx : x.1 = .streamJoin
    · obtain ⟨packet, calls⟩ := x
      obtain rfl : packet = .streamJoin := hx
      refine (h.joins hr).mono (fun r' s' hjoin => ?_) fun s' hjoin =>
        ⟨hjoin.1, gainsProved_of_eq hjoin.2⟩
      obtain ⟨⟨hatt, hk⟩, rfl⟩ := hjoin
      exact ⟨⟨hatt, gainsProved_of_eq hk⟩, hands_connected r _ calls⟩
    · exact (receivePacket_effect h.indexed p r x).mono
        (fun r' s' he => ⟨h.effect hx hi he, h.hands hx hi he⟩) fun s' he => h.effect hx hi he
  change Leaves (zoom Audit.node (fun s a => { a with node := s }) (P2PSocket.receivePacket p r x))
    { a with proofs := note p x a.proofs } _ _
  refine Leaves.mono (Leaves.zoom hnode) (fun r' a' hret => ?_) fun a' hthrown => ?_
  · obtain ⟨s', rfl, hboth, hhands⟩ := hret
    exact ⟨hboth.1, hboth.2, hhands⟩
  · obtain ⟨s', rfl, hboth⟩ := hthrown
    exact hboth

/-- The label under which something is returned was proved when the last of it was collected. -/
theorem label_of_fold : ∀ {packets : List (Packet × PacketCalls)} {r r' : Received} {a a' : Audit},
    FoldMeets (ProvesPacket p) (Audit.receivePacket p) packets r a →
    packets.foldlM (Audit.receivePacket p) r a = .ok r' a' →
    r'.peer = r.peer ∧ r'.returnPackets = r.returnPackets ∨
      ∃ done rest r₁ a₁, packets = done ++ rest ∧
        done.foldlM (Audit.receivePacket p) r a = .ok r₁ a₁ ∧
        r₁.peer = r'.peer ∧ r₁.returnPackets = r'.returnPackets ∧ LabelProved p r'.peer a₁.proofs
  | [], r, r', a, a', _, hrun => by
    obtain ⟨rfl, -⟩ := EStateM.Result.ok.inj hrun
    exact .inl ⟨rfl, rfl⟩
  | x :: packets, r, r', a, a', hm, hrun => by
    rw [List.foldlM_cons] at hrun
    cases hx : Audit.receivePacket p r x a with
    | error e a₁ =>
      rw [bind_run_error hx] at hrun
      cases hrun
    | ok r₁ a₁ =>
      rw [bind_run_ok hx] at hrun
      have hfirst := (hm.1.of_ok hx).2
      have hcons : ∀ {done : List (Packet × PacketCalls)},
          (x :: done).foldlM (Audit.receivePacket p) r a =
            done.foldlM (Audit.receivePacket p) r₁ a₁ := by
        intro done
        rw [List.foldlM_cons]
        exact bind_run_ok hx
      rcases label_of_fold (hm.2 r₁ a₁ hx) hrun with ⟨hpeer, hpackets⟩ | hlater
      · rcases hfirst with ⟨hpeer₁, hpackets₁⟩ | hlabel
        · exact .inl ⟨hpeer.trans hpeer₁, hpackets.trans hpackets₁⟩
        · exact .inr ⟨[x], packets, r₁, a₁, rfl, hcons, hpeer.symm, hpackets.symm, hpeer ▸ hlabel⟩
      · obtain ⟨done, rest, r₂, a₂, rfl, hdone, hresult⟩ := hlater
        exact .inr ⟨x :: done, rest, r₂, a₂, rfl, hcons.trans hdone, hresult⟩

end

/-! ## One operation -/

theorem mem_of_mem_eraseContacts {t : P2PState} {keys : List (String × Bool)} {c : Konnection}
    (h : c ∈ (t.eraseContacts keys).kbucket.contacts) : c ∈ t.kbucket.contacts := by
  unfold P2PState.eraseContacts at h
  dsimp only at h
  generalize t.kbucket = b at h ⊢
  induction keys generalizing b with
  | nil => exact h
  | cons key keys ih => exact List.eraseP_sublist.subset (ih _ h)

/-- The bucket has gained nothing, and no item a node. -/
structure GainsNothing (s₀ s : Internals) : Prop where
  indexed : s.state.Indexed
  contacts : ∀ c ∈ s.state.kbucket.contacts, c ∈ s₀.state.kbucket.contacts
  node : ∀ q, s.state.nodeOf q = "" ∨ s.state.nodeOf q = s₀.state.nodeOf q

variable {s₀ : Internals} {a : Audit}

theorem GainsNothing.of_eq (h : GainsNothing s₀ s) (hi : s'.state.Indexed)
    (hk : ∀ c ∈ s'.state.kbucket.contacts, c ∈ s.state.kbucket.contacts)
    (hn : ∀ q, s'.state.nodeOf q = "" ∨ s'.state.nodeOf q = s.state.nodeOf q) : GainsNothing s₀ s' :=
  ⟨hi, fun c hc => h.contacts c (hk c hc), fun q => (hn q).elim .inl fun he => he ▸ h.node q⟩

/-- No packet is handled. -/
def Conditions.idle : Conditions := ⟨fun _ _ _ => True, fun _ _ _ _ => False, fun _ _ => True⟩

theorem bears_gainsNothing : Bears (GainsNothing s₀) .idle where
  indexed _ h := h.indexed
  calm s s' h hc := by
    have hsame := hc.state h.indexed
    exact h.of_eq hsame.indexed (fun c hm => hsame.kbucket ▸ hm)
      fun q => .inr (hsame.nodeOf h.indexed q)
  activates s s' addr p h _ ha := by
    have hact := ha.state h.indexed
    refine h.of_eq hact.indexed (fun c hm => hact.kbucket ▸ hm) fun q => ?_
    rw [hact.nodeOf]
    split
    · exact .inl rfl
    · exact .inr rfl
  clears s s' h hc := by
    obtain ⟨keys, hclears, -⟩ := hc.state
    refine h.of_eq hclears.indexed (fun c hm => ?_) fun q => ?_
    · rw [hclears.kbucket] at hm
      exact mem_of_mem_eraseContacts hm
    · rw [hclears.nodeOf]
      split
      · exact .inl rfl
      · exact .inr rfl
  forgets s nodeid h _ := ⟨h.indexed, h.contacts, h.node⟩
  drops s s' peer p h _ _ hc := by
    have hclose := hc.state h.indexed
    exact h.of_eq hclose.indexed (fun c hm => hclose.kbucket ▸ hm) fun q => .inr (hclose.nodeOf q)
  effect _ _ _ _ _ _ _ hc _ := hc.elim

theorem stepMeets_idle {op : P2POp} (h : handled s op = none) : StepMeets .idle s op := by
  cases op with
  | receive ord peer batch =>
    intro hkeys p packets hbatch
    subst hbatch
    unfold handled at h
    dsimp only at h
    rw [if_pos hkeys] at h
    cases h
  | prepareWait calls =>
    exact fun _ _ _ _ => foldMeets_of_forall (fun _ _ _ _ _ =>
      foldMeets_of_forall (fun _ _ _ _ _ => trivial) _ _ _) _ _ _
  | send peer pack returns => cases pack <;> trivial
  | timerAction calls => trivial

theorem Attested.idle (h : Attested a) {op : P2POp} (hop : handled a.node op = none) :
    Attested (a.step op).2 ∧
      ∀ c ∈ (a.step op).2.node.state.kbucket.contacts, c ∈ a.node.state.kbucket.contacts := by
  have hstart : GainsNothing a.node a.node := ⟨h.indexed, fun _ hc => hc, fun _ => .inr rfl⟩
  have hkept : GainsNothing a.node (a.node.step op).2 :=
    bears_gainsNothing.step op hstart (stepMeets_idle hop)
  have hproofs : (a.step op).2.proofs = a.proofs := by
    unfold Audit.step Audit.proofsBehind
    rw [hop]
  have hatt : Attested ⟨(a.node.step op).2, (a.step op).2.proofs⟩ :=
    h.of_eq hkept.indexed hkept.node fun _ _ _ hm => hproofs ▸ hm
  exact ⟨hatt, hkept.contacts⟩

theorem Attested.batch (h : Attested a) {r : Received} {packets : List (Packet × PacketCalls)}
    (hm : FoldMeets (fun r x a => ¬ Impersonates p r x a ∧ ¬ Rejoins p r x a)
      (Audit.receivePacket p) packets r a) :
    FoldMeets (ProvesPacket p) (Audit.receivePacket p) packets r a ∧
      Leaves (packets.foldlM (Audit.receivePacket p) r) a (fun _ => Attested) Attested := by
  constructor
  · have hfront := hm.with_invariant (I := fun _ a => Attested a)
      (fun x r a r' a' hx ha hrun => ((ha.packet hx.1 hx.2).of_ok hrun).1) h
    exact hfront.mono fun r x a hx => (hx.2.packet hx.1.1 hx.1.2).mono
      (fun _ _ hret => hret.2) fun _ hthrown => hthrown.2
  · exact leaves_foldlM_meets (fun _ a => Attested a) (fun x r a hx ha =>
      (ha.packet hx.1 hx.2).mono (fun _ _ hret => hret.1) fun _ hthrown => hthrown.1) packets r a hm h

theorem Attested.step (h : Attested a) {op : P2POp} (hc : HonestAt a op) :
    Attested (a.step op).2 ∧ ProvesAt a op := by
  cases hop : handled a.node op with
  | none =>
    obtain ⟨hatt, hidle⟩ := h.idle hop
    refine ⟨hatt, ⟨fun peer p packets hb => ?_, fun _ => hidle, fun peer p packets hb => ?_⟩⟩
    · cases hop.symm.trans hb
    · cases hop.symm.trans hb
  | some batch =>
    obtain ⟨peer, p, packets⟩ := batch
    obtain ⟨hproves, hleaves⟩ := h.batch (hc peer p packets hop)
    have hsame : ∀ {peer' p' packets'}, handled a.node op = some (peer', p', packets') →
        peer' = peer ∧ p' = p ∧ packets' = packets := by
      intro peer' p' packets' hb
      obtain ⟨hpeer, hbatch⟩ := Prod.mk.inj (Option.some.inj (hb.symm.trans hop))
      obtain ⟨hp, hpackets⟩ := Prod.mk.inj hbatch
      exact ⟨hpeer, hp, hpackets⟩
    refine ⟨?_, fun _ _ _ hb => ?_, fun hnone => ?_,
      fun peer' p' packets' hb label returned hout hne => ?_⟩
    · cases hrun : packets.foldlM (Audit.receivePacket p) ⟨peer, .none, []⟩ a with
      | ok r a' =>
        rw [Audit.step_ok hop hrun]
        exact hleaves.of_ok hrun
      | error e a' =>
        rw [Audit.step_error hop hrun]
        exact hleaves.of_error hrun
    · obtain ⟨rfl, rfl, rfl⟩ := hsame hb
      exact hproves
    · cases hop.symm.trans hnone
    · obtain ⟨rfl, rfl, rfl⟩ := hsame hb
      cases hrun : packets'.foldlM (Audit.receivePacket p') ⟨peer', .none, []⟩ a with
      | ok r a' =>
        rw [Audit.step_ok hop hrun] at hout
        obtain ⟨rfl, rfl⟩ := P2POut.received.inj hout
        rcases label_of_fold hproves hrun with ⟨-, hnil⟩ | hlabel
        · exact absurd hnil hne
        · exact hlabel
      | error e a' =>
        rw [Audit.step_error hop hrun] at hout
        cases hout

theorem attested_create {discoveryServer : Bool} {bindToAddress : IpAddress}
    {connectToAddresses : List IpAddress} {selfId : String}
    (h : create discoveryServer bindToAddress connectToAddresses selfId = .ok s) :
    Attested ⟨s, []⟩ ∧ ∀ q, s.state.nodeOf q = "" := by
  obtain ⟨hsame, -, -⟩ := create_same h
  have hnone : ∀ q, s.state.nodeOf q = "" := fun q => hsame.nodeOf (indexed_init selfId) q
  exact ⟨⟨hsame.indexed, fun q hq => absurd (hnone q) hq⟩, hnone⟩

/-- **As long as no unsigned `Ping` impersonates another node, every contact that the bucket
gains is proved by its connection, and so is every label.** -/
theorem run_proves {discoveryServer : Bool} {bindToAddress : IpAddress}
    {connectToAddresses : List IpAddress} {selfId : String} {s₀ : Internals}
    (hcreate : create discoveryServer bindToAddress connectToAddresses selfId = .ok s₀)
    {ops : List P2POp} (hm : Meets Audit.step HonestAt ⟨s₀, []⟩ ops) :
    Meets Audit.step ProvesAt ⟨s₀, []⟩ ops :=
  hm.invariant (fun _ _ h hc => (h.step hc).1) (fun _ _ h hc => (h.step hc).2)
    (attested_create hcreate).1

end

/-! ## An unsigned `Ping` under another node -/

namespace Sample
variable [Sha256] [EmptyDestination] [Library]

/-- `p` connects and delivers these packets. -/
def deliver (packets : List Packet) : P2POp :=
  .receive .stored "" (some ("p", packets.map fun packet => (packet, calls "203.0.113.2")))

/-- A new node handles the packets. -/
theorem handled_deliver {s₀ : Internals} (h : create false bind [] own = .ok s₀)
    (packets : List Packet) : handled s₀ (deliver packets) =
      some ("", "p", packets.map fun packet => (packet, calls "203.0.113.2")) := by
  obtain ⟨-, hnotify, -⟩ := create_same h
  unfold handled deliver
  dsimp only
  rw [hnotify]
  exact if_pos rfl

/-- `p` proves that it is one node and then claims to be another. -/
def impersonation : List P2POp :=
  [deliver [.streamJoin, .ping (ping second), .ping { ping third with signature := "" }]]

/-- The last packet binds the other node to `p`, which has not proved to be it. -/
def impersonated : Bool :=
  match create false bind [] own with
  | .ok s₀ => passes ([.streamJoin, .ping (ping second)].map (fun packet =>
        (packet, calls "203.0.113.2")) |>.foldlM (Audit.receivePacket "p") ⟨"", .none, []⟩)
      ⟨s₀, []⟩ fun r a =>
    passes (Audit.receivePacket "p" r (.ping { ping third with signature := "" },
        calls "203.0.113.2")) a fun _ a' =>
      a'.node.state.kbucket.contacts.contains ⟨third, "p"⟩ &&
        !a.node.state.kbucket.contacts.contains ⟨third, "p"⟩ && !a'.proofs.contains ("p", third)
  | .error _ => false

theorem exists_of_impersonated (h : impersonated = true) :
    ∃ s₀, create false bind [] own = .ok s₀ ∧
      ¬ Meets Audit.step ProvesAt ⟨s₀, []⟩ impersonation := by
  unfold impersonated at h
  split at h
  · next s₀ hs₀ =>
    obtain ⟨r, a, hrun, hlast⟩ := exists_of_passes h
    obtain ⟨r', a', hping, hbound⟩ := exists_of_passes hlast
    simp only [Bool.and_eq_true, Bool.not_eq_true', List.contains_iff_mem,
      ← Bool.not_eq_true] at hbound
    obtain ⟨⟨hmem, hnew⟩, hproof⟩ := hbound
    refine ⟨s₀, hs₀, fun hm => ?_⟩
    have hbatch : FoldMeets (ProvesPacket "p") (Audit.receivePacket "p")
        ([.streamJoin, .ping (ping second)].map (fun packet => (packet, calls "203.0.113.2")) ++
          [(.ping { ping third with signature := "" }, calls "203.0.113.2")])
        ⟨"", .none, []⟩ ⟨s₀, []⟩ := hm.1.packets "" "p" _ (handled_deliver hs₀ _)
    rcases ((hbatch.append hrun).2.1.of_ok hping).1 _ hmem with hold | hproved
    · exact hnew hold
    · exact hproof hproved
  · cases h

end Sample

theorem Sample.impersonated_true :
    @impersonated sha256 emptyDestination library = true := by decide +kernel

theorem run_impersonates :
    ¬ ∀ [Sha256] [EmptyDestination] [Library] (discoveryServer : Bool) (bindToAddress : IpAddress)
      (connectToAddresses : List IpAddress) (selfId : String) (s₀ : Internals),
      create discoveryServer bindToAddress connectToAddresses selfId = .ok s₀ →
      ∀ ops : List P2POp, Meets Audit.step ProvesAt ⟨s₀, []⟩ ops := by
  intro h
  let _ := Sample.sha256
  let _ := Sample.emptyDestination
  let _ := Sample.library
  obtain ⟨s₀, hs₀, hnot⟩ := Sample.exists_of_impersonated Sample.impersonated_true
  exact hnot (h false Sample.bind [] Sample.own s₀ hs₀ Sample.impersonation)

/-- A peer that only says what it has signed. -/
theorem run_proves_second :
    letI := Sample.sha256
    letI := Sample.emptyDestination
    letI := Sample.library
    ∃ s₀, create false Sample.bind [] Sample.own = .ok s₀ ∧
      Meets Audit.step ProvesAt ⟨s₀, []⟩
        [Sample.deliver [.streamJoin, .ping (Sample.ping Sample.second)]] := by
  let _ := Sample.sha256
  let _ := Sample.emptyDestination
  let _ := Sample.library
  obtain ⟨s₀, hs₀, -⟩ := Sample.exists_of_impersonated Sample.impersonated_true
  have hm : Meets Audit.step HonestAt ⟨s₀, []⟩
      [Sample.deliver [.streamJoin, .ping (Sample.ping Sample.second)]] := by
    refine ⟨fun peer p packets hbatch => ?_, trivial⟩
    have hhandled := Sample.handled_deliver hs₀ [.streamJoin, .ping (Sample.ping Sample.second)]
    obtain ⟨rfl, hpackets⟩ := Prod.mk.inj (Option.some.inj (hhandled.symm.trans hbatch))
    obtain ⟨rfl, rfl⟩ := Prod.mk.inj hpackets
    refine ⟨⟨fun ⟨msg, hm, _⟩ => (nomatch hm), fun ⟨_, hne, _⟩ =>
      hne ((attested_create hs₀).2 "p")⟩, fun _ _ _ => ⟨⟨fun ⟨msg, hm, hunsigned, _⟩ => ?_,
        fun ⟨hjoin, _⟩ => (nomatch hjoin)⟩, fun _ _ _ => trivial⟩⟩
    obtain rfl := Packet.ping.inj hm
    exact absurd hunsigned (by decide)
  exact ⟨s₀, hs₀, run_proves hs₀ hm⟩

end MeshPP.P2PSocket
