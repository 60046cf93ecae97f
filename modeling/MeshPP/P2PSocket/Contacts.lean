import MeshPP.P2PSocket.Identity

/-! # The contacts and the table of peers

A contact is added under the node of one `Ping`, and erased under the node that
the item of its peer holds when the item is removed. As long as the two agree,
every contact has an active item. -/

set_option linter.unusedSectionVars false

namespace MeshPP.P2PSocket
open MeshPP.Lib MeshPP.Kbucket

section
variable [Sha256] [EmptyDestination] [Library] {s s' : Internals} {p : PeerId}

/-- There is an active item of the contact's peer that holds its node. -/
def Held (t : P2PState) (c : Konnection) : Prop :=
  ∃ (i : Nat) (item : StateItem PeerState), t.itemAt i = some item ∧ item.peer = some c.peer ∧
    item.value.nodeId = c.nodeId

/-- Every contact has an active item, and no node is resolved to a peer that has none. -/
structure ContactsHeld (s : Internals) : Prop where
  held : ∀ c ∈ s.state.kbucket.contacts, Held s.state c
  resolves : ∀ p, (∀ (i : Nat) (item : StateItem PeerState), s.state.itemAt i = some item →
    item.peer ≠ some p) → ∀ nodeid, s.state.getPeerId nodeid ≠ some p ∧
      s.state.processIntroduceRequest nodeid ≠ some p

/-- The items give their contacts up under the names these have. -/
structure Attached (s : Internals) : Prop where
  indexed : s.state.Indexed
  distinct : s.state.kbucket.Distinct
  named : ∀ c ∈ s.state.kbucket.contacts, c.nodeId ≠ ""
  held : ∀ c ∈ s.state.kbucket.contacts, Held s.state c

theorem Attached.contactsHeld (h : Attached s) : ContactsHeld s := by
  refine ⟨h.held, fun p hnone nodeid => ?_⟩
  have hfind : (s.state.kbucket.find ⟨nodeid, ""⟩).map Konnection.peer ≠ some p := by
    intro hmap
    obtain ⟨c, hf, rfl⟩ := Option.map_eq_some_iff.mp hmap
    obtain ⟨i, item, hi, hp, -⟩ := h.held c (KBucket.find_some hf).1
    exact hnone i item hi hp
  exact ⟨hfind, hfind⟩

/-! ## What detaches a contact from its item -/

/-- The address leads to an item that a contact is held by. -/
def Displaces (addr : IpAddress) (s : Internals) : Prop :=
  ∃ item q, s.state.holder addr = some item ∧ item.peer = some q ∧
    (⟨item.value.nodeId, q⟩ : Konnection) ∈ s.state.kbucket.contacts

/-- A peer joins at an address that leads to such an item. -/
def JoinDisplaces (r : Received) (x : Packet × PacketCalls) (s : Internals) : Prop :=
  x.1 = .streamJoin ∧ (s.state.fixedLocalPort = 0 ∨
    (r.connected x.1 x.2).currentConnection.local.port = s.state.fixedLocalPort) ∧
    Displaces (r.connected x.1 x.2).currentConnection s

/-- An accepted `Ping` makes a contact that the item of its peer does not hold, or it renames
an item that holds another contact. -/
def Detaches (p : PeerId) (r : Received) (x : Packet × PacketCalls) (s : Internals) : Prop :=
  ∃ msg, x.1 = .ping msg ∧ Accepted (s.delivered p x.1) p msg x.2 (r.connected x.1 x.2) ∧
    ∃ status b, P2PState.Added s.state.kbucket ⟨msg.nodeid, p⟩ status b ∧
      (status = .newContact ∧ msg.nodeid = "" ∨
        status = .newContact ∧ x.2.send 0 = true ∧ s.state.slot p = none ∨
        status = .newContact ∧ x.2.send 0 = false ∧ s.state.nodeOf p ≠ msg.nodeid ∨
        status ≠ .noContact ∧ x.2.send 0 = true ∧ s.state.nodeOf p ≠ msg.nodeid ∧
          (⟨s.state.nodeOf p, p⟩ : Konnection) ∈ s.state.kbucket.contacts)

def Conditions.attached : Conditions where
  activates addr _ s := ¬ Displaces addr s
  packet p r x s := ¬ JoinDisplaces r x s ∧ ¬ Detaches p r x s
  drop _ _ := True

/-! ## The steps -/

theorem Attached.of_kept (h : Attached s) (hi : s'.state.Indexed)
    (hk : s'.state.kbucket = s.state.kbucket)
    (hkept : ∀ c ∈ s.state.kbucket.contacts, Held s.state c → Held s'.state c) : Attached s' :=
  ⟨hi, hk ▸ h.distinct, hk ▸ h.named, fun c hc => by
    rw [hk] at hc
    exact hkept c hc (h.held c hc)⟩

theorem active_of_peer {item : StateItem PeerState} {q : PeerId} (h : item.peer = some q) :
    item.active := by
  rw [StateItem.active, h]
  rfl

theorem Attached.calm (h : Attached s) (hc : Calm s s') : Attached s' := by
  have hsame := hc.state h.indexed
  refine h.of_kept hsame.indexed hsame.kbucket fun c _ hheld => ?_
  obtain ⟨i, item, hi, hp, hn⟩ := hheld
  exact ⟨i, item, (hsame.kept i item hi (active_of_peer hp)).1, hp, hn⟩

theorem Attached.closes (h : Attached s) (hc : Turn (P2PState.Closes · · p) s s') :
    Attached s' := by
  have hclose := hc.state h.indexed
  refine h.of_kept hclose.indexed hclose.kbucket fun c _ hheld => ?_
  obtain ⟨i, item, hi, hp, hn⟩ := hheld
  exact ⟨i, item, hclose.kept i item hi (active_of_peer hp), hp, hn⟩

theorem Attached.activates {addr : IpAddress} (h : Attached s) (hd : ¬ Displaces addr s)
    (hc : Turn (P2PState.Activates · · addr p) s s') : Attached s' := by
  have hact := hc.state h.indexed
  refine h.of_kept hact.indexed hact.kbucket fun c hm hheld => ?_
  obtain ⟨i, item, hi, hp, hn⟩ := hheld
  refine ⟨i, item, hact.kept i item hi (active_of_peer hp) fun hholder => hd ?_, hp, hn⟩
  refine ⟨item, c.peer, hholder, hp, ?_⟩
  rw [hn]
  exact hm

theorem Attached.clears (h : Attached s) (hc : Clearing s s') : Attached s' := by
  obtain ⟨keys, hclears, -⟩ := hc.state
  have hmem : ∀ c, c ∈ s'.state.kbucket.contacts ↔ _ := fun c => by
    rw [hclears.kbucket, P2PState.mem_eraseContacts h.distinct]
  refine ⟨hclears.indexed, ?_, fun c hm => h.named c ((hmem c).mp hm).1, fun c hm => ?_⟩
  · rw [hclears.kbucket]
    exact P2PState.distinct_eraseContacts h.distinct keys
  · obtain ⟨hold, hkeys⟩ := (hmem c).mp hm
    obtain ⟨i, item, hi, hp, hn⟩ := h.held c hold
    rcases hclears.kept i item hi with ⟨j, hj⟩ | hkey
    · exact ⟨j, item, hj, hp, hn⟩
    · obtain ⟨notice, hkey⟩ := hkey (hn ▸ h.named c hold)
      exact absurd (hn ▸ rfl) (hkeys _ hkey)

theorem Added.distinct {b b' : KBucket Konnection} {c : Konnection} {status : ContactStatus}
    (h : P2PState.Added b c status b') (hd : b.Distinct) : b'.Distinct := by
  cases h with
  | existing hf => exact hd
  | full hf hins => exact hd
  | new hf hins => exact hd.insert hf hins

theorem held_of_nodeOf {t : P2PState} (hi : t.Indexed) {nodeid : String} (hne : nodeid ≠ "")
    (hn : t.nodeOf p = nodeid) : Held t ⟨nodeid, p⟩ := by
  obtain ⟨i, hs⟩ := Option.isSome_iff_exists.mp (P2PState.slot_of_nodeOf (hn ▸ hne))
  obtain ⟨item, hitem, hp⟩ := hi.itemAt hs
  exact ⟨i, item, hitem, hp, (P2PState.nodeOf_of_slot hs hitem).symm.trans hn⟩

/-- The item of a contact is renamed only to the node that it has. -/
theorem Held.adopts {t t' : P2PState} {nodeid : String} {c : Konnection} (h : Held t c)
    (hi : t.Indexed) (ha : P2PState.Adopts t t' p nodeid)
    (hc : c = ⟨t.nodeOf p, p⟩ → t.nodeOf p = nodeid) : Held t' c := by
  obtain ⟨i, item, hitem, hp, hn⟩ := h
  by_cases hs : t.slot p = some i
  · obtain ⟨stored, hstored, hpeer⟩ := hi.itemAt hs
    obtain rfl := Option.some.inj (hitem.symm.trans hstored)
    obtain rfl := Option.some.inj (hp.symm.trans hpeer)
    have hnode : t.nodeOf c.peer = c.nodeId := (P2PState.nodeOf_of_slot hs hitem).trans hn
    obtain ⟨item', hitem', hp', hn'⟩ := ha.named i hs
    exact ⟨i, item', hitem', hp', (hn'.trans (hc (by rw [hnode])).symm).trans hnode⟩
  · exact ⟨i, item, ha.kept i item hitem (active_of_peer hp) hs, hp, hn⟩

theorem bears_attached : Bears Attached .attached where
  indexed _ h := h.indexed
  calm _ _ h hc := h.calm hc
  activates _ _ _ _ h hd ha := h.activates hd ha
  clears _ _ h hc := h.clears hc
  forgets s nodeid h _ := ⟨h.indexed, h.distinct, h.named, h.held⟩
  drops _ _ _ _ h _ _ hc := h.closes hc
  effect s s' p r x result h hc he := by
    have h₀ : Attached (s.delivered p x.1) := ⟨h.indexed, h.distinct, h.named, h.held⟩
    obtain ⟨packet, calls⟩ := x
    cases he with
    | calm hm hcalm => exact h₀.calm hcalm
    | thrown hcalm => exact h₀.calm hcalm
    | ignored hcalm => exact h₀.calm hcalm
    | joined hport ha hr => exact h₀.activates (fun hd => hc.1 ⟨rfl, hport, hd⟩) ha
    | errored hclose => exact h₀.closes hclose
    | dropped hclose => exact h₀.closes hclose
    | @registered msg status b s' hacc hb hstatus hsend hturn =>
      have hadopt := hturn.state h.indexed
      have hcase := fun hd => hc.2 ⟨msg, rfl, hacc, status, b, hb, hd⟩
      refine ⟨hadopt.indexed, ?_, fun c hm => ?_, fun c hm => ?_⟩
      · rw [hadopt.kbucket]
        exact Added.distinct hb h.distinct
      · rw [hadopt.kbucket] at hm
        rcases Added.mem_contacts hb hm with hm | ⟨hnew, rfl⟩
        · exact h.named c hm
        · exact fun hempty => hcase (.inl ⟨hnew, hempty⟩)
      · rw [hadopt.kbucket] at hm
        rcases Added.mem_contacts hb hm with hm | ⟨hnew, rfl⟩
        · refine Held.adopts (t := { s.state with kbucket := b }) (h.held c hm) h.indexed hadopt
            fun hcp => ?_
          by_contra hne
          exact hcase (.inr (.inr (.inr ⟨hstatus, hsend, hne, hcp ▸ hm⟩)))
        · cases hs : s.state.slot p with
          | none => exact absurd (.inr (.inl ⟨hnew, hsend, hs⟩)) hcase
          | some i =>
            obtain ⟨item, hitem, hp, hn⟩ := hadopt.named i hs
            exact ⟨i, item, hitem, hp, hn⟩
    | @unanswered msg status b s' hacc hb hsend hturn =>
      have hsame := hturn.state h.indexed
      have hcase := fun hd => hc.2 ⟨msg, rfl, hacc, status, b, hb, hd⟩
      have hkept : ∀ c, Held s.state c → Held s'.state c := fun c ⟨i, item, hi, hp, hn⟩ =>
        ⟨i, item, (hsame.kept i item hi (active_of_peer hp)).1, hp, hn⟩
      refine ⟨hsame.indexed, ?_, fun c hm => ?_, fun c hm => ?_⟩
      · rw [hsame.kbucket]
        exact Added.distinct hb h.distinct
      · rw [hsame.kbucket] at hm
        rcases Added.mem_contacts hb hm with hm | ⟨hnew, rfl⟩
        · exact h.named c hm
        · exact fun hempty => hcase (.inl ⟨hnew, hempty⟩)
      · rw [hsame.kbucket] at hm
        rcases Added.mem_contacts hb hm with hm | ⟨hnew, rfl⟩
        · exact hkept c (h.held c hm)
        · refine hkept _ (held_of_nodeOf h.indexed (fun hempty => hcase (.inl ⟨hnew, hempty⟩)) ?_)
          by_contra hne
          exact hcase (.inr (.inr (.inl ⟨hnew, hsend, hne⟩)))

/-! ## Runs -/

/-- `remove_pending` leaves every contact that remains with its item, also when the drops that
follow it throw. -/
def ClearsHeld (s : Internals) (op : P2POp) : Prop :=
  ∀ calls, op = .prepareWait calls →
    Leaves (removePending calls) s (fun _ => ContactsHeld) ContactsHeld

theorem Attached.clearsHeld (h : Attached s) (op : P2POp) : ClearsHeld s op := by
  intro calls _
  refine (bears_attached.removePending h calls).leaves.mono (fun _ _ hs => hs.2.contactsHeld) ?_
  exact fun _ hs => (hs h).contactsHeld

theorem attached_create {discoveryServer : Bool} {bindToAddress : IpAddress}
    {connectToAddresses : List IpAddress} {selfId : String}
    (h : create discoveryServer bindToAddress connectToAddresses selfId = .ok s) :
    Attached s := by
  obtain ⟨hsame, -, -⟩ := create_same h
  have hnil : s.state.kbucket.contacts = [] := by
    rw [hsame.kbucket]
    rfl
  refine ⟨hsame.indexed, ?_, fun c hc => ?_, fun c hc => ?_⟩
  · unfold KBucket.Distinct
    rw [hnil]
    exact .nil
  · rw [hnil] at hc
    cases hc
  · rw [hnil] at hc
    cases hc

/-- **As long as no contact is detached from its item, every contact has an active item.** -/
theorem run_holds {discoveryServer : Bool} {bindToAddress : IpAddress}
    {connectToAddresses : List IpAddress} {selfId : String} {s₀ : Internals}
    (hcreate : create discoveryServer bindToAddress connectToAddresses selfId = .ok s₀)
    {ops : List P2POp} (hm : Meets Internals.step (StepMeets .attached) s₀ ops) :
    Meets Internals.step (fun s op => Throughout ContactsHeld s op ∧ ClearsHeld s op) s₀ ops ∧
      ContactsHeld (final Internals.step s₀ ops) := by
  have hstart := attached_create hcreate
  refine ⟨?_, (bears_attached.final hstart hm).contactsHeld⟩
  refine hm.invariant (fun _ op h hc => bears_attached.step op h hc) (fun s op h hc => ?_) hstart
  exact ⟨(bears_attached.throughout h hc).mono fun _ h => h.contactsHeld, h.clearsHeld op⟩

end

/-! ## A peer that pings under two nodes -/

namespace Sample
variable [Sha256] [EmptyDestination] [Library]

/-- `p` signs for two nodes. -/
def twoNodes : List P2POp :=
  [deliver [.streamJoin, .ping (ping second), .ping (ping third)]]

/-- There is a contact that no item holds. -/
def detached : Bool :=
  match create false bind [] own with
  | .ok s₀ =>
    let t := (final Internals.step s₀ twoNodes).state
    t.kbucket.contacts.contains ⟨second, "p"⟩ &&
      t.programState.peers.all fun item => item.value.nodeId ≠ second
  | .error _ => false

theorem exists_of_detached (h : detached = true) :
    ∃ s₀, create false bind [] own = .ok s₀ ∧
      ¬ ContactsHeld (final Internals.step s₀ twoNodes) := by
  unfold detached at h
  split at h
  · next s₀ hs₀ =>
    refine ⟨s₀, hs₀, fun hheld => ?_⟩
    rw [Bool.and_eq_true, List.contains_iff_mem, List.all_eq_true] at h
    obtain ⟨i, item, hi, -, hn⟩ := hheld.held _ h.1
    have hne := h.2 item (List.mem_of_getElem? hi)
    exact of_decide_eq_true hne hn
  · cases h

end Sample

theorem Sample.detached_true :
    @detached sha256 emptyDestination library = true := by decide +kernel

theorem run_detaches :
    ¬ ∀ [Sha256] [EmptyDestination] [Library] (discoveryServer : Bool) (bindToAddress : IpAddress)
      (connectToAddresses : List IpAddress) (selfId : String) (s₀ : Internals),
      create discoveryServer bindToAddress connectToAddresses selfId = .ok s₀ →
      ∀ ops : List P2POp,
        Meets Internals.step (fun s op => Throughout ContactsHeld s op ∧ ClearsHeld s op) s₀ ops ∧
          ContactsHeld (final Internals.step s₀ ops) := by
  intro h
  let _ := Sample.sha256
  let _ := Sample.emptyDestination
  let _ := Sample.library
  obtain ⟨s₀, hs₀, hnot⟩ := Sample.exists_of_detached Sample.detached_true
  exact hnot (h false Sample.bind [] Sample.own s₀ hs₀ Sample.twoNodes).2

/-- In a new node nothing is at the address of `p`, and after the join `p` has an item. -/
def Sample.joins [Sha256] [EmptyDestination] [Library] : Bool :=
  match create false bind [] own with
  | .ok s₀ => (s₀.state.holder (connection "203.0.113.2")).isNone &&
    passes (receivePacket "p" ⟨"", .none, []⟩ (.streamJoin, calls "203.0.113.2")) s₀
      fun _ s => (s.state.slot "p").isSome && s.state.kbucket.contacts.isEmpty
  | .error _ => false

theorem Sample.joins_true :
    @joins sha256 emptyDestination library = true := by decide +kernel

/-- A peer that pings under one node. -/
theorem run_holds_second :
    letI := Sample.sha256
    letI := Sample.emptyDestination
    letI := Sample.library
    ∃ s₀, create false Sample.bind [] Sample.own = .ok s₀ ∧ ContactsHeld
      (final Internals.step s₀
        [Sample.deliver [.streamJoin, .ping (Sample.ping Sample.second)]]) := by
  let _ := Sample.sha256
  let _ := Sample.emptyDestination
  let _ := Sample.library
  have hjoins := Sample.joins_true
  unfold Sample.joins at hjoins
  split at hjoins
  · next s₀ hs₀ =>
    rw [Bool.and_eq_true] at hjoins
    obtain ⟨r, s, hrun, hs⟩ := exists_of_passes hjoins.2
    rw [Bool.and_eq_true, List.isEmpty_iff] at hs
    have hm : Meets Internals.step (StepMeets .attached) s₀
        [Sample.deliver [.streamJoin, .ping (Sample.ping Sample.second)]] := by
      refine ⟨fun _ p packets hbatch => ?_, trivial⟩
      obtain ⟨rfl, rfl⟩ := Prod.mk.inj (Option.some.inj hbatch)
      refine ⟨⟨fun ⟨_, _, item, q, hitem, _⟩ => ?_, fun ⟨msg, hm, _⟩ => (nomatch hm)⟩,
        fun r' s' hrun' => ⟨⟨fun ⟨hm, _⟩ => (nomatch hm),
          fun ⟨msg, hm, _, status, b, _, hcase⟩ => ?_⟩, fun _ _ _ => trivial⟩⟩
      · have hnone := hjoins.1
        rw [Option.isNone_iff_eq_none] at hnone
        cases hnone.symm.trans hitem
      · obtain ⟨rfl, rfl⟩ := EStateM.Result.ok.inj (hrun.symm.trans hrun')
        obtain rfl := Packet.ping.inj hm
        rcases hcase with ⟨-, hempty⟩ | ⟨-, -, hnone⟩ | ⟨-, hsend, -⟩ | ⟨-, -, -, hmem⟩
        · exact absurd hempty (by decide)
        · rw [hnone] at hs
          cases hs.1
        · cases hsend
        · rw [hs.2] at hmem
          cases hmem
    exact ⟨s₀, hs₀, (run_holds hs₀ hm).2⟩
  · cases hjoins

end MeshPP.P2PSocket
