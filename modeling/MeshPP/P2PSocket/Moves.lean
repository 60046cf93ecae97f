import MeshPP.P2PSocket.Handlers

/-! # What one packet does

A packet leaves the table and the bucket alone, or it does one of few things to
them (`Effect`): a peer joins, its item is scheduled for removal, or it is
registered under a node. Everything else about a run is derived from these. -/

set_option linter.unusedSectionVars false

namespace MeshPP.P2PSocket
open MeshPP.Lib MeshPP.Kbucket

variable [Sha256] [EmptyDestination] [Library]

namespace P2PState
variable {t t' t'' : P2PState} {addr : IpAddress} {p : PeerId} {nodeid : String}

/-! ## Moves that follow each other -/

theorem Activates.then_same (h : Activates t t' addr p) (h' : Same t' t'') :
    Activates t t'' addr p := by
  refine ⟨h'.kbucket.trans h.kbucket, h'.selfId.trans h.selfId, h'.indexed,
    fun hs hf => h'.found (h.found hs hf), fun hn => h'.unnamed (h.unnamed hn), fun q => ?_,
    fun q hq hheld => ?_, fun i item hi hact hheld => ?_⟩
  · rw [h'.nodeOf h.indexed]
    exact h.nodeOf q
  · rw [h'.noticeOf h.indexed]
    exact h.noticeOf q hq hheld
  · exact (h'.kept i item (h.kept i item hi hact hheld) hact).1

theorem Activates.then_scheduled {notice : Bool} (h : Activates t t' addr p)
    (h' : Scheduled t' t'' p notice) : Activates t t'' addr p := by
  refine ⟨h'.kbucket.trans h.kbucket, h'.selfId.trans h.selfId, h'.indexed,
    fun hs hf => h'.found (h.found hs hf), fun hn => h'.unnamed (h.unnamed hn), fun q => ?_,
    fun q hq hheld => ?_, fun i item hi hact hheld => ?_⟩
  · rw [h'.nodeOf]
    exact h.nodeOf q
  · rw [h'.noticeOf, if_neg fun hc => hq hc.1]
    exact h.noticeOf q hq hheld
  · rw [h'.itemAt]
    exact h.kept i item hi hact hheld

/-- What is left of `Scheduled` when more happens that leaves the active items alone. -/
structure Closes (t t' : P2PState) (p : PeerId) : Prop where
  kbucket : t'.kbucket = t.kbucket
  selfId : t'.selfId = t.selfId
  indexed : t'.Indexed
  found : t.PeerFound → t'.PeerFound
  unnamed : t.Unnamed → t'.Unnamed
  nodeOf : ∀ q, t'.nodeOf q = t.nodeOf q
  noticeOf : ∀ q, t'.noticeOf q = if q = p then false else t.noticeOf q
  kept : ∀ (i : Nat) (item : StateItem PeerState), t.itemAt i = some item → item.active →
    t'.itemAt i = some item

theorem Scheduled.closes (h : Scheduled t t' p false) (h' : Same t' t'') : Closes t t'' p := by
  refine ⟨h'.kbucket.trans h.kbucket, h'.selfId.trans h.selfId, h'.indexed,
    fun hf => h'.found (h.found hf), fun hn => h'.unnamed (h.unnamed hn), fun q => ?_,
    fun q => ?_, fun i item hi hact => ?_⟩
  · rw [h'.nodeOf h.indexed, h.nodeOf]
  · rw [h'.noticeOf h.indexed, h.noticeOf]
    by_cases hq : q = p
    · cases hs : t.slot p with
      | none => rw [hq, noticeOf_of_slot_none hs]; simp
      | some i => rw [if_pos ⟨hq, rfl⟩, if_pos hq]
    · rw [if_neg fun hc => hq hc.1, if_neg hq]
  · exact (h'.kept i item ((h.itemAt i).trans hi) hact).1

/-- The item of `p`, if there is one, is given the node and kept for another time. -/
structure Adopts (t t' : P2PState) (p : PeerId) (nodeid : String) : Prop where
  kbucket : t'.kbucket = t.kbucket
  selfId : t'.selfId = t.selfId
  indexed : t'.Indexed
  found : t.PeerFound → t'.PeerFound
  unnamed : t.Unnamed → t'.Unnamed
  nodeOf : ∀ q, t'.nodeOf q = if q = p ∧ (t.slot p).isSome then nodeid else t.nodeOf q
  noticeOf : ∀ q, t'.noticeOf q = if q = p ∧ (t.slot p).isSome then true else t.noticeOf q
  kept : ∀ (i : Nat) (item : StateItem PeerState), t.itemAt i = some item → item.active →
    t.slot p ≠ some i → t'.itemAt i = some item
  named : ∀ (i : Nat), t.slot p = some i →
    ∃ item, t'.itemAt i = some item ∧ item.peer = some p ∧ item.value.nodeId = nodeid

theorem Same.adopts {t₁ t₂ : P2PState} (hi : t.Indexed) (h : Same t t₁)
    (h₁ : Scheduled t₁ t₂ p true) (h₂ : Named t₂ t' p nodeid) : Adopts t t' p nodeid := by
  have hslot : t₂.slot p = t.slot p := (h₁.slot p).trans (h.slot p)
  refine ⟨h₂.kbucket.trans (h₁.kbucket.trans h.kbucket), h₂.selfId.trans (h₁.selfId.trans h.selfId),
    h₂.indexed, fun hf => h₂.found (h₁.found (h.found hf)),
    fun hn => h₂.unnamed h₁.indexed (h₁.unnamed (h.unnamed hn)), fun q => ?_, fun q => ?_,
    fun i item hitem hact hne => ?_, fun i hs => ?_⟩
  · rw [h₂.nodeOf h₁.indexed, hslot, h₁.nodeOf, h.nodeOf hi]
  · rw [h₂.noticeOf, h₁.noticeOf, h.slot, h.noticeOf hi]
  · rw [h₂.itemAt i (by rw [hslot]; exact hne), h₁.itemAt]
    exact (h.kept i item hitem hact).1
  · obtain ⟨item, hitem, hp⟩ := h₁.indexed.itemAt (hslot.trans hs)
    obtain ⟨value, hv, hitem'⟩ := h₂.item i item (hslot.trans hs) hitem
    exact ⟨_, hitem', hp, hv⟩

/-- The same change of the bucket in front of a move and behind it. -/
theorem Same.setKbucket (h : Same t t') (b : KBucket Konnection) :
    Same { t with kbucket := b } { t' with kbucket := b } :=
  ⟨rfl, h.selfId, h.indexed, h.found, h.unnamed, h.slot, h.kept⟩

/-! ## `add_contact` -/

/-- What `add_contact` makes of a bucket, with the status it returns. -/
inductive Added (b : KBucket Konnection) (c : Konnection) :
    ContactStatus → KBucket Konnection → Prop
  | existing {d : Konnection} : b.find c = some d → Added b c .existingContact b
  | new {b' : KBucket Konnection} : b.find c = none → b.insert c = .ok (true, b') →
    Added b c .newContact b'
  | full : b.find c = none → b.insert c = .ok (false, b) → Added b c .noContact b

theorem addContact_cases (t : P2PState) (p : PeerId) (nodeid : String) :
    (∃ status b, Added t.kbucket ⟨nodeid, p⟩ status b ∧
      t.addContact p nodeid = .ok (status, { t with kbucket := b })) ∨
    (t.kbucket.find ⟨nodeid, p⟩ = none ∧ ∃ what, t.kbucket.insert ⟨nodeid, p⟩ = .error what ∧
      t.addContact p nodeid = .error what) := by
  unfold P2PState.addContact
  dsimp only
  cases hf : t.kbucket.find ⟨nodeid, p⟩ with
  | some c => exact .inl ⟨_, t.kbucket, .existing hf, rfl⟩
  | none =>
    cases hins : t.kbucket.insert ⟨nodeid, p⟩ with
    | error what => exact .inr ⟨rfl, what, rfl, rfl⟩
    | ok res =>
      obtain ⟨inserted, b⟩ := res
      have hb := KBucket.insert_ok hins
      cases inserted with
      | true => exact .inl ⟨_, b, .new hf hins, rfl⟩
      | false =>
        obtain rfl : b = t.kbucket := hb
        exact .inl ⟨_, _, .full hf hins, rfl⟩

theorem Added.addContact_eq {p : PeerId} {nodeid : String} {status : ContactStatus}
    {b : KBucket Konnection} (h : Added t.kbucket ⟨nodeid, p⟩ status b) :
    t.addContact p nodeid = .ok (status, { t with kbucket := b }) := by
  unfold P2PState.addContact
  cases h with
  | existing hf =>
    simp only [hf]
    rfl
  | new hf hins =>
    simp only [hf]
    exact ok_bind hins _
  | full hf hins =>
    simp only [hf]
    exact ok_bind hins _

end P2PState

/-! ## One packet -/

/-- The `Ping` passes the checks. -/
def Accepted (s : Internals) (p : PeerId) (msg : Ping) (calls : PacketCalls) (r : Received) :
    Prop :=
  ∃ s', checkPing p msg calls r s = .ok true s'

/-- What a packet that closes the connection is returned as. -/
def Received.closing (r : Received) (nodeid : String) (packet : AppPacket) : Received :=
  if nodeid ≠ "" then r.push nodeid packet else { r with peer := nodeid }

/-- What a packet does, with what is returned of it, or none when it throws. -/
inductive Effect (s : Internals) (p : PeerId) (r : Received) (calls : PacketCalls) :
    Packet → Option Received → Internals → Prop
  | calm {packet : Packet} {s' : Internals} : packet.moves = false → Calm s s' →
    Effect s p r calls packet (some (r.calmly p (s.state.nodeOf p) packet)) s'
  | thrown {packet : Packet} {s' : Internals} : Calm s s' → Effect s p r calls packet none s'
  | ignored {msg : Ping} {s' : Internals} : Calm s s' →
    Effect s p r calls (.ping msg) (some r) s'
  | joined {result : Option Received} {s' : Internals} :
    (s.state.fixedLocalPort = 0 ∨ r.currentConnection.local.port = s.state.fixedLocalPort) →
    Turn (P2PState.Activates · · r.currentConnection p) s s' → (result = some r ∨ result = none) →
    Effect s p r calls .streamJoin result s'
  | errored {buffer : String} {s' : Internals} : Turn (P2PState.Closes · · p) s s' →
    Effect s p r calls (.streamProtocolError buffer)
      (some (r.closing (s.state.nodeOf p) (.streamProtocolError buffer))) s'
  | dropped {s' : Internals} : Turn (P2PState.Closes · · p) s s' →
    Effect s p r calls .streamDrop (some (r.closing (s.state.nodeOf p) .streamDrop)) s'
  | registered {msg : Ping} {status : ContactStatus} {b : KBucket Konnection} {s' : Internals} :
    Accepted s p msg calls r → P2PState.Added s.state.kbucket ⟨msg.nodeid, p⟩ status b →
    status ≠ .noContact → calls.send 0 = true →
    Turn (fun t t' => P2PState.Adopts { t with kbucket := b } t' p msg.nodeid) s s' →
    Effect s p r calls (.ping msg) (some (if msg.nodeid ≠ "" ∧ status = .newContact then
      r.push msg.nodeid .streamJoin else r)) s'
  /-- The `Pong` cannot be sent. -/
  | unanswered {msg : Ping} {status : ContactStatus} {b : KBucket Konnection} {s' : Internals} :
    Accepted s p msg calls r → P2PState.Added s.state.kbucket ⟨msg.nodeid, p⟩ status b →
    calls.send 0 = false → Turn (fun t t' => P2PState.Same { t with kbucket := b } t') s s' →
    Effect s p r calls (.ping msg) none s'

section
variable {s s₁ s₂ : Internals}

/-- A calm turn behind another one. -/
theorem Turn.then_calm {R R' : P2PState → P2PState → Prop} (h : Turn R s s₁) (h' : Calm s₁ s₂)
    (hi : s.state.Indexed → s₁.state.Indexed)
    (hR : s.state.Indexed → R s.state s₁.state → P2PState.Same s₁.state s₂.state →
      R' s.state s₂.state) : Turn R' s s₂ :=
  ⟨fun hs => hR hs (h.state hs) (h'.state (hi hs)), h'.notify.trans h.notify,
    h.trace.trans h'.trace⟩

theorem leaves_updateState {f : P2PState → P2PState} {Q : Unit → Internals → Prop}
    {E : Internals → Prop} (h : Q () { s with state := f s.state }) :
    Leaves (updateState f) s Q E := leaves_ok rfl h

theorem leaves_sent {p : PeerId} {packet : Packet} {Q : Unit → Internals → Prop}
    {E : Internals → Prop} (h : Q () { s with trace := s.trace ++ [.sent p packet] }) :
    Leaves (skSend true p packet) s Q E := leaves_ok rfl h

theorem leaves_joined (hi : s.state.Indexed) (p : PeerId) (addr : IpAddress) :
    Leaves (tryState fun t => t.addActive addr p) s
      (fun _ s' => Turn (P2PState.Activates · · addr p) s s')
      (fun s' => Calm s s' ∧ ¬ s.state.PeerFound) := by
  rcases hi.addActive addr p with ⟨t', hadd, hact⟩ | ⟨hadd, hlost⟩
  · exact leaves_ok (tryState_run hadd) ⟨fun _ => hact, rfl, List.prefix_refl _⟩
  · refine leaves_error (e := .fault .assertion) ?_ ⟨calm.refl s, hlost⟩
    unfold tryState readState
    simp only [bind_assoc, get_bind_run, hadd]
    rfl

theorem leaves_of_calm {α : Type} {T : Internals → Prop} {m : SocketM α} {Q : α → Internals → Prop}
    (hT : ∀ s₂, Calm s₁ s₂ → T s₂) (h : Ends calm m s₁ Q) :
    Leaves m s₁ (fun a s₂ => T s₂ ∧ Q a s₂) T :=
  h.leaves.mono (fun _ s₂ h => ⟨hT s₂ h.1, h.2⟩) hT

/-- The connection has the port that all connections have to have. -/
def Received.OnPort (r : Received) (t : P2PState) : Prop :=
  t.fixedLocalPort = 0 ∨ r.currentConnection.local.port = t.fixedLocalPort

/-- A peer joins, unless its port is another one or the table has lost track of a peer. -/
theorem receiveJoin_turn (hi : s.state.Indexed) (p : PeerId) (calls : PacketCalls)
    (r : Received) : Leaves (receiveJoin p calls r) s
      (fun r' s' => r' = r ∧ r.OnPort s.state ∧
        Turn (P2PState.Activates · · r.currentConnection p) s s')
      (fun s' => r.OnPort s.state ∧ Turn (P2PState.Activates · · r.currentConnection p) s s' ∨
        Calm s s' ∧ ¬ (r.OnPort s.state ∧ s.state.PeerFound)) := by
  let T (s' : Internals) : Prop := Turn (P2PState.Activates · · r.currentConnection p) s s'
  have hcalm : ∀ s₁ s₂, T s₁ → Calm s₁ s₂ → T s₂ := fun s₁ s₂ h h' =>
    h.then_calm h' (fun hs => (h.state hs).indexed) fun _ ha hsame => ha.then_same hsame
  unfold receiveJoin
  refine Leaves.get_bind ?_
  split
  · next hport =>
    refine ((leaves_joined hi p _).mono (fun _ _ h => h) fun s' h =>
      .inr ⟨h.1, fun hboth => h.2 hboth.2⟩).bind fun _ s₁ _ h₁ => ?_
    refine ((leaves_of_calm (fun s₂ h => hcalm s₁ s₂ h₁ h) (calm_skSend _ _ _)).mono
      (fun _ _ h => h.1) fun _ h => .inl ⟨hport, h⟩).bind fun _ s₂ _ h₂ => ?_
    have h₃ : T { s₂ with state := s₂.state.removeLater p 10 true false } :=
      ⟨fun hs => (h₂.state hs).then_scheduled ((h₂.state hs).indexed.removeLater p 10 true false),
        h₂.notify, h₂.trace⟩
    refine (leaves_updateState (Q := fun _ => T) h₃).bind fun _ s₃ _ h₃ => ?_
    refine ((leaves_of_calm (fun s₂ h => hcalm s₃ s₂ h₃ h) (calm_updateState fun hi =>
      P2PState.same_of_eq hi rfl rfl rfl)).mono (fun _ _ h => h.1)
        fun _ h => .inl ⟨hport, h⟩).bind fun _ s₄ _ h₄ => ?_
    refine ((leaves_of_calm (fun s₂ h => hcalm s₄ s₂ h₄ h) (calm_tryState fun hi =>
      hi.addPassive _)).mono (fun _ _ h => h.1) fun _ h => .inl ⟨hport, h⟩).bind
        fun _ s₅ _ h₅ => ?_
    exact leaves_pure ⟨rfl, hport, h₅⟩
  · next hport => exact leaves_error rfl (.inr ⟨calm.refl s, fun hboth => hport hboth.1⟩)

theorem receiveJoin_effect (hi : s.state.Indexed) (p : PeerId) (calls : PacketCalls)
    (r : Received) : Leaves (receiveJoin p calls r) s
      (fun r' s' => Effect s p r calls .streamJoin (some r') s')
      (fun s' => Effect s p r calls .streamJoin none s') := by
  refine (receiveJoin_turn hi p calls r).mono (fun r' s' h => ?_) fun s' h => ?_
  · obtain ⟨rfl, hport, hact⟩ := h
    exact .joined hport hact (.inl rfl)
  · rcases h with ⟨hport, hact⟩ | ⟨hcalm, -⟩
    · exact .joined hport hact (.inr rfl)
    · exact .thrown hcalm

theorem closes_removeLater (p : PeerId) (step : Nat) (sendDrop : Bool) :
    Turn (P2PState.Closes · · p) s
      { s with state := s.state.removeLater p step sendDrop false } :=
  ⟨fun hi => (hi.removeLater p step sendDrop false).closes (.refl (hi.removeLater p _ _ _).indexed),
    rfl, List.prefix_refl _⟩

theorem receiveProtocolError_effect (p : PeerId) (calls : PacketCalls) (buffer : String)
    (r : Received) : Leaves (receiveProtocolError p (s.state.nodeOf p) buffer r) s
      (fun r' s' => Effect s p r calls (.streamProtocolError buffer) (some r') s')
      (fun s' => Effect s p r calls (.streamProtocolError buffer) none s') :=
  (leaves_updateState (Q := fun _ => Turn (P2PState.Closes · · p) s)
    (closes_removeLater p 0 true)).bind fun _ _ _ h => leaves_pure (.errored h)

theorem P2PState.Closes.then_same {t t' t'' : P2PState} {p : PeerId} (h : Closes t t' p)
    (h' : Same t' t'') : Closes t t'' p := by
  refine ⟨h'.kbucket.trans h.kbucket, h'.selfId.trans h.selfId, h'.indexed,
    fun hf => h'.found (h.found hf), fun hn => h'.unnamed (h.unnamed hn), fun q => ?_,
    fun q => ?_, fun i item hi hact => (h'.kept i item (h.kept i item hi hact) hact).1⟩
  · rw [h'.nodeOf h.indexed, h.nodeOf]
  · rw [h'.noticeOf h.indexed, h.noticeOf]

theorem P2PState.Same.then_closes {t t' t'' : P2PState} {p : PeerId} (hi : t.Indexed)
    (h : Same t t') (h' : Closes t' t'' p) : Closes t t'' p := by
  refine ⟨h'.kbucket.trans h.kbucket, h'.selfId.trans h.selfId, h'.indexed,
    fun hf => h'.found (h.found hf), fun hn => h'.unnamed (h.unnamed hn), fun q => ?_,
    fun q => ?_, fun i item hitem hact => h'.kept i item (h.kept i item hitem hact).1 hact⟩
  · rw [h'.nodeOf, h.nodeOf hi]
  · rw [h'.noticeOf, h.noticeOf hi]

theorem receiveDrop_effect (p : PeerId) (calls : PacketCalls) (r : Received) :
    Leaves (receiveDrop p (s.state.nodeOf p) r) s
      (fun r' s' => Effect s p r calls .streamDrop (some r') s')
      (fun s' => Effect s p r calls .streamDrop none s') := by
  unfold receiveDrop
  refine (leaves_updateState (Q := fun _ => Calm s) (calm_of_state fun hi =>
    P2PState.same_of_eq hi rfl rfl rfl)).bind fun _ s₁ _ h₁ => ?_
  have h₂ : Turn (P2PState.Closes · · p) s
      { s₁ with state := s₁.state.removeLater p 0 false false } := by
    have hclose := closes_removeLater (s := s₁) p 0 false
    exact ⟨fun hi => (h₁.state hi).then_closes hi (hclose.state (h₁.state hi).indexed),
      h₁.notify, h₁.trace⟩
  refine (leaves_updateState (Q := fun _ => Turn (P2PState.Closes · · p) s) h₂).bind
    fun _ s₂ _ h₂ => ?_
  have hcalm : ∀ s₃, Calm s₂ s₃ → Turn (P2PState.Closes · · p) s s₃ := fun s₃ h =>
    h₂.then_calm h (fun hi => (h₂.state hi).indexed) fun _ hc hsame => hc.then_same hsame
  split
  · next hne =>
    have hr : r.closing (s.state.nodeOf p) .streamDrop = r.push (s.state.nodeOf p) .streamDrop :=
      if_pos hne
    exact (leaves_updateState (Q := fun _ => Turn (P2PState.Closes · · p) s) (hcalm _
      ⟨fun hi => same_processNodeDrop hi _, rfl, List.prefix_refl _⟩)).bind
        fun _ s₃ _ h₃ => leaves_pure (hr ▸ .dropped h₃)
  · next hne =>
    have hr : r.closing (s.state.nodeOf p) .streamDrop = { r with peer := s.state.nodeOf p } :=
      if_neg hne
    exact leaves_pure (hr ▸ .dropped h₂)

/-- The last part of the registration, when the contact is new or known. -/
theorem leaves_adopts {p : PeerId} {nodeid : String} {b : KBucket Konnection} {α : Type}
    {a : α} {Q : α → Internals → Prop} {E : Internals → Prop} (hi : s.state.Indexed)
    (h₁ : Turn (fun t t' => P2PState.Same { t with kbucket := b } t') s s₁)
    (ha : ∀ s', Turn (fun t t' => P2PState.Adopts { t with kbucket := b } t' p nodeid) s s' →
      Q a s') :
    Leaves (do
      updateState fun t => t.removeLater p 10 true true
      tryState fun t => t.setActiveNodeid p nodeid
      return a) s₁ Q E := by
  have hsame := h₁.state hi
  have hlater := hsame.indexed.removeLater p 10 true true
  obtain ⟨t', hset, hnamed⟩ := hlater.indexed.setActiveNodeid p nodeid
  refine (leaves_updateState (Q := fun _ s₂ =>
    s₂ = { s₁ with state := s₁.state.removeLater p 10 true true }) rfl).bind fun _ s₂ _ h₂ => ?_
  subst h₂
  refine (leaves_ok (tryState_run hset) (Q := fun _ s₃ => s₃ = { s₁ with state := t' }) rfl).bind
    fun _ s₃ _ h₃ => ?_
  subst h₃
  refine leaves_pure (ha _ ⟨fun _ => ?_, h₁.notify, h₁.trace⟩)
  exact hsame.adopts (t := { s.state with kbucket := b }) hi hlater hnamed

theorem registerPing_effect (hi : s.state.Indexed) {p : PeerId} {msg : Ping} {calls : PacketCalls}
    {r : Received} (ha : Accepted s p msg calls r) (h₁ : Calm s s₁) :
    Leaves (registerPing p msg calls r) s₁
      (fun r' s' => Effect s p r calls (.ping msg) (some r') s')
      (fun s' => Effect s p r calls (.ping msg) none s') := by
  have hk : s₁.state.kbucket = s.state.kbucket := (h₁.state hi).kbucket
  unfold registerPing
  rcases s₁.state.addContact_cases p msg.nodeid with ⟨status, b, hb, hrun⟩ | ⟨hf, what, hins, hrun⟩
  · rw [hk] at hb
    have hadd : addContact p msg.nodeid s₁ =
        .ok status { s₁ with state := { s₁.state with kbucket := b } } := by
      unfold addContact
      rw [get_bind_run, hrun]
      rfl
    refine (leaves_ok hadd (Q := fun a s₂ => a = status ∧
      Turn (fun t t' => P2PState.Same { t with kbucket := b } t') s s₂) ⟨rfl, fun hs =>
        (h₁.state hs).setKbucket b, h₁.notify, h₁.trace⟩).bind fun a s₂ _ h₂ => ?_
    obtain ⟨rfl, h₂⟩ := h₂
    refine Leaves.get_bind ?_
    have hcalm : ∀ {s₃}, Calm s₂ s₃ →
        Turn (fun t t' => P2PState.Same { t with kbucket := b } t') s s₃ := fun h =>
      h₂.then_calm h (fun hs => (h₂.state hs).indexed) fun _ hsame h' => hsame.trans h'
    cases hsend : calls.send 0 with
    | false => exact leaves_error rfl (.unanswered ha hb hsend h₂)
    | true =>
      refine (leaves_sent (Q := fun _ s₃ => Calm s₂ s₃)
        ⟨.refl, rfl, List.prefix_append _ _⟩).bind fun _ s₃ _ h₃ => ?_
      split
      · next hne =>
        exact leaves_adopts hi (hcalm h₃) fun s' h => .registered ha hb hne hsend h
      · next hno =>
        -- there is no room, and only the drop of the node is noted
        obtain rfl := not_not.mp hno
        cases hb
        have h₃' : Calm s s₃ := ⟨(hcalm h₃).state, (hcalm h₃).notify, (hcalm h₃).trace⟩
        exact (leaves_updateState (Q := fun _ => Calm s) (calm.trans h₃'
          ⟨fun h => same_processNodeDrop h _, rfl, List.prefix_refl _⟩)).bind
            fun _ s₄ _ h₄ => leaves_pure (.ignored h₄)
  · have hadd : addContact p msg.nodeid s₁ = .error (.logicError what) s₁ := by
      unfold addContact
      rw [get_bind_run, hrun]
      rfl
    exact (leaves_error hadd (.thrown h₁)).bind (Q := fun _ _ => False) fun _ _ _ h => h.elim

theorem receivePing_effect (hi : s.state.Indexed) (p : PeerId) (msg : Ping) (calls : PacketCalls)
    (r : Received) : Leaves (receivePing p msg calls r) s
      (fun r' s' => Effect s p r calls (.ping msg) (some r') s')
      (fun s' => Effect s p r calls (.ping msg) none s') := by
  refine ((calm_checkPing p msg calls r).leaves.mono (fun _ _ h => h.1)
    fun _ h => .thrown h).bind fun b s₁ hrun h₁ => ?_
  cases b with
  | false => exact leaves_pure (.ignored h₁)
  | true => exact registerPing_effect hi ⟨s₁, hrun⟩ h₁

theorem receiveCase_effect (hi : s.state.Indexed) (p : PeerId) (calls : PacketCalls)
    (r : Received) (packet : Packet) :
    Leaves (receiveCase p (s.state.nodeOf p) calls r packet) s
      (fun r' s' => Effect s p r calls packet (some r') s')
      (fun s' => Effect s p r calls packet none s') := by
  cases hm : packet.moves with
  | false =>
    refine (calm_receiveCase hm).leaves.mono (fun r' s' h => ?_) fun _ h => .thrown h
    obtain ⟨hcalm, rfl⟩ := h
    exact .calm hm hcalm
  | true =>
    cases packet with
    | streamJoin => exact receiveJoin_effect hi p calls r
    | streamDrop => exact receiveDrop_effect p calls r
    | streamProtocolError buffer => exact receiveProtocolError_effect p calls buffer r
    | ping msg => exact receivePing_effect hi p msg calls r
    | _ => cases hm

/-- The state in which a packet is handled. -/
def Internals.delivered (s : Internals) (p : PeerId) (packet : Packet) : Internals :=
  { s with trace := s.trace ++ [.delivered p packet] }

theorem receivePacket_run (hi : s.state.Indexed) (p : PeerId) (r : Received)
    (x : Packet × PacketCalls) : receivePacket p r x s =
      receiveCase p (s.state.nodeOf p) x.2 (r.connected x.1 x.2) x.1 (s.delivered p x.1) := by
  unfold receivePacket record readState
  simp only [modify_bind_run, bind_assoc, get_bind_run, P2PState.getNodeid_eq hi, pure_bind]
  rfl

theorem receivePacket_effect (hi : s.state.Indexed) (p : PeerId) (r : Received)
    (x : Packet × PacketCalls) : Leaves (receivePacket p r x) s
      (fun r' s' => Effect (s.delivered p x.1) p (r.connected x.1 x.2) x.2 x.1 (some r') s')
      (fun s' => Effect (s.delivered p x.1) p (r.connected x.1 x.2) x.2 x.1 none s') := by
  unfold Leaves
  rw [receivePacket_run hi]
  exact receiveCase_effect (s := s.delivered p x.1) hi p x.2 (r.connected x.1 x.2) x.1

end

end MeshPP.P2PSocket
