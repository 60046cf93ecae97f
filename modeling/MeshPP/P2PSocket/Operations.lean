import MeshPP.P2PSocket.Moves

/-! # What the other operations do

Between the packets only `prepare_wait` and a drop that the application sends
touch the active items. An invariant that bears a calm turn, an `add_active` and
a `remove_pending` is kept by `prepare_wait`, also when it throws. -/

set_option linter.unusedSectionVars false

namespace MeshPP.P2PSocket
open MeshPP.Lib MeshPP.Kbucket

variable [Sha256] [EmptyDestination] [Library]

section
variable {α : Type} {s s' : Internals}

/-! ## Calm programs -/

theorem calm_addConfigured : Ends calm addConfigured s fun _ _ => True :=
  Ends.get_bind (calm_foldlM (fun _ _ => (calm_tryState fun hi => hi.addPassive _).mono
    fun _ _ _ _ => trivial) _)

theorem calm_reconnect (calls : WaitCalls) (toConnect : List IpAddress) :
    Ends calm (reconnect calls toConnect) s fun _ _ => True := by
  have hlast : ∀ s₁, Ends calm (if calls.reconnectTimerExpired then addConfigured else pure ()) s₁
      fun _ _ => True := by
    intro s₁
    split
    · exact calm_addConfigured
    · exact ends_pure trivial
  have hpure : ∀ s₁, Ends calm ((pure () : SocketM Unit) >>= fun _ =>
      if calls.reconnectTimerExpired then addConfigured else pure ()) s₁ fun _ _ => True :=
    fun s₁ => (ends_pure (Q := fun _ _ => True) trivial).bind fun _ s₂ _ _ => hlast s₂
  unfold reconnect
  by_cases hempty : toConnect.isEmpty = true
  · rw [if_pos hempty]
    refine (ends_readState calm trivial _).bind fun connected s₁ _ _ => ?_
    by_cases hall : (connected.isEmpty && calls.connectTimerExpired) = true
    · rw [if_pos hall]
      exact calm_addConfigured.bind fun _ s₂ _ _ => hlast s₂
    · rw [if_neg hall]
      exact hpure s₁
  · rw [if_neg hempty]
    exact hpure s

theorem calm_openTo (calls : WaitCalls) (x : IpAddress × Nat) :
    Ends calm (openTo calls x) s fun _ _ => True := by
  have hremove : ∀ s₁, Ends calm (updateState fun t => t.removeFromTodoList x.1) s₁
      fun _ _ => True := fun s₁ =>
    (calm_updateState fun hi => hi.removeFromTodoList x.1).mono fun _ _ _ _ => trivial
  unfold openTo
  refine Ends.bind (Q := fun _ _ => True) (Ends.onFailure ?_ fun s₁ _ => ?_) fun _ s₁ _ _ =>
    hremove s₁
  · refine (ends_readState calm trivial _).bind fun _ s₁ _ _ => ?_
    refine (ends_skCall calm trivial _).bind fun _ s₂ _ _ => ?_
    exact (calm_tryState fun hi => hi.removeLaterAddress _ _ _).mono fun _ _ _ _ => trivial
  · exact (calm_removeIfConfiguredAddress x.1).bind fun _ s₂ _ _ => hremove s₂

theorem calm_dropRemoved (calls : WaitCalls) (p : PeerId) :
    Ends calm (dropRemoved calls p) s fun _ _ => True :=
  (calm_updateState fun hi => P2PState.same_of_eq hi rfl rfl rfl).bind
    fun _ _ _ _ => (calm_skSend _ _ _).mono fun _ _ _ _ => trivial

theorem calm_timerAction (calls : TimerCalls) :
    Ends calm (timerAction calls) s fun _ _ => True := by
  unfold timerAction
  refine (ends_skCall calm trivial _).bind fun _ _ _ _ => ?_
  refine (calm_updateState fun hi => hi.doStep).bind fun _ _ _ _ => ?_
  refine (ends_readState calm trivial _).bind fun connected _ _ _ => ?_
  refine calm_foldlM (fun p s₁ => ?_) connected
  refine (ends_skCall calm trivial _).bind fun _ _ _ _ => ?_
  exact Ends.get_bind ((calm_skSend _ _ _).mono fun _ _ _ _ => trivial)

/-! ## `send` -/

theorem send_effect (peer : String) (pack : SendPacket) (returns : Bool) :
    Leaves (send peer pack returns) s
      (fun _ s' => (∃ contents, pack = .extension contents) ∧ Calm s s' ∨
        pack = .streamDrop ∧ ∃ p, s.state.getPeerId peer = some p ∧
          Turn (P2PState.Closes · · p) s s')
      (Calm s) := by
  unfold send
  refine Leaves.get_bind ?_
  cases hp : s.state.getPeerId peer with
  | none => exact leaves_error rfl (calm.refl s)
  | some p =>
    cases pack with
    | streamDrop => exact leaves_updateState (.inr ⟨rfl, p, rfl, closes_removeLater p 0 true⟩)
    | extension contents =>
      exact (calm_skSend _ _ _).leaves.mono (fun _ _ h => .inl ⟨⟨contents, rfl⟩, h.1⟩)
        fun _ h => h

/-! ## `prepare_wait` -/

/-- `remove_pending`, with the notes that are made of it. -/
structure Clearing (s s' : Internals) : Prop where
  state : ∃ keys, P2PState.Clears s.state s'.state keys ∧
    ∀ nodeid, nodeid ∈ s'.notifyRemovedPeers ↔
      nodeid ∈ s.notifyRemovedPeers ∨ (nodeid, true) ∈ keys
  trace : s.trace <+: s'.trace

/-- Every `add_active` of one listening address meets `C`. -/
def ListenMeets (C : IpAddress → PeerId → Internals → Prop) (calls : WaitCalls)
    (x : IpAddress × Nat) (s : Internals) : Prop :=
  ∀ peers, calls.listen x.2 = some peers →
    FoldMeets (fun _ peer s => ∀ connection, peer.2 = some connection → C connection peer.1 s)
      (fun _ peer => addListening peer) peers () s

/-- Every `add_active` that `prepare_wait` makes meets `C` in the state it is made in. -/
def WaitMeets (C : IpAddress → PeerId → Internals → Prop) (calls : WaitCalls)
    (s : Internals) : Prop :=
  ∀ s₁, removePending calls s = .ok () s₁ →
    ∀ toListen, s₁.state.programState.getToListen calls.ord = .ok toListen →
      FoldMeets (fun _ x s => ListenMeets C calls x s) (fun _ x => listenOn calls x)
        toListen.zipIdx () s₁

/-! ## Invariants -/

/-- What is asked of an `add_active`, of a packet and of a drop that the application sends,
in the state they happen in. -/
structure Conditions where
  activates : IpAddress → PeerId → Internals → Prop
  packet : PeerId → Received → Packet × PacketCalls → Internals → Prop
  drop : String → Internals → Prop

/-- The invariant bears a calm turn, and an `add_active` that meets `A`. -/
structure Steady (I : Internals → Prop) (A : IpAddress → PeerId → Internals → Prop) : Prop where
  indexed : ∀ s, I s → s.state.Indexed
  calm : ∀ s s', I s → Calm s s' → I s'
  activates : ∀ s s' addr p, I s → A addr p s →
    Turn (P2PState.Activates · · addr p) s s' → I s'

/-- The invariant bears everything a step does when it meets `C`. -/
structure Bears (I : Internals → Prop) (C : Conditions) : Prop where
  indexed : ∀ s, I s → s.state.Indexed
  calm : ∀ s s', I s → Calm s s' → I s'
  activates : ∀ s s' addr p, I s → C.activates addr p s →
    Turn (P2PState.Activates · · addr p) s s' → I s'
  clears : ∀ s s', I s → Clearing s s' → I s'
  forgets : ∀ s nodeid, I s → nodeid ∈ s.notifyRemovedPeers →
    I { s with notifyRemovedPeers := s.notifyRemovedPeers.erase nodeid }
  drops : ∀ s s' peer p, I s → C.drop peer s → s.state.getPeerId peer = some p →
    Turn (P2PState.Closes · · p) s s' → I s'
  effect : ∀ s s' p r x result, I s → C.packet p r x s →
    Effect (s.delivered p x.1) p (r.connected x.1 x.2) x.2 x.1 result s' → I s'

theorem mem_foldl_insert (names : List String) (set : USet String) (name : String) :
    name ∈ names.foldl (fun (set : USet String) key => set.insert key ()) set ↔
      name ∈ set ∨ name ∈ names := by
  induction names generalizing set with
  | nil => simp
  | cons key names ih =>
    rw [List.foldl_cons, ih, AList.mem_insert, List.mem_cons]
    tauto

section
variable {I : Internals → Prop} {A : IpAddress → PeerId → Internals → Prop}

theorem Steady.keeps_calm {m : SocketM α} {Q : α → Internals → Prop} (hb : Steady I A) (hi : I s)
    (h : Ends P2PSocket.calm m s Q) : Ends (Frame.keeps I) m s fun a s' => I s' ∧ Q a s' :=
  (h.weaken (fun s' hc _ => hb.calm s s' hi hc) fun _ => trivial).mono
    fun _ _ hk hq => ⟨hk hi, hq⟩

theorem Steady.removePending (hb : Steady I A) (hi : I s) (hclears : ∀ s', Clearing s s' → I s')
    (calls : WaitCalls) : Ends (Frame.keeps I) (removePending calls) s fun _ s' => I s' := by
  unfold P2PSocket.removePending
  refine (ends_readState (Frame.keeps I) trivial _).bind fun toRemove s₁ _ h => ?_
  obtain ⟨rfl, hrun⟩ := h
  obtain ⟨keys, drops, t', hrun', hcleared⟩ := (hb.indexed _ hi).removePending calls.ord
  obtain rfl := Except.ok.inj (hrun.symm.trans hrun')
  have hclearing : ∀ s₂ : Internals, s₂.state = t' → s₂.trace = s₁.trace →
      s₂.notifyRemovedPeers = ((keys.filter Prod.snd).map Prod.fst).foldl
        (fun set key => set.insert key ()) s₁.notifyRemovedPeers → Clearing s₁ s₂ := by
    intro s₂ hstate htrace hnotify
    refine ⟨⟨keys, hstate ▸ hcleared, fun nodeid => ?_⟩, htrace ▸ List.prefix_refl _⟩
    rw [hnotify, mem_foldl_insert]
    simp
  refine Ends.bind (Q := fun _ s₂ => I s₂) (ends_modify (fun _ => ?_) ?_) fun _ s₂ _ h₂ => ?_
  · exact hclears _ (hclearing _ rfl rfl rfl)
  · exact hclears _ (hclearing _ rfl rfl rfl)
  · exact (hb.keeps_calm h₂ (calm_foldlM (fun p _ => calm_dropRemoved calls p) _)).mono
      fun _ _ _ h => h.1

theorem Steady.addListening (hb : Steady I A) (hi : I s) (x : PeerId × Option IpAddress)
    (hc : ∀ connection, x.2 = some connection → A connection x.1 s) :
    Ends (Frame.keeps I) (addListening x) s fun _ s' => I s' := by
  unfold P2PSocket.addListening
  refine (ends_skCall (Frame.keeps I) trivial _).bind fun connection s₁ _ h => ?_
  obtain ⟨rfl, hx⟩ := h
  have hjoined := leaves_joined (hb.indexed _ hi) x.1 connection
  cases hrun : (tryState fun t => t.addActive connection x.1) s₁ with
  | ok a s₂ =>
    have h₂ := hb.activates _ _ _ _ hi (hc connection hx) (hjoined.of_ok hrun)
    exact ends_ok hrun (fun _ => h₂) h₂
  | error e s₂ => exact ends_error hrun (fun _ => hb.calm _ _ hi (hjoined.of_error hrun).1) trivial

theorem Steady.listenOn (hb : Steady I A) (hi : I s) (calls : WaitCalls) (x : IpAddress × Nat)
    (hc : ListenMeets A calls x s) :
    Ends (Frame.keeps I) (listenOn calls x) s fun _ s' => I s' := by
  unfold P2PSocket.listenOn
  refine Ends.get_bind ?_
  dsimp only
  split
  · exact ends_error rfl (fun h => h) trivial
  · refine Ends.onFailure ?_ fun s₁ hk => ?_
    · refine (ends_skCall (Frame.keeps I) trivial _).bind fun peers s₁ _ h => ?_
      obtain ⟨rfl, hpeers⟩ := h
      exact ends_foldlM_meets (fun _ s => I s)
        (fun peer _ s₂ _ hc h₂ => hb.addListening h₂ peer hc) peers () s₁ (fun h => h)
        (hc peers hpeers) hi
    · exact (hb.keeps_calm (hk hi) (calm_updateState fun h =>
        h.removeFromTodoList { x.1 with «local» := { x.1.local with port := _ } })).mono
        fun _ _ _ _ => trivial

theorem Steady.prepareWait (hb : Steady I A) (hi : I s) (hclears : ∀ s', Clearing s s' → I s')
    (calls : WaitCalls) (hc : WaitMeets A calls s) :
    Ends (Frame.keeps I) (prepareWait calls) s fun _ s' => I s' := by
  unfold P2PSocket.prepareWait
  refine (hb.removePending hi hclears calls).with_run.bind fun _ s₁ _ h₁ => ?_
  obtain ⟨hrun, h₁⟩ := h₁
  refine (ends_readState (Frame.keeps I) trivial _).bind fun toListen s₂ _ h => ?_
  obtain ⟨rfl, hlisten⟩ := h
  refine (ends_foldlM_meets (fun _ s => I s) (fun x _ s₂ _ hc h₂ => hb.listenOn h₂ calls x hc)
    toListen.zipIdx () s₂ (fun h => h) (hc s₂ hrun toListen hlisten) h₁).bind fun _ s₃ _ h₃ => ?_
  refine (ends_readState (Frame.keeps I) trivial _).bind fun toConnect s₄ _ h => ?_
  obtain ⟨rfl, -⟩ := h
  refine (hb.keeps_calm h₃ (calm_reconnect calls toConnect)).bind fun _ s₅ _ h₅ => ?_
  refine (hb.keeps_calm h₅.1 (calm_foldlM (fun x _ => calm_openTo calls x) _)).bind
    fun _ s₆ _ h₆ => ?_
  exact (hb.keeps_calm h₆.1 (ends_skCall P2PSocket.calm trivial _)).mono fun _ _ _ h => h.1

end

variable {I : Internals → Prop} {C : Conditions}

theorem Bears.steady (hb : Bears I C) : Steady I C.activates :=
  ⟨hb.indexed, hb.calm, hb.activates⟩

theorem Bears.removePending (hb : Bears I C) (hi : I s) (calls : WaitCalls) :
    Ends (Frame.keeps I) (removePending calls) s fun _ s' => I s' :=
  hb.steady.removePending hi (fun s' => hb.clears s s' hi) calls

theorem Bears.prepareWait (hb : Bears I C) (hi : I s) (calls : WaitCalls)
    (hc : WaitMeets C.activates calls s) :
    Ends (Frame.keeps I) (prepareWait calls) s fun _ s' => I s' :=
  hb.steady.prepareWait hi (fun s' => hb.clears s s' hi) calls hc

theorem Bears.timerAction (hb : Bears I C) (hi : I s) (calls : TimerCalls) :
    Ends (Frame.keeps I) (timerAction calls) s fun _ s' => I s' :=
  (hb.steady.keeps_calm hi (calm_timerAction calls)).mono fun _ _ _ h => h.1

/-- The state that an operation leaves, whether it returns or throws. -/
theorem outcome_of_leaves {m : SocketM α} {Q : α → Internals → Prop} {P : Internals → Prop}
    (out : α → P2POut) (h : Leaves m s Q P) (hq : ∀ a s', Q a s' → P s') :
    P (outcome out (m s)).2 := by
  unfold outcome
  cases hm : m s with
  | ok a s' => exact hq a s' (h.of_ok hm)
  | error e s' => exact h.of_error hm

theorem outcome_of_keeps {m : SocketM α} (out : α → P2POut) (hi : I s)
    (h : Ends (Frame.keeps I) m s fun _ s' => I s') : I (outcome out (m s)).2 :=
  outcome_of_leaves out (h.leaves.mono (fun _ _ h => h.2) fun _ h => h hi) fun _ _ h => h

theorem Bears.send (hb : Bears I C) (hi : I s) (peer : String) (pack : SendPacket) (returns : Bool)
    (hc : pack = .streamDrop → C.drop peer s) :
    Leaves (P2PSocket.send peer pack returns) s (fun _ s' => I s') I := by
  refine (send_effect peer pack returns).mono (fun _ s' h => ?_) fun s' h => hb.calm s s' hi h
  rcases h with ⟨-, h⟩ | ⟨hdrop, p, hp, h⟩
  · exact hb.calm s s' hi h
  · exact hb.drops s s' peer p hi (hc hdrop) hp h

theorem Bears.packet (hb : Bears I C) (hi : I s) {p : PeerId} {r : Received}
    {x : Packet × PacketCalls} (hc : C.packet p r x s) :
    Leaves (receivePacket p r x) s (fun _ s' => I s') I :=
  (receivePacket_effect (hb.indexed s hi) p r x).mono
    (fun _ s' h => hb.effect s s' p r x _ hi hc h) fun s' h => hb.effect s s' p r x _ hi hc h

/-! ## Runs -/

/-- Every packet that `receive` handles meets `C` in the state it is handled in. -/
def ReceiveMeets (C : PeerId → Received → Packet × PacketCalls → Internals → Prop)
    (ord : IterOrder) (peer : PeerId) (batch : Option (PeerId × List (Packet × PacketCalls)))
    (s : Internals) : Prop :=
  ord.order s.notifyRemovedPeers.keys = [] → ∀ p packets, batch = some (p, packets) →
    FoldMeets (C p) (receivePacket p) packets ⟨peer, .none, []⟩ s

/-- What an operation does meets `C`. -/
def StepMeets (C : Conditions) (s : Internals) : P2POp → Prop
  | .receive ord peer batch => ReceiveMeets C.packet ord peer batch s
  | .prepareWait calls => WaitMeets C.activates calls s
  | .send peer .streamDrop _ => C.drop peer s
  | .send _ (.extension _) _ => True
  | .timerAction _ => True

theorem Bears.receive (hb : Bears I C) (hi : I s) (ord : IterOrder) (peer : PeerId)
    (batch : Option (PeerId × List (Packet × PacketCalls)))
    (hc : ReceiveMeets C.packet ord peer batch s) :
    Leaves (P2PSocket.receive ord peer batch) s (fun _ s' => I s') I := by
  unfold P2PSocket.receive
  refine Leaves.get_bind ?_
  cases hkeys : ord.order s.notifyRemovedPeers.keys with
  | cons removed rest =>
    have hmem : removed ∈ s.notifyRemovedPeers.keys := by
      rw [← (ord.perm _).mem_iff, hkeys]
      exact List.mem_cons_self
    exact leaves_ok rfl (hb.forgets s removed hi (AList.mem_keys.mpr hmem))
  | nil =>
    cases batch with
    | none => exact leaves_error rfl hi
    | some b =>
      refine (leaves_foldlM_meets (fun _ s => I s) (fun x r t hx ht => hb.packet ht hx) b.2
        ⟨peer, .none, []⟩ s (hc hkeys b.1 b.2 rfl) hi).bind fun r s' _ h => leaves_pure h

theorem Bears.step (hb : Bears I C) (op : P2POp) (hi : I s) (hc : StepMeets C s op) :
    I (s.step op).2 := by
  cases op with
  | receive ord peer batch =>
    exact outcome_of_leaves _ (hb.receive hi ord peer batch hc) fun _ _ h => h
  | prepareWait calls => exact outcome_of_keeps _ hi (hb.prepareWait hi calls hc)
  | send peer pack returns =>
    refine outcome_of_leaves _ (hb.send hi peer pack returns fun hdrop => ?_) fun _ _ h => h
    subst hdrop
    exact hc
  | timerAction calls => exact outcome_of_keeps _ hi (hb.timerAction hi calls)

theorem Bears.final (hb : Bears I C) {ops : List P2POp} (hi : I s)
    (hm : Meets Internals.step (StepMeets C) s ops) : I (final Internals.step s ops) :=
  invariant_final (fun _ op h hc => hb.step op h hc) hi hm

/-- The invariant holds in front of every packet of a batch. -/
theorem Bears.between (hb : Bears I C) {p : PeerId} {packets : List (Packet × PacketCalls)}
    {r : Received} (hc : FoldMeets (C.packet p) (receivePacket p) packets r s) (hi : I s) :
    FoldMeets (fun _ _ s => I s) (receivePacket p) packets r s :=
  hc.invariant (fun _ _ _ _ _ hx ht hrun => (hb.packet ht hx).of_ok hrun) hi

/-- `P` holds when an operation is called, and in front of every packet that it handles. -/
structure Throughout (P : Internals → Prop) (s : Internals) (op : P2POp) : Prop where
  before : P s
  packets : ∀ ord peer batch, op = .receive ord peer batch →
    ReceiveMeets (fun _ _ _ s => P s) ord peer batch s

theorem Throughout.mono {P Q : Internals → Prop} {op : P2POp} (h : Throughout P s op)
    (hpq : ∀ s, P s → Q s) : Throughout Q s op :=
  ⟨hpq s h.before, fun ord peer batch hop hkeys p packets hb =>
    (h.packets ord peer batch hop hkeys p packets hb).mono fun _ _ s => hpq s⟩

theorem Bears.throughout (hb : Bears I C) {op : P2POp} (hi : I s) (hc : StepMeets C s op) :
    Throughout I s op := by
  refine ⟨hi, fun ord peer batch hop hkeys p packets hbatch => ?_⟩
  subst hop
  exact hb.between (hc hkeys p packets hbatch) hi

/-- The operations ask for nothing. -/
def Conditions.none : Conditions := ⟨fun _ _ _ => True, fun _ _ _ _ => True, fun _ _ => True⟩

theorem stepMeets_none (s : Internals) (op : P2POp) : StepMeets .none s op := by
  cases op with
  | receive ord peer batch =>
    exact fun _ p packets _ => foldMeets_of_forall (fun _ _ _ => trivial) packets _ _
  | prepareWait calls =>
    exact fun _ _ _ _ => foldMeets_of_forall (fun _ _ _ _ _ =>
      foldMeets_of_forall (fun _ _ _ _ _ => trivial) _ _ _) _ _ _
  | send peer pack returns => cases pack <;> trivial
  | timerAction calls => trivial

/-! ## The constructor -/

theorem indexed_init (selfId : String) : (P2PState.init selfId).Indexed :=
  CommunicationState.consistent_init.toIndexed

theorem peerFound_init (selfId : String) : (P2PState.init selfId).PeerFound :=
  CommunicationState.consistent_init.peerFound

theorem unnamed_init (selfId : String) : (P2PState.init selfId).Unnamed :=
  fun _ _ h => (nomatch h)

theorem same_addPassives {t t' : P2PState} (hi : t.Indexed) {addresses : List IpAddress}
    (h : addresses.foldlM P2PState.addPassive t = .ok t') : t.Same t' := by
  induction addresses generalizing t with
  | nil =>
    obtain rfl := Except.ok.inj h
    exact .refl hi
  | cons addr rest ih =>
    obtain ⟨t₁, hadd, h⟩ := ok_of_bind h
    obtain ⟨t₂, hadd', hsame⟩ := hi.addPassive addr
    obtain rfl := Except.ok.inj (hadd.symm.trans hadd')
    exact hsame.trans (ih hsame.indexed h)

/-- A new node knows no one. -/
theorem create_same {discoveryServer : Bool} {bindToAddress : IpAddress}
    {connectToAddresses : List IpAddress} {selfId : String}
    (h : create discoveryServer bindToAddress connectToAddresses selfId = .ok s) :
    (P2PState.init selfId).Same s.state ∧ s.notifyRemovedPeers = ∅ ∧ s.trace = [] := by
  unfold create at h
  obtain ⟨addresses, -, h⟩ := ok_of_bind h
  split at h
  · cases h
  · dsimp only at h
    split at h
    · next state hrun =>
      obtain rfl := Except.ok.inj h
      refine ⟨?_, rfl, rfl⟩
      have hi := indexed_init selfId
      split at hrun
      · have hport : (P2PState.init selfId).Same
            { P2PState.init selfId with fixedLocalPort := bindToAddress.local.port } :=
          P2PState.same_of_eq hi rfl rfl rfl
        exact hport.trans (same_addPassives hport.indexed hrun)
      · exact same_addPassives hi hrun
    · cases h

end

end MeshPP.P2PSocket
